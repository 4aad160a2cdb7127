import NodeRustPty.PatchCorrectness
import NodeRustPty.Utf8Encoding

/-! `pty/pty_renderer.rs`: every piece of output becomes one text element, and only
the difference to the previous one is applied to the root of the renderer. -/
namespace NodeRustPty
namespace VirtualDom

open Std

/-! ### Actions one after another -/

section Actions

variable {ε σ ι : Type} {action : ι → EStateM ε σ Unit} {s s' : σ}

theorem forM_cons_ok {first : ι} {rest : List ι} (h : action first s = .ok () s') :
    (first::rest).forM action s = rest.forM action s' := by
  show EStateM.bind (action first) (fun _ => rest.forM action) s = _
  rw [EStateM.bind,h]

theorem forM_append_ok {before after : List ι} (h : before.forM action s = .ok () s') :
    (before ++ after).forM action s = after.forM action s' := by
  have happend : (before ++ after).forM action =
      EStateM.bind (before.forM action) (fun _ => after.forM action) := List.forM_append
  rw [happend,EStateM.bind,h]

end Actions

structure PtyRenderer where
  renderer : Renderer
  prevVdom : VNode

/-- An error keeps the state reached, as the early return of the source does. -/
abbrev PtyRenderM := EStateM String PtyRenderer

/-- The node that both trees start with. -/
def emptyRoot : VNode := .element ⟨"root",∅,∅,[]⟩

/-- The node that a piece of output is turned into. -/
def outputNode (data : Bytes) : VNode :=
  .element ⟨"text",(∅ : Props).insert "content" (Utf8.fromUtf8Lossy data),∅,[]⟩

namespace PtyRenderer

def new (terminal : Terminal) : PtyRenderer where
  renderer := ⟨emptyRoot,terminal⟩
  prevVdom := emptyRoot

/-- Runs an action on the renderer behind its lock. -/
def onRenderer (action : RenderM Unit) : PtyRenderM Unit := fun p =>
  match action p.renderer with
  | .ok () renderer => .ok () { p with renderer := renderer }
  | .error e renderer => .error e { p with renderer := renderer }

section Calls

variable (order : HashOrder String String)

/-- The patches from the previous node to the node of the output. -/
def applyOutput (data : Bytes) : PtyRenderM Unit := do
  onRenderer (applyPatches order (diff (← get).prevVdom (outputNode data)))

def setPrevVdom (node : VNode) : PtyRenderM Unit := modify fun p => { p with prevVdom := node }

/-- The common body of the two entry points that report an error. -/
def renderOutput (data : Bytes) : PtyRenderM Unit := do
  applyOutput order data
  setPrevVdom (outputNode data)

def render (data : Bytes) : PtyRenderM Unit := renderOutput order data

def processAndSend (_sessionId : UInt32) (data : Bytes) : PtyRenderM Unit := renderOutput order data

/-- An error is only printed to the standard error stream. -/
def handleOutput (data : Bytes) : PtyRenderM Unit := do
  try applyOutput order data catch _ => pure ()
  setPrevVdom (outputNode data)

/-- The cast `c as u8` of the source keeps the low byte. -/
def lowByte (c : Char) : UInt8 := UInt8.ofNat c.toNat

def print (c : Char) : PtyRenderM Unit := handleOutput order [lowByte c]

end Calls

/-- The calls that bring output to the renderer. -/
inductive OutputCall
  | render (data : Bytes)
  | processAndSend (sessionId : UInt32) (data : Bytes)
  | handleOutput (data : Bytes)
  | print (c : Char)

def OutputCall.payload : OutputCall → Bytes
  | .render data => data
  | .processAndSend _ data => data
  | .handleOutput data => data
  | .print c => [lowByte c]

def OutputCall.run (order : HashOrder String String) : OutputCall → PtyRenderM Unit
  | .render data => PtyRenderer.render order data
  | .processAndSend sessionId data => PtyRenderer.processAndSend order sessionId data
  | .handleOutput data => PtyRenderer.handleOutput order data
  | .print c => PtyRenderer.print order c

/-- The calls one after another, each with the iteration orders of its own maps. -/
def runCalls (calls : List (HashOrder String String × OutputCall)) : PtyRenderM Unit :=
  calls.forM fun call => call.2.run call.1

/-! ### What one call leaves -/

/-- Both trees are this node, and the terminal takes everything. -/
structure Holds (p : PtyRenderer) (node : VNode) : Prop where
  root : p.renderer.root = node
  prevVdom : p.prevVdom = node
  reliable : p.renderer.terminal.Reliable

theorem new_holds {terminal : Terminal} (h : terminal.Reliable) : (new terminal).Holds emptyRoot :=
  ⟨rfl,rfl,h⟩

/-- The nodes that the two trees go through. -/
def Visited (node : VNode) : Prop := node = emptyRoot ∨ ∃ data, node = outputNode data

theorem outputNode_visited (data : Bytes) : Visited (outputNode data) := .inr ⟨data,rfl⟩

/-- From such a node the patches reach the node of any output: the first time the tags
differ, and later the one key of the props stays. -/
theorem outputNode_patchable {node : VNode} (h : Visited node) (data : Bytes) :
    Patchable node (outputNode data) := by
  rcases h with rfl | ⟨before,rfl⟩
  · intro htag
    have hne : ("root" : String) ≠ "text" := by decide
    exact absurd htag hne
  · intro _
    have hkeys (k : String) (hk : k ∈ (∅ : Props).insert "content" (Utf8.fromUtf8Lossy before)) :
        k ∈ (∅ : Props).insert "content" (Utf8.fromUtf8Lossy data) := by
      simpa using hk
    have hstray (k v : String) (hk : (strayRowProps [] [])[k]? = some v) :
        ((∅ : Props).insert "content" (Utf8.fromUtf8Lossy data))[k]? = some v := by
      simp [strayRowProps] at hk
    have hedits : rowEdits 0 [] [] [] = some [] := rfl
    exact ⟨rfl,hkeys,hstray,rfl,hedits⟩

theorem patchAll_outputNode {node : VNode} (h : Visited node) (data : Bytes) :
    patchAll (diff node (outputNode data)) node = some (outputNode data) :=
  (patchAll_diff_iff _ _).mpr (outputNode_patchable h data)

variable (order : HashOrder String String)

/-- The root of the renderer is brought to the node of the output. -/
theorem applyOutput_spec {p : PtyRenderer} {node : VNode} (hp : p.Holds node) (hnode : Visited node)
    (data : Bytes) : ∃ terminal, terminal.Reliable ∧
      applyOutput order data p = .ok () ⟨⟨outputNode data,terminal⟩,node⟩ := by
  obtain ⟨⟨root,terminal⟩,prevVdom⟩ := p
  obtain rfl : root = node := hp.root
  obtain rfl : prevVdom = root := hp.prevVdom
  have hreach := applyPatches_reaches order (diff prevVdom (outputNode data)) prevVdom terminal hp.reliable
  rw [patchAll_outputNode hnode data] at hreach
  obtain ⟨after,hafter,happly⟩ := hreach
  have hrun : applyOutput order data ⟨⟨prevVdom,terminal⟩,prevVdom⟩ =
      onRenderer (applyPatches order (diff prevVdom (outputNode data))) ⟨⟨prevVdom,terminal⟩,prevVdom⟩ := rfl
  rw [hrun,onRenderer,happly]
  exact ⟨after,hafter,rfl⟩

/-- After a call of any kind both trees are the node of its payload. -/
theorem run_holds {p : PtyRenderer} {node : VNode} (hp : p.Holds node) (hnode : Visited node)
    (call : OutputCall) : ∃ p', call.run order p = .ok () p' ∧ p'.Holds (outputNode call.payload) := by
  obtain ⟨terminal,hterminal,happly⟩ := applyOutput_spec order hp hnode call.payload
  have hlast : Holds ⟨⟨outputNode call.payload,terminal⟩,outputNode call.payload⟩
      (outputNode call.payload) := ⟨rfl,rfl,hterminal⟩
  have hrender : renderOutput order call.payload p =
      .ok () ⟨⟨outputNode call.payload,terminal⟩,outputNode call.payload⟩ := by
    simp only [renderOutput,Bind.bind,EStateM.bind,happly]
    rfl
  have hhandle : PtyRenderer.handleOutput order call.payload p =
      .ok () ⟨⟨outputNode call.payload,terminal⟩,outputNode call.payload⟩ := by
    simp only [PtyRenderer.handleOutput,Bind.bind,EStateM.bind,tryCatch,tryCatchThe,
      MonadExceptOf.tryCatch,EStateM.tryCatch,happly]
    rfl
  cases call with
  | render data => exact ⟨_,hrender,hlast⟩
  | processAndSend sessionId data => exact ⟨_,hrender,hlast⟩
  | handleOutput data => exact ⟨_,hhandle,hlast⟩
  | print c => exact ⟨_,hhandle,hlast⟩

/-! ### Runs -/

theorem runCalls_holds {p : PtyRenderer} {node : VNode} (hp : p.Holds node) (hnode : Visited node)
    (calls : List (HashOrder String String × OutputCall)) :
    ∃ p' node', runCalls calls p = .ok () p' ∧ p'.Holds node' ∧ Visited node' := by
  induction calls generalizing p node with
  | nil => exact ⟨p,node,rfl,hp,hnode⟩
  | cons call calls ih =>
    obtain ⟨p₁,hrun,hp₁⟩ := run_holds call.1 hp hnode call.2
    obtain ⟨p₂,node₂,hrest,hp₂,hnode₂⟩ := ih hp₁ (outputNode_visited _)
    have hfirst : runCalls (call::calls) p = runCalls calls p₁ := forM_cons_ok hrun
    exact ⟨p₂,node₂,hfirst.trans hrest,hp₂,hnode₂⟩

/-- After every call of every run the two trees are equal, and they are the text element
of the last payload: nothing of an earlier payload is left. -/
theorem runCalls_last {terminal : Terminal} (hterminal : terminal.Reliable)
    (before : List (HashOrder String String × OutputCall)) (order : HashOrder String String)
    (call : OutputCall) : ∃ p, runCalls (before ++ [(order,call)]) (new terminal) = .ok () p ∧
      p.renderer.root = p.prevVdom ∧
      p.prevVdom = .element ⟨"text",(∅ : Props).insert "content" (Utf8.fromUtf8Lossy call.payload),∅,[]⟩ := by
  obtain ⟨p₁,node₁,hbefore,hp₁,hnode₁⟩ := runCalls_holds (new_holds hterminal) (.inl rfl) before
  obtain ⟨p₂,hrun,hp₂⟩ := run_holds order hp₁ hnode₁ call
  have hlast : runCalls [(order,call)] p₁ = runCalls [] p₂ := forM_cons_ok hrun
  have hall : runCalls (before ++ [(order,call)]) (new terminal) = runCalls [(order,call)] p₁ :=
    forM_append_ok hbefore
  exact ⟨p₂,hall.trans hlast,hp₂.root.trans hp₂.prevVdom.symm,hp₂.prevVdom⟩

/-- Broken output, then one character. -/
theorem runCalls_last_print : ∃ p, runCalls
      ([(HashOrder.sorted,.render [0xC3,0x28])] ++ [(HashOrder.sorted,.print 'é')])
      (new ⟨[],0,fun _ => none⟩) = .ok () p ∧ p.renderer.root = p.prevVdom ∧
      p.prevVdom = .element ⟨"text",(∅ : Props).insert "content" (Utf8.fromUtf8Lossy [0xE9]),∅,[]⟩ :=
  runCalls_last (fun _ => rfl) [(HashOrder.sorted,.render [0xC3,0x28])] HashOrder.sorted (.print 'é')

end PtyRenderer
end VirtualDom
end NodeRustPty
