import NodeRustPty.PtyRenderer

/-! `PtyOutputHandlerWrapper` of `pty/output_handler.rs`: every handler compares its
output with the node it made last, and patches the root that all handlers share. -/
namespace NodeRustPty
namespace VirtualDom

open Std

/-! ### Lists, each member with those before it -/

section EachCall

variable {α : Type} {meets : List α → α → Prop} {calls : List α} {call : α}

def EachCall (meets : List α → α → Prop) (calls : List α) : Prop :=
  ∀ before call after, calls = before ++ call::after → meets before call

theorem eachCall_nil : EachCall meets [] := by
  intro before call after h
  simp at h

theorem eachCall_snoc : EachCall meets (calls ++ [call]) ↔ EachCall meets calls ∧ meets calls call := by
  constructor
  · intro h
    refine ⟨fun before first after hsplit => ?_,h calls call [] rfl⟩
    exact h before first (after ++ [call]) (by simp [hsplit])
  · rintro ⟨hbefore,hlast⟩ before first after hsplit
    -- the member is the last one or stands before it
    induction after using List.reverseRecOn with
    | nil =>
      obtain ⟨rfl,hcall⟩ := List.append_inj' hsplit rfl
      obtain rfl : call = first := by simpa using hcall
      exact hlast
    | append_singleton after last _ =>
      have hsplit' : calls ++ [call] = (before ++ first::after) ++ [last] := by simp [hsplit]
      exact hbefore before first after (List.append_inj' hsplit' rfl).1

end EachCall

/-! ### Nodes of output -/

/-- The text element whose only prop is this content. -/
def textNode (text : String) : VNode := .element ⟨"text",(∅ : Props).insert "content" text,∅,[]⟩

theorem outputNode_eq (data : Bytes) : outputNode data = textNode (Utf8.fromUtf8Lossy data) := rfl

theorem textNode_inj {a b : String} : textNode a = textNode b ↔ a = b := by
  refine ⟨fun h => ?_,fun h => congrArg textNode h⟩
  have hprops : (∅ : Props).insert "content" a = (∅ : Props).insert "content" b := by
    simpa [textNode] using h
  have hcontent := congrArg (fun props : Props => props["content"]?) hprops
  simpa using hcontent

/-- The first output replaces whatever the root is. -/
theorem patchAll_first (text : String) (root : VNode) :
    patchAll (diff emptyRoot (textNode text)) root = some (textNode text) := by
  have hne : emptyRoot ≠ textNode text := by simp [emptyRoot,textNode]
  have hdiff : diff emptyRoot (textNode text) = dropNone [.replace (textNode text)] := by
    rw [diff.eq_def,if_neg hne]
    rfl
  rw [hdiff,patchAll_dropNone]
  rfl

/-- A different text is written over the content that the root shows. -/
theorem patchAll_other {before after : String} (h : before ≠ after) (shown : String) :
    patchAll (diff (textNode before) (textNode after)) (textNode shown) = some (textNode after) := by
  have hne : textNode before ≠ textNode after := textNode_inj.not.mpr h
  have hprops : (∅ : Props).insert "content" shown ∪
      diffProps ((∅ : Props).insert "content" before) ((∅ : Props).insert "content" after) =
        (∅ : Props).insert "content" after := by
    apply ExtTreeMap.ext_getElem?
    intro k
    rw [ExtTreeMap.getElem?_union,getElem?_diffProps]
    by_cases hk : k = "content"
    · subst hk
      simp [h]
    · have hk' : ¬ "content" = k := fun he => hk he.symm
      simp [hk']
  have hrow (root : VNode) : patchAll (diffChildren 0 [] []) root = some root := rfl
  rw [textNode,textNode,patchAll_diff_element _ hne,patchAll_append,textNode,patchAll_propsPatch,
    Option.bind_some,patchAll_propsPatch,Option.bind_some,hrow]
  simp only [hprops,diffProps_self,props_union_empty]

/-! ### Handlers -/

/-- The handlers of one renderer, each with the node it made last. -/
structure OutputHandlers (ι : Type) where
  renderer : Renderer
  prevVdom : ι → VNode

/-- A call of `handle_output`, with the iteration orders of its maps. -/
structure HandlerCall (ι : Type) where
  handler : ι
  data : Bytes
  order : HashOrder String String

/-- What the call is to show. -/
def HandlerCall.text {ι : Type} (call : HandlerCall ι) : String := Utf8.fromUtf8Lossy call.data

namespace OutputHandlers

variable {ι : Type} [DecidableEq ι]

def new (renderer : Renderer) : OutputHandlers ι where
  renderer := renderer
  prevVdom := fun _ => emptyRoot

/-- The whole call holds the lock of the renderer. An error is only printed to the
standard error stream. -/
def handleOutput (order : HashOrder String String) (handler : ι) (data : Bytes)
    (handlers : OutputHandlers ι) : OutputHandlers ι :=
  let newVdom := outputNode data
  let patches := diff (handlers.prevVdom handler) newVdom
  let renderer := match applyPatches order patches handlers.renderer with
    | .ok () renderer => renderer
    | .error _ renderer => renderer
  { renderer := renderer, prevVdom := Function.update handlers.prevVdom handler newVdom }

def print (order : HashOrder String String) (handler : ι) (c : Char) :
    OutputHandlers ι → OutputHandlers ι :=
  handleOutput order handler [PtyRenderer.lowByte c]

def runHandlers (calls : List (HandlerCall ι)) (handlers : OutputHandlers ι) : OutputHandlers ι :=
  calls.foldl (fun handlers call => handleOutput call.order call.handler call.data handlers) handlers

theorem runHandlers_snoc (calls : List (HandlerCall ι)) (call : HandlerCall ι) (handlers : OutputHandlers ι) :
    runHandlers (calls ++ [call]) handlers =
      handleOutput call.order call.handler call.data (runHandlers calls handlers) := by
  simp [runHandlers]

/-- The text of the last call of this handler. -/
def cachedText (handler : ι) (calls : List (HandlerCall ι)) : Option String :=
  (calls.filter (·.handler = handler)).getLast?.map HandlerCall.text

/-- The text of the last call of all. -/
def lastText (calls : List (HandlerCall ι)) : Option String := calls.getLast?.map HandlerCall.text

theorem cachedText_snoc (handler : ι) (calls : List (HandlerCall ι)) (call : HandlerCall ι) :
    cachedText handler (calls ++ [call]) =
      if call.handler = handler then some call.text else cachedText handler calls := by
  by_cases h : call.handler = handler <;> simp [cachedText,h]

omit [DecidableEq ι] in
theorem lastText_snoc (calls : List (HandlerCall ι)) (call : HandlerCall ι) :
    lastText (calls ++ [call]) = some call.text := by
  simp [lastText]

theorem cachedText_ne_nil {handler : ι} {calls : List (HandlerCall ι)} {text : String}
    (h : cachedText handler calls = some text) : calls ≠ [] := by
  rintro rfl
  simp [cachedText] at h

/-- What holds after these calls, whether or not the root shows the last of them. -/
structure After (calls : List (HandlerCall ι)) (handlers : OutputHandlers ι) : Prop where
  reliable : handlers.renderer.terminal.Reliable
  prevVdom : ∀ handler, handlers.prevVdom handler = (cachedText handler calls).elim emptyRoot textNode
  root : calls ≠ [] → ∃ shown, handlers.renderer.root = textNode shown

/-- The root after one more call: a handler whose own last text this was leaves it. -/
def rootAfter (calls : List (HandlerCall ι)) (call : HandlerCall ι) (root : VNode) : VNode :=
  if cachedText call.handler calls = some call.text then root else textNode call.text

theorem patchAll_handler {calls : List (HandlerCall ι)} {handlers : OutputHandlers ι}
    (h : After calls handlers) (call : HandlerCall ι) :
    patchAll (diff (handlers.prevVdom call.handler) (textNode call.text)) handlers.renderer.root =
      some (rootAfter calls call handlers.renderer.root) := by
  rw [h.prevVdom,rootAfter]
  cases hcached : cachedText call.handler calls with
  | none => exact patchAll_first _ _
  | some text =>
    by_cases ht : text = call.text
    · simp [ht,patchAll_diff_self]
    · obtain ⟨shown,hshown⟩ := h.root (cachedText_ne_nil hcached)
      simp [ht,hshown,patchAll_other]

theorem handleOutput_eq {calls : List (HandlerCall ι)} {handlers : OutputHandlers ι}
    (h : After calls handlers) (call : HandlerCall ι) : ∃ terminal, terminal.Reliable ∧
      handleOutput call.order call.handler call.data handlers =
        ⟨⟨rootAfter calls call handlers.renderer.root,terminal⟩,
          Function.update handlers.prevVdom call.handler (textNode call.text)⟩ := by
  obtain ⟨⟨root,terminal⟩,prevVdom⟩ := handlers
  have hreach := applyPatches_reaches call.order (diff (prevVdom call.handler) (textNode call.text))
    root terminal h.reliable
  rw [patchAll_handler h call] at hreach
  obtain ⟨after,hafter,happly⟩ := hreach
  refine ⟨after,hafter,?_⟩
  have hnode : outputNode call.data = textNode call.text := outputNode_eq _
  simp only [handleOutput,hnode,happly]

theorem handleOutput_after {calls : List (HandlerCall ι)} {handlers : OutputHandlers ι}
    (h : After calls handlers) (call : HandlerCall ι) :
    After (calls ++ [call]) (handleOutput call.order call.handler call.data handlers) := by
  obtain ⟨terminal,hterminal,hcall⟩ := handleOutput_eq h call
  rw [hcall]
  refine ⟨hterminal,fun handler => ?_,fun _ => ?_⟩
  · rw [cachedText_snoc]
    by_cases hi : call.handler = handler
    · simp [hi]
    · simp [hi,Ne.symm hi,h.prevVdom]
  · show ∃ shown, rootAfter calls call handlers.renderer.root = textNode shown
    rw [rootAfter]
    split
    · next hcached => exact h.root (cachedText_ne_nil hcached)
    · exact ⟨call.text,rfl⟩

theorem runHandlers_after {renderer : Renderer} (h : renderer.terminal.Reliable)
    (calls : List (HandlerCall ι)) : After calls (runHandlers calls (new renderer)) := by
  induction calls using List.reverseRecOn with
  | nil => exact ⟨h,fun _ => rfl,fun hne => absurd rfl hne⟩
  | append_singleton calls call ih =>
    rw [runHandlers_snoc]
    exact handleOutput_after ih call

/-- The root after a run in terms of the root before its last call. -/
theorem runHandlers_root {renderer : Renderer} (h : renderer.terminal.Reliable)
    (calls : List (HandlerCall ι)) (call : HandlerCall ι) :
    (runHandlers (calls ++ [call]) (new renderer)).renderer.root =
      rootAfter calls call (runHandlers calls (new renderer)).renderer.root := by
  obtain ⟨terminal,-,hcall⟩ := handleOutput_eq (runHandlers_after h calls) call
  rw [runHandlers_snoc,hcall]

/-- A call shows its text when the root did so before, or the handler does not hold the
text for shown already. -/
theorem rootAfter_shows_iff {calls : List (HandlerCall ι)} {root : VNode}
    (hroot : calls ≠ [] → (lastText calls).map textNode = some root) (call : HandlerCall ι) :
    rootAfter calls call root = textNode call.text ↔
      (cachedText call.handler calls = some call.text → lastText calls = some call.text) := by
  rw [rootAfter]
  split
  · next hcached =>
    obtain ⟨last,hlast,rfl⟩ := Option.map_eq_some_iff.mp (hroot (cachedText_ne_nil hcached))
    simp [hcached,hlast,textNode_inj]
  · next hcached => simp [hcached]

/-- As long as every call was shown, the root shows the last of them. -/
theorem root_of_shown {renderer : Renderer} {calls : List (HandlerCall ι)}
    (h : EachCall (fun before call =>
      (runHandlers (before ++ [call]) (new renderer)).renderer.root = textNode call.text) calls)
    (hne : calls ≠ []) :
    (lastText calls).map textNode = some (runHandlers calls (new renderer)).renderer.root := by
  obtain ⟨before,call,rfl⟩ := (List.eq_nil_or_concat' calls).resolve_left hne
  rw [lastText_snoc,(eachCall_snoc.mp h).2]
  rfl

/-- The root shows every output when it is made, exactly in the runs where no handler
repeats its own last text after another one was shown in between. -/
theorem everyOutput_shown_iff {renderer : Renderer} (h : renderer.terminal.Reliable)
    (calls : List (HandlerCall ι)) :
    (∀ before call after, calls = before ++ call::after →
      (runHandlers (before ++ [call]) (new renderer)).renderer.root =
        .element ⟨"text",(∅ : Props).insert "content" (Utf8.fromUtf8Lossy call.data),∅,[]⟩) ↔
    ∀ before call after, calls = before ++ call::after →
      cachedText call.handler before = some (Utf8.fromUtf8Lossy call.data) →
        lastText before = some (Utf8.fromUtf8Lossy call.data) := by
  show EachCall (fun before call =>
      (runHandlers (before ++ [call]) (new renderer)).renderer.root = textNode call.text) calls ↔
    EachCall (fun before call =>
      cachedText call.handler before = some call.text → lastText before = some call.text) calls
  induction calls using List.reverseRecOn with
  | nil => exact iff_of_true eachCall_nil eachCall_nil
  | append_singleton calls call ih =>
    rw [eachCall_snoc,eachCall_snoc,← ih,and_congr_right_iff]
    intro hshown
    rw [runHandlers_root h]
    exact rootAfter_shows_iff (root_of_shown hshown) call

/-- The second handler comes between two different texts of the first one. -/
theorem everyOutput_shown_turns : Terminal.quiet.Reliable ∧
    ∀ (before : List (HandlerCall ℕ)) (call : HandlerCall ℕ) (after : List (HandlerCall ℕ)),
    [⟨0,[120],HashOrder.sorted⟩,⟨1,[121],HashOrder.sorted⟩,⟨0,[122],HashOrder.sorted⟩] = before ++ call::after →
      (runHandlers (before ++ [call]) (new ⟨emptyRoot,.quiet⟩)).renderer.root =
        .element ⟨"text",(∅ : Props).insert "content" (Utf8.fromUtf8Lossy call.data),∅,[]⟩ := by
  have hquiet : (⟨emptyRoot,.quiet⟩ : Renderer).terminal.Reliable := fun _ => rfl
  refine ⟨hquiet,(everyOutput_shown_iff hquiet _).mpr ?_⟩
  have hfresh : EachCall (fun before (call : HandlerCall ℕ) =>
      cachedText call.handler before = some call.text → lastText before = some call.text)
      (([] ++ [⟨0,[120],HashOrder.sorted⟩] ++ [⟨1,[121],HashOrder.sorted⟩]) ++ [⟨0,[122],HashOrder.sorted⟩]) := by
    rw [eachCall_snoc,eachCall_snoc,eachCall_snoc]
    refine ⟨⟨⟨eachCall_nil,?_⟩,?_⟩,?_⟩ <;> decide
  exact hfresh

/-- The first handler writes, the second one does, and the first one repeats itself: its
patches are the `None` patch. -/
theorem everyOutput_shown_false : ¬ ∀ calls before after : List (HandlerCall ℕ), ∀ call : HandlerCall ℕ,
    calls = before ++ call::after →
      (runHandlers (before ++ [call]) (new ⟨emptyRoot,.quiet⟩)).renderer.root =
        .element ⟨"text",(∅ : Props).insert "content" (Utf8.fromUtf8Lossy call.data),∅,[]⟩ := by
  intro h
  have hquiet : Terminal.quiet.Reliable := fun _ => rfl
  let x : HandlerCall ℕ := ⟨0,[120],HashOrder.sorted⟩
  let y : HandlerCall ℕ := ⟨1,[121],HashOrder.sorted⟩
  have hx : (runHandlers ([x,y] ++ [x]) (new ⟨emptyRoot,.quiet⟩)).renderer.root = textNode x.text :=
    h ([x,y] ++ [x]) [x,y] [] x rfl
  have hy : (runHandlers ([x] ++ [y]) (new ⟨emptyRoot,.quiet⟩)).renderer.root = textNode y.text :=
    h ([x] ++ [y]) [x] [] y rfl
  have hstale : cachedText x.handler [x,y] = some x.text := rfl
  rw [runHandlers_root hquiet,rootAfter,if_pos hstale] at hx
  have htext : x.text = y.text := textNode_inj.mp (hx.symm.trans hy)
  revert htext
  decide

end OutputHandlers

end VirtualDom
end NodeRustPty
