import NodeRustPty.Diff

/-! `virtual_dom/renderer.rs`, as built outside tests: patches change the root
node and print to the terminal. Every flush of the terminal may fail. -/
namespace NodeRustPty
namespace VirtualDom

open Std

/-- What was printed so far, and the outcome of each flush: `none` or an I/O error. -/
structure Terminal where
  emitted : List String
  flushes : ℕ
  faults : ℕ → Option String

def Terminal.Reliable (terminal : Terminal) : Prop := ∀ i, terminal.faults i = none

structure Renderer where
  root : VNode
  terminal : Terminal

/-- An error keeps the state reached, as the early return of the source does. -/
abbrev RenderM := EStateM String Renderer

def print (text : String) : RenderM Unit :=
  modify fun r => { r with terminal := { r.terminal with emitted := r.terminal.emitted ++ [text] } }

def flush : RenderM Unit := do
  let r ← get
  set { r with terminal := { r.terminal with flushes := r.terminal.flushes+1 } }
  match r.terminal.faults r.terminal.flushes with
  | none => pure ()
  | some e => throw s!"IO Error: {e}"

def clearScreen : RenderM Unit := do
  print "\x1B[2J\x1B[1;1H"
  flush

def renderText (text : String) : RenderM Unit := do
  print text
  flush

def colorCode : String → String
  | "black" => "30"
  | "red" => "31"
  | "green" => "32"
  | "yellow" => "33"
  | "blue" => "34"
  | "magenta" => "35"
  | "cyan" => "36"
  | "white" => "37"
  | _ => "0"

def backgroundCode : String → String
  | "black" => "40"
  | "red" => "41"
  | "green" => "42"
  | "yellow" => "43"
  | "blue" => "44"
  | "magenta" => "45"
  | "cyan" => "46"
  | "white" => "47"
  | _ => "0"

def styleCode (key value : String) : String :=
  match key with
  | "color" => "\x1B[" ++ colorCode value ++ "m"
  | "background" => "\x1B[" ++ backgroundCode value ++ "m"
  | "bold" => if value = "true" then "\x1B[1m" else ""
  | "underline" => if value = "true" then "\x1B[4m" else ""
  | "italic" => if value = "true" then "\x1B[3m" else ""
  | "strikethrough" => if value = "true" then "\x1B[9m" else ""
  | _ => ""

section Patching

variable (order : HashOrder String String)

def applyStyles (elem : VElement VNode) : String :=
  (order.entries elem.styles).foldl (fun codes entry => codes ++ styleCode entry.1 entry.2) ""

mutual
def renderNode : VNode → RenderM Unit
  | .text text => renderText text
  | .element elem => renderElement elem
def renderElement : VElement VNode → RenderM Unit
  | ⟨tag,props,styles,children⟩ =>
    match tag with
    | "text" => do
      let styledContent := applyStyles order ⟨tag,props,styles,children⟩
      match props["content"]? with
      | some content => do
        print (styledContent ++ content ++ "\x1B[0m")
        flush
      | none => pure ()
    | _ => renderChildren children
def renderChildren : List VNode → RenderM Unit
  | [] => pure ()
  | child::children => do
    renderNode child
    renderChildren children
end

/-- `PatchInternal`, where the index of a child has been cast to `u32`. -/
inductive PatchInternal
  | replace (node : VNode)
  | updateProps (props : Props)
  | appendChild (node : VNode)
  | removeChild (index : UInt32)
  | updateText (text : String)
  | none

def Patch.internal : Patch → PatchInternal
  | .replace node => .replace node
  | .updateProps props => .updateProps props
  | .appendChild node => .appendChild node
  | .removeChild index => .removeChild index.toUInt32
  | .updateText text => .updateText text
  | .none => .none

def setRoot (node : VNode) : RenderM Unit := modify fun r => { r with root := node }

/-- Changes the root element in place. A text node has nothing to change. -/
def changeElement (textError : String)
    (change : VElement VNode → Except String (VElement VNode)) : RenderM Unit := do
  match (← get).root with
  | .element elem =>
    match change elem with
    | .ok changed => setRoot (.element changed)
    | .error e => throw e
  | .text _ => throw textError

def updateText (newText : String) : RenderM Unit := do
  clearScreen
  renderText newText
  changeElement "Cannot update text on a text node" fun elem =>
    .ok { elem with props := elem.props.insert "content" newText }

def updateProps (props : Props) : RenderM Unit := do
  changeElement "Cannot update props on a text node" fun elem =>
    .ok { elem with props := elem.props.insertMany (order.entries props) }
  (order.entries props).forM fun entry => print (entry.1 ++ ": " ++ entry.2 ++ "\n")
  flush

def appendChild (child : VNode) : RenderM Unit := do
  renderNode order child
  changeElement "Cannot append child to a text node" fun elem =>
    .ok { elem with children := elem.children ++ [child] }

def removeChild (index : UInt32) : RenderM Unit := do
  changeElement "Cannot remove child from a text node" fun elem =>
    if index.toNat < elem.children.length then
      .ok { elem with children := elem.children.eraseIdx index.toNat }
    else .error s!"Child index {index} out of bounds"
  clearScreen
  renderNode order (← get).root

def applyPatch : PatchInternal → RenderM Unit
  | .replace node => do
    setRoot node
    renderNode order node
  | .updateProps props => updateProps order props
  | .appendChild node => appendChild order node
  | .removeChild index => removeChild order index
  | .updateText newText => updateText newText
  | .none => pure ()

def applyPatches (patches : List Patch) : RenderM Unit :=
  (patches.map Patch.internal).forM (applyPatch order)

def render (newRoot : VNode) : RenderM Unit := do
  let currentRoot := (← get).root
  applyPatches order (diff currentRoot newRoot)
  setRoot newRoot

def renderAll : RenderM Unit := do
  clearScreen
  renderNode order (← get).root

end Patching

/-! ### Printing never touches the root -/

theorem bind_ok {α β : Type} {first : RenderM α} {next : α → RenderM β} {r s : Renderer} {a : α}
    (h : first r = .ok a s) : (first >>= next) r = next a s := by
  simp [Bind.bind,EStateM.bind,h]

theorem bind_error {α β : Type} {first : RenderM α} {next : α → RenderM β} {r s : Renderer}
    {e : String} (h : first r = .error e s) : (first >>= next) r = .error e s := by
  simp [Bind.bind,EStateM.bind,h]

section Outcomes

variable {r : Renderer} {e textError : String} {change : VElement VNode → Except String (VElement VNode)}
  {elem changed : VElement VNode} {t : Terminal}

theorem flush_ok (h : r.terminal.faults r.terminal.flushes = none) :
    flush r = .ok () { r with terminal := { r.terminal with flushes := r.terminal.flushes+1 } } := by
  simp only [flush,bind,EStateM.bind,get,getThe,MonadStateOf.get,EStateM.get,set,EStateM.set,h]
  rfl

theorem flush_error (h : r.terminal.faults r.terminal.flushes = some e) : flush r =
    .error s!"IO Error: {e}" { r with terminal := { r.terminal with flushes := r.terminal.flushes+1 } } := by
  simp only [flush,bind,EStateM.bind,get,getThe,MonadStateOf.get,EStateM.get,set,EStateM.set,h]
  rfl

theorem changeElement_ok (h : change elem = .ok changed) :
    changeElement textError change ⟨.element elem,t⟩ = .ok () ⟨.element changed,t⟩ := by
  simp only [changeElement,bind,EStateM.bind,get,getThe,MonadStateOf.get,EStateM.get,h]
  rfl

theorem changeElement_error (h : change elem = .error e) :
    changeElement textError change ⟨.element elem,t⟩ = .error e ⟨.element elem,t⟩ := by
  simp only [changeElement,bind,EStateM.bind,get,getThe,MonadStateOf.get,EStateM.get,h]
  rfl

end Outcomes

/-- From every state with a reliable terminal the action succeeds and changes only
what was printed. -/
def Prints (action : RenderM Unit) : Prop :=
  ∀ root t, t.Reliable → ∃ t', t'.Reliable ∧ action ⟨root,t⟩ = .ok () ⟨root,t'⟩

theorem Prints.pure : Prints (Pure.pure ()) := fun _ t ht => ⟨t,ht,rfl⟩

theorem Prints.bind {first second : RenderM Unit} (hf : Prints first) (hn : Prints second) :
    Prints (first >>= fun _ => second) := by
  intro root t ht
  obtain ⟨t₁,ht₁,hfirst⟩ := hf root t ht
  obtain ⟨t₂,ht₂,hnext⟩ := hn root t₁ ht₁
  exact ⟨t₂,ht₂,(bind_ok hfirst).trans hnext⟩

theorem print_prints (text : String) : Prints (print text) :=
  fun _ t ht => ⟨{ t with emitted := t.emitted ++ [text] },ht,rfl⟩

theorem flush_prints : Prints flush := by
  intro root t ht
  exact ⟨{ t with flushes := t.flushes+1 },ht,flush_ok (ht t.flushes)⟩

theorem clearScreen_prints : Prints clearScreen := (print_prints _).bind flush_prints

theorem renderText_prints (text : String) : Prints (renderText text) :=
  (print_prints text).bind flush_prints

theorem printEntries_prints (entries : List (String × String)) :
    Prints (entries.forM fun entry => print (entry.1 ++ ": " ++ entry.2 ++ "\n")) := by
  induction entries with
  | nil => exact Prints.pure
  | cons entry entries ih => exact (print_prints _).bind ih

mutual
theorem renderNode_prints (order : HashOrder String String) :
    ∀ node, Prints (renderNode order node)
  | .text text => renderText_prints text
  | .element elem => renderElement_prints order elem
theorem renderElement_prints (order : HashOrder String String) :
    ∀ elem, Prints (renderElement order elem)
  | ⟨tag,props,styles,children⟩ => by
    unfold renderElement
    split
    · split
      · exact (print_prints _).bind flush_prints
      · exact Prints.pure
    · exact renderChildren_prints order children
theorem renderChildren_prints (order : HashOrder String String) :
    ∀ children, Prints (renderChildren order children)
  | [] => Prints.pure
  | child::children =>
    (renderNode_prints order child).bind (renderChildren_prints order children)
end

/-! ### What a patch does to the root -/

/-- The effect of one patch on the root node, and `none` where the source returns `Err`. -/
def PatchInternal.onRoot : PatchInternal → VNode → Option VNode
  | .replace node, _ => some node
  | .updateProps props, .element elem => some (.element { elem with props := elem.props ∪ props })
  | .updateProps _, .text _ => Option.none
  | .appendChild node, .element elem =>
    some (.element { elem with children := elem.children ++ [node] })
  | .appendChild _, .text _ => Option.none
  | .removeChild index, .element elem =>
    if index.toNat < elem.children.length then
      some (.element { elem with children := elem.children.eraseIdx index.toNat })
    else Option.none
  | .removeChild _, .text _ => Option.none
  | .updateText text, .element elem =>
    some (.element { elem with props := elem.props.insert "content" text })
  | .updateText _, .text _ => Option.none
  | .none, root => some root

/-- The action reaches this root, or fails where there is none. -/
def Reaches (action : RenderM Unit) (root : VNode) (target : Option VNode) : Prop :=
  ∀ t : Terminal, t.Reliable → match target with
    | some root' => ∃ t', t'.Reliable ∧ action ⟨root,t⟩ = .ok () ⟨root',t'⟩
    | none => ∃ e r', action ⟨root,t⟩ = .error e r'

theorem Prints.reaches {action : RenderM Unit} (h : Prints action) (root : VNode) :
    Reaches action root (some root) := fun t ht => h root t ht

theorem Reaches.bind {first second : RenderM Unit} {root : VNode} {target : Option VNode}
    {after : VNode → Option VNode} (hf : Reaches first root target)
    (hn : ∀ root', Reaches second root' (after root')) :
    Reaches (first >>= fun _ => second) root (target.bind after) := by
  intro t ht
  have h := hf t ht
  cases target with
  | none =>
    obtain ⟨e,r',he⟩ := h
    exact ⟨e,r',bind_error he⟩
  | some root' =>
    obtain ⟨t',ht',hok⟩ := h
    have hh := hn root' t' ht'
    simp only [Option.bind_some]
    cases ha : after root' with
    | none =>
      rw [ha] at hh
      obtain ⟨e,r',he⟩ := hh
      exact ⟨e,r',(bind_ok hok).trans he⟩
    | some root'' =>
      rw [ha] at hh
      obtain ⟨t'',ht'',hok'⟩ := hh
      exact ⟨t'',ht'',(bind_ok hok).trans hok'⟩

theorem setRoot_reaches (node root : VNode) : Reaches (setRoot node) root (some node) :=
  fun t ht => ⟨t,ht,rfl⟩

theorem throw_reaches (message : String) (root : VNode) :
    Reaches (throw message) root none := fun t _ => ⟨message,⟨root,t⟩,rfl⟩

/-- Reading the root and continuing with it. -/
theorem getRoot_reaches (next : VNode → RenderM Unit) {root : VNode} {target : Option VNode}
    (h : Reaches (next root) root target) :
    Reaches (get >>= fun r => next r.root) root target := by
  intro t ht
  have hg : (get : RenderM Renderer) ⟨root,t⟩ = .ok ⟨root,t⟩ ⟨root,t⟩ := rfl
  rw [bind_ok hg]
  exact h t ht

/-- The root after a change of the element, if it is one and the change succeeds. -/
def changedRoot (change : VElement VNode → Except String (VElement VNode)) : VNode → Option VNode
  | .element elem => (change elem).toOption.map .element
  | .text _ => none

theorem onRoot_updateText (newText : String) (root : VNode) : (PatchInternal.updateText newText).onRoot root =
    changedRoot (fun elem => .ok { elem with props := elem.props.insert "content" newText }) root := by
  cases root <;> rfl

theorem onRoot_updateProps (order : HashOrder String String) (props : Props) (root : VNode) :
    (PatchInternal.updateProps props).onRoot root = changedRoot
      (fun elem => .ok { elem with props := elem.props.insertMany (order.entries props) }) root := by
  cases root with
  | text text => rfl
  | element elem => simp [PatchInternal.onRoot,changedRoot,order.insertMany_entries,Except.toOption]

theorem onRoot_appendChild (child root : VNode) : (PatchInternal.appendChild child).onRoot root =
    changedRoot (fun elem => .ok { elem with children := elem.children ++ [child] }) root := by
  cases root <;> rfl

theorem onRoot_removeChild (index : UInt32) (root : VNode) : (PatchInternal.removeChild index).onRoot root =
    changedRoot (fun elem =>
      if index.toNat < elem.children.length then
        .ok { elem with children := elem.children.eraseIdx index.toNat }
      else .error s!"Child index {index} out of bounds") root := by
  cases root with
  | text text => rfl
  | element elem =>
    by_cases hi : index.toNat < elem.children.length <;>
      simp [PatchInternal.onRoot,changedRoot,hi,Except.toOption]

theorem changeElement_reaches (textError : String)
    (change : VElement VNode → Except String (VElement VNode)) (root : VNode) :
    Reaches (changeElement textError change) root (changedRoot change root) := by
  refine getRoot_reaches (fun root => match root with
    | .element elem =>
      match change elem with
      | .ok changed => setRoot (.element changed)
      | .error e => throw e
    | .text _ => throw textError) ?_
  cases root with
  | text content => exact throw_reaches _ _
  | element elem =>
    simp only [changedRoot]
    cases hc : change elem with
    | error e => exact throw_reaches _ _
    | ok changed => exact setRoot_reaches _ _

section Patching

variable (order : HashOrder String String)

theorem updateText_reaches (newText : String) (root : VNode) :
    Reaches (updateText newText) root ((PatchInternal.updateText newText).onRoot root) := by
  have hc (root' : VNode) := ((renderText_prints newText).reaches root').bind
    (changeElement_reaches "Cannot update text on a text node"
      fun elem => .ok { elem with props := elem.props.insert "content" newText })
  have h := (clearScreen_prints.reaches root).bind hc
  rw [Option.bind_some,Option.bind_some,← onRoot_updateText] at h
  exact h

theorem updateProps_reaches (props : Props) (root : VNode) :
    Reaches (updateProps order props) root ((PatchInternal.updateProps props).onRoot root) := by
  have hp := (printEntries_prints (order.entries props)).bind flush_prints
  have hc := (changeElement_reaches "Cannot update props on a text node"
    (fun elem => .ok { elem with props := elem.props.insertMany (order.entries props) }) root).bind
    hp.reaches
  rw [Option.bind_fun_some,← onRoot_updateProps] at hc
  exact hc

theorem appendChild_reaches (child root : VNode) :
    Reaches (appendChild order child) root ((PatchInternal.appendChild child).onRoot root) := by
  have hc := ((renderNode_prints order child).reaches root).bind
    (changeElement_reaches "Cannot append child to a text node"
      (fun elem => .ok { elem with children := elem.children ++ [child] }))
  rw [Option.bind_some,← onRoot_appendChild] at hc
  exact hc

theorem removeChild_reaches (index : UInt32) (root : VNode) :
    Reaches (removeChild order index) root ((PatchInternal.removeChild index).onRoot root) := by
  have hr (root' : VNode) : Reaches (do
      clearScreen
      renderNode order (← get).root) root' (some root') :=
    (clearScreen_prints.reaches root').bind fun root'' =>
      getRoot_reaches (renderNode order) ((renderNode_prints order root'').reaches root'')
  have hc := (changeElement_reaches "Cannot remove child from a text node" (fun elem =>
    if index.toNat < elem.children.length then
      .ok { elem with children := elem.children.eraseIdx index.toNat }
    else .error s!"Child index {index} out of bounds") root).bind hr
  rw [Option.bind_fun_some,← onRoot_removeChild] at hc
  exact hc

theorem applyPatch_reaches (patch : PatchInternal) (root : VNode) :
    Reaches (applyPatch order patch) root (patch.onRoot root) := by
  cases patch with
  | replace node =>
    exact (setRoot_reaches node root).bind fun root' =>
      (renderNode_prints order node).reaches root'
  | updateProps props => exact updateProps_reaches order props root
  | appendChild child => exact appendChild_reaches order child root
  | removeChild index => exact removeChild_reaches order index root
  | updateText newText => exact updateText_reaches newText root
  | none => exact Prints.pure.reaches root

/-- The effect of a whole patch list on the root. -/
def patchAll (patches : List Patch) (root : VNode) : Option VNode :=
  patches.foldlM (fun root patch => patch.internal.onRoot root) root

/-- With a reliable terminal the renderer computes exactly `patchAll`. -/
theorem applyPatches_reaches (patches : List Patch) (root : VNode) :
    Reaches (applyPatches order patches) root (patchAll patches root) := by
  induction patches generalizing root with
  | nil => exact Prints.pure.reaches root
  | cons patch patches ih =>
    simp only [patchAll,List.foldlM_cons]
    exact (applyPatch_reaches order patch.internal root).bind ih

end Patching

end VirtualDom
end NodeRustPty
