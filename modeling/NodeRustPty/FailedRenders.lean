import NodeRustPty.TreeWalks

/-! `render` on a terminal whose flushes may fail: where in the patch list it stops, and
what it leaves in the root then. Some patches change the root before they print. -/
namespace NodeRustPty
namespace VirtualDom

/-- The next flushes succeed, this many of them. -/
def Terminal.Takes (t : Terminal) (count : ℕ) : Prop := ∀ i < count, t.faults (t.flushes+i) = none

/-- The terminal has made this many more flushes. -/
structure Terminal.Flushed (t : Terminal) (count : ℕ) (t' : Terminal) : Prop where
  flushes : t'.flushes = t.flushes+count
  faults : t'.faults = t.faults

theorem Terminal.flushed_zero {t t' : Terminal} (hflushes : t'.flushes = t.flushes)
    (hfaults : t'.faults = t.faults) : t.Flushed 0 t' := ⟨hflushes,hfaults⟩

theorem Terminal.Flushed.trans {t t₁ t₂ : Terminal} {m n : ℕ} (h : t.Flushed m t₁) (h' : t₁.Flushed n t₂) :
    t.Flushed (m+n) t₂ :=
  ⟨by rw [h'.flushes,h.flushes,Nat.add_assoc],h'.faults.trans h.faults⟩

theorem Terminal.takes_zero (t : Terminal) : t.Takes 0 := fun _ h => absurd h (Nat.not_lt_zero _)

theorem Terminal.takes_one {t : Terminal} : t.Takes 1 ↔ t.faults t.flushes = none := by
  simp [Terminal.Takes]

theorem Terminal.Flushed.takes_add {t t' : Terminal} {m n : ℕ} (h : t.Flushed m t') :
    t.Takes (m+n) ↔ t.Takes m ∧ t'.Takes n := by
  constructor
  · intro htakes
    refine ⟨fun i hi => htakes i (by omega),fun i hi => ?_⟩
    rw [h.faults,h.flushes,Nat.add_assoc]
    exact htakes (m+i) (by omega)
  · rintro ⟨hfirst,hsecond⟩ i hi
    by_cases him : i < m
    · exact hfirst i him
    · have hlater := hsecond (i-m) (by omega)
      rw [h.faults,h.flushes,Nat.add_assoc,Nat.add_sub_of_le (by omega)] at hlater
      exact hlater

/-! ### Actions with flushes -/

/-- From this root the action makes `count` flushes and leaves `after`. If one of them fails
it is an error, and the root is `left`. -/
def Flushes (action : RenderM Unit) (root : VNode) (count : ℕ) (after left : VNode) : Prop :=
  ∀ t : Terminal,
    (t.Takes count → ∃ t', t.Flushed count t' ∧ action ⟨root,t⟩ = .ok () ⟨after,t'⟩) ∧
    (¬t.Takes count → ∃ e t', action ⟨root,t⟩ = .error e ⟨left,t'⟩)

/-- From this root the action is an error whatever the flushes do, and the root stays. -/
def Refuses (action : RenderM Unit) (root : VNode) : Prop :=
  ∀ t : Terminal, ∃ e t', action ⟨root,t⟩ = .error e ⟨root,t'⟩

section

variable {first second : RenderM Unit} {root middle after left : VNode} {m n : ℕ}

theorem Flushes.bind (hfirst : Flushes first root m middle left) (hsecond : Flushes second middle n after left) :
    Flushes (first >>= fun _ => second) root (m+n) after left := by
  intro t
  by_cases hm : t.Takes m
  · obtain ⟨t₁,hflushed,hok⟩ := (hfirst t).1 hm
    rw [hflushed.takes_add,bind_ok hok]
    refine ⟨fun htakes => ?_,fun htakes => ?_⟩
    · obtain ⟨t₂,hflushed₂,hok₂⟩ := (hsecond t₁).1 htakes.2
      exact ⟨t₂,hflushed.trans hflushed₂,hok₂⟩
    · exact (hsecond t₁).2 fun hn => htakes ⟨hm,hn⟩
  · have hnot : ¬t.Takes (m+n) := fun h => hm fun i hi => h i (by omega)
    obtain ⟨e,t',herror⟩ := (hfirst t).2 hm
    exact ⟨fun h => absurd h hnot,fun _ => ⟨e,t',bind_error herror⟩⟩

theorem Refuses.bind {next : Unit → RenderM Unit} (hfirst : Refuses first root) : Refuses (first >>= next) root := by
  intro t
  obtain ⟨e,t',herror⟩ := hfirst t
  exact ⟨e,t',bind_error herror⟩

/-- An action that succeeds without a flush. -/
theorem flushes_of_ok (h : ∀ t : Terminal, ∃ t', t'.flushes = t.flushes ∧ t'.faults = t.faults ∧
    first ⟨root,t⟩ = .ok () ⟨after,t'⟩) : Flushes first root 0 after left := by
  intro t
  obtain ⟨t',hflushes,hfaults,hok⟩ := h t
  exact ⟨fun _ => ⟨t',Terminal.flushed_zero hflushes hfaults,hok⟩,fun hnot => absurd t.takes_zero hnot⟩

end

variable {root left : VNode}

theorem flushes_pure : Flushes (pure ()) root 0 root left := flushes_of_ok fun t => ⟨t,rfl,rfl,rfl⟩

theorem flushes_print (text : String) : Flushes (print text) root 0 root left :=
  flushes_of_ok fun t => ⟨{ t with emitted := t.emitted ++ [text] },rfl,rfl,rfl⟩

theorem flushes_setRoot (node : VNode) : Flushes (setRoot node) root 0 node left :=
  flushes_of_ok fun t => ⟨t,rfl,rfl,rfl⟩

theorem flushes_flush : Flushes flush root 1 root root := by
  intro t
  rw [Terminal.takes_one]
  cases hfault : t.faults t.flushes with
  | none =>
    refine ⟨fun _ => ⟨{ t with flushes := t.flushes+1 },⟨rfl,rfl⟩,?_⟩,fun hnot => absurd rfl hnot⟩
    exact flush_ok hfault
  | some e =>
    exact ⟨fun h => by simp at h,fun _ => ⟨_,_,flush_error hfault⟩⟩

theorem flushes_clearScreen : Flushes clearScreen root 1 root root := (flushes_print _).bind flushes_flush

theorem flushes_renderText (text : String) : Flushes (renderText text) root 1 root root :=
  (flushes_print text).bind flushes_flush

theorem flushes_printEntries (entries : List (String × String)) :
    Flushes (entries.forM fun entry => print (entry.1 ++ ": " ++ entry.2 ++ "\n")) root 0 root left := by
  induction entries with
  | nil => exact flushes_pure
  | cons entry entries ih => exact (flushes_print _).bind ih

mutual
/-- The flushes of a drawing: one for each text and each text element with a content. -/
def VNode.flushes : VNode → ℕ
  | .text _ => 1
  | .element ⟨tag,props,_,children⟩ =>
    if tag = "text" then (if "content" ∈ props then 1 else 0) else rowFlushes children
def rowFlushes : List VNode → ℕ
  | [] => 0
  | child::children => child.flushes+rowFlushes children
end

mutual
theorem flushes_renderNode (order : HashOrder String String) :
    ∀ node, Flushes (renderNode order node) root node.flushes root root
  | .text text => flushes_renderText text
  | .element ⟨tag,props,styles,children⟩ => by
    show Flushes (renderElement order _) root _ root root
    unfold renderElement VNode.flushes
    split
    · cases hcontent : props["content"]? with
      | none =>
        have hnot : ¬"content" ∈ props := by simp [Std.ExtTreeMap.mem_iff_isSome_getElem?,hcontent]
        rw [if_pos rfl,if_neg hnot]
        exact flushes_pure
      | some content =>
        have hmem : "content" ∈ props := by simp [Std.ExtTreeMap.mem_iff_isSome_getElem?,hcontent]
        rw [if_pos rfl,if_pos hmem]
        exact (flushes_print _).bind flushes_flush
    · next htag =>
      rw [if_neg htag]
      exact flushes_renderChildren order children
theorem flushes_renderChildren (order : HashOrder String String) :
    ∀ children, Flushes (renderChildren order children) root (rowFlushes children) root root
  | [] => flushes_pure
  | child::children => (flushes_renderNode order child).bind (flushes_renderChildren order children)
end

/-! ### One patch -/

/-- The flushes of a patch that leaves the root `after`. -/
def PatchInternal.flushes (after : VNode) : PatchInternal → ℕ
  | .replace node => node.flushes
  | .updateProps _ => 1
  | .appendChild child => child.flushes
  | .removeChild _ => 1+after.flushes
  | .updateText _ => 2
  | .none => 0

/-- The patch changes the root before it prints. -/
def PatchInternal.changesFirst : PatchInternal → Bool
  | .replace _ => true
  | .updateProps _ => true
  | .removeChild _ => true
  | _ => false

/-- The root that the patch leaves when one of its flushes fails. -/
def PatchInternal.interrupted (patch : PatchInternal) (root after : VNode) : VNode :=
  if patch.changesFirst then after else root

theorem flushes_getRoot (next : VNode → RenderM Unit) {count : ℕ} {after : VNode}
    (h : Flushes (next root) root count after left) : Flushes (get >>= fun r => next r.root) root count after left := by
  intro t
  have hget : (get : RenderM Renderer) ⟨root,t⟩ = .ok ⟨root,t⟩ ⟨root,t⟩ := rfl
  rw [bind_ok hget]
  exact h t

section Changes

variable {textError : String} {change : VElement VNode → Except String (VElement VNode)} {after : VNode}

theorem flushes_changeElement (h : changedRoot change root = some after) :
    Flushes (changeElement textError change) root 0 after left := by
  refine flushes_of_ok fun t => ?_
  cases root with
  | text text => simp [changedRoot] at h
  | element elem =>
    simp only [changedRoot] at h
    cases hchange : change elem with
    | error e => simp [hchange,Except.toOption] at h
    | ok changed =>
      obtain rfl : VNode.element changed = after := by simpa [hchange,Except.toOption] using h
      exact ⟨t,rfl,rfl,changeElement_ok hchange⟩

end Changes

variable (order : HashOrder String String)

/-- A patch that fits makes its flushes. -/
theorem flushes_applyPatch {patch : PatchInternal} {after : VNode} (h : patch.onRoot root = some after) :
    Flushes (applyPatch order patch) root (patch.flushes after) after (patch.interrupted root after) := by
  cases patch with
  | replace node =>
    obtain rfl : node = after := by simpa [PatchInternal.onRoot] using h
    have hset : Flushes (setRoot node) root 0 node node := flushes_setRoot node
    have hdraw := hset.bind (flushes_renderNode order node)
    rw [Nat.zero_add] at hdraw
    exact hdraw
  | updateProps props =>
    rw [onRoot_updateProps order] at h
    have hprint : Flushes ((order.entries props).forM fun entry => print (entry.1 ++ ": " ++ entry.2 ++ "\n"))
        after 0 after after := flushes_printEntries (order.entries props)
    have hchange : Flushes (changeElement "Cannot update props on a text node" _) root 0 after after :=
      flushes_changeElement h
    exact hchange.bind (hprint.bind flushes_flush)
  | appendChild child =>
    rw [onRoot_appendChild] at h
    exact (flushes_renderNode order child).bind (flushes_changeElement h)
  | removeChild index =>
    rw [onRoot_removeChild] at h
    have hdraw : Flushes (do
        clearScreen
        renderNode order (← get).root) after (1+after.flushes) after after :=
      flushes_clearScreen.bind (flushes_getRoot (renderNode order) (flushes_renderNode order after))
    have hchange : Flushes (changeElement "Cannot remove child from a text node" _) root 0 after after :=
      flushes_changeElement h
    have hall := hchange.bind hdraw
    rw [Nat.zero_add] at hall
    exact hall
  | updateText newText =>
    rw [onRoot_updateText] at h
    have hchange : Flushes (changeElement "Cannot update text on a text node" _) root 0 after root :=
      flushes_changeElement h
    exact flushes_clearScreen.bind ((flushes_renderText newText).bind hchange)
  | none =>
    obtain rfl : root = after := by simpa [PatchInternal.onRoot] using h
    exact flushes_pure

/-- The root, and how many flushes the terminal has made. -/
structure Progress where
  root : VNode
  flushes : ℕ

/-- A change of the root with its flushes. A root that does not take it stays, and where a flush
fails a root is left that may have been changed before. -/
def settle (faults : ℕ → Option String) (change : Option VNode) (count : VNode → ℕ) (left : VNode → VNode)
    (s : Progress) : Except VNode Progress :=
  match change with
  | none => .error s.root
  | some root =>
    if ∀ i < count root, faults (s.flushes+i) = none then .ok ⟨root,s.flushes+count root⟩ else .error (left root)

/-- A row of two whose first child grows while the second one loses four of its own. -/
def grown : VNode := .element ⟨"div",∅,∅,[.element ⟨"p",∅,∅,[]⟩,
  .element ⟨"q",∅,∅,[.text "a",.text "b",.text "c",.text "d"]⟩]⟩

end VirtualDom
end NodeRustPty
