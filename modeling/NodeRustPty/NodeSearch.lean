import NodeRustPty.VirtualDom

/-! `VNode::find`: the search of a tree, and the positions it goes through in their
lexicographic order. -/
namespace NodeRustPty
namespace VirtualDom

mutual
def VNode.find (predicate : VNode → Bool) : VNode → Option VNode
  | .text content => if predicate (.text content) then some (.text content) else none
  | .element ⟨tag,props,styles,children⟩ =>
    if predicate (.element ⟨tag,props,styles,children⟩) then some (.element ⟨tag,props,styles,children⟩)
    else findChild predicate children
/-- The loop over the children, which returns from the search. -/
def findChild (predicate : VNode → Bool) : List VNode → Option VNode
  | [] => none
  | child::children =>
    match child.find predicate with
    | some found => some found
    | none => findChild predicate children
end

/-- The subtree at a position, the indices of the children on the way down to it. -/
def VNode.subtree : VNode → List ℕ → Option VNode
  | node, [] => some node
  | .text _, _::_ => none
  | .element elem, i::position => elem.children[i]?.bind (·.subtree position)

/-- The same below a row of children. -/
def childSubtree (children : List VNode) : List ℕ → Option VNode
  | [] => none
  | i::position => children[i]?.bind (·.subtree position)

/-- Nothing there satisfies the predicate. -/
def NoneOf (predicate : VNode → Bool) (subtrees : List ℕ → Option VNode) : Prop :=
  ∀ position other, subtrees position = some other → predicate other = false

/-- What is at the first position that satisfies the predicate. A node comes before what is
below it, and a child with all below it before the next child. -/
def FirstOf (predicate : VNode → Bool) (subtrees : List ℕ → Option VNode) (found : VNode) : Prop :=
  ∃ position, subtrees position = some found ∧ predicate found = true ∧
    ∀ earlier < position, ∀ other, subtrees earlier = some other → predicate other = false

variable {predicate : VNode → Bool} {node child found found' : VNode} {children : List VNode}
  {subtrees : List ℕ → Option VNode}

theorem FirstOf.not_noneOf (h : FirstOf predicate subtrees found) : ¬NoneOf predicate subtrees := by
  obtain ⟨position,hfound,hholds,-⟩ := h
  intro hnone
  rw [hnone position found hfound] at hholds
  exact absurd hholds nofun

theorem FirstOf.unique (h : FirstOf predicate subtrees found) (h' : FirstOf predicate subtrees found') :
    found = found' := by
  obtain ⟨position,hfound,hholds,hbefore⟩ := h
  obtain ⟨position',hfound',hholds',hbefore'⟩ := h'
  rcases lt_trichotomy position position' with hlt | rfl | hlt
  · have := hbefore' position hlt found hfound
    rw [hholds] at this
    exact absurd this nofun
  · rw [hfound] at hfound'
    exact Option.some.inj hfound'
  · have := hbefore position' hlt found' hfound'
    rw [hholds'] at this
    exact absurd this nofun

/-- The root is before everything below it. -/
theorem firstOf_root (h : predicate node = true) : FirstOf predicate node.subtree node :=
  ⟨[],by cases node <;> rfl,h,fun earlier hlt => absurd hlt (List.not_lt_nil earlier)⟩

theorem firstOf_child (h : FirstOf predicate child.subtree found) :
    FirstOf predicate (childSubtree (child::children)) found := by
  obtain ⟨position,hfound,hholds,hbefore⟩ := h
  refine ⟨0::position,hfound,hholds,?_⟩
  rintro (_ | ⟨i,earlier⟩) hlt other hother
  · exact absurd hother nofun
  · rcases List.cons_lt_cons_iff.mp hlt with hi | ⟨rfl,hearlier⟩
    · exact absurd hi (Nat.not_lt_zero i)
    · exact hbefore earlier hearlier other hother

theorem noneOf_children (hchild : NoneOf predicate child.subtree) (h : NoneOf predicate (childSubtree children)) :
    NoneOf predicate (childSubtree (child::children)) := by
  rintro (_ | ⟨_ | i,position⟩) other hother
  · exact absurd hother nofun
  · exact hchild position other hother
  · exact h (i::position) other hother

theorem firstOf_children (hchild : NoneOf predicate child.subtree) (h : FirstOf predicate (childSubtree children) found) :
    FirstOf predicate (childSubtree (child::children)) found := by
  obtain ⟨_ | ⟨i,position⟩,hfound,hholds,hbefore⟩ := h
  · exact absurd hfound nofun
  · refine ⟨(i+1)::position,hfound,hholds,?_⟩
    rintro (_ | ⟨_ | j,earlier⟩) hlt other hother
    · exact absurd hother nofun
    · exact hchild earlier other hother
    · refine hbefore (j::earlier) ?_ other hother
      simpa [List.cons_lt_cons_iff] using hlt

theorem noneOf_element {elem : VElement VNode} (hroot : predicate (.element elem) = false)
    (h : NoneOf predicate (childSubtree elem.children)) : NoneOf predicate (VNode.subtree (.element elem)) := by
  rintro (_ | ⟨i,position⟩) other hother
  · obtain rfl := Option.some.inj hother
    exact hroot
  · exact h (i::position) other hother

theorem firstOf_element {elem : VElement VNode} (hroot : predicate (.element elem) = false)
    (h : FirstOf predicate (childSubtree elem.children) found) :
    FirstOf predicate (VNode.subtree (.element elem)) found := by
  obtain ⟨_ | ⟨i,position⟩,hfound,hholds,hbefore⟩ := h
  · exact absurd hfound nofun
  · refine ⟨i::position,hfound,hholds,?_⟩
    rintro (_ | ⟨j,earlier⟩) hlt other hother
    · obtain rfl := Option.some.inj hother
      exact hroot
    · exact hbefore (j::earlier) hlt other hother

/-- What a search may answer. -/
def Answers (predicate : VNode → Bool) (subtrees : List ℕ → Option VNode) : Option VNode → Prop
  | some found => FirstOf predicate subtrees found
  | none => NoneOf predicate subtrees

mutual
theorem VNode.find_answers (predicate : VNode → Bool) (node : VNode) :
    Answers predicate node.subtree (node.find predicate) := by
  cases node with
  | text content =>
    rw [VNode.find]
    split
    · next hroot => exact firstOf_root hroot
    · next hroot =>
      rintro (_ | ⟨i,position⟩) other hother
      · obtain rfl := Option.some.inj hother
        simpa using hroot
      · exact absurd hother nofun
  | element elem =>
    obtain ⟨tag,props,styles,children⟩ := elem
    have hchildren := findChild_answers predicate children
    rw [VNode.find]
    split
    · next hroot => exact firstOf_root hroot
    · next hroot =>
      have hroot : predicate (.element ⟨tag,props,styles,children⟩) = false := by simpa using hroot
      cases hfind : findChild predicate children with
      | none =>
        rw [hfind] at hchildren
        exact noneOf_element hroot hchildren
      | some found =>
        rw [hfind] at hchildren
        exact firstOf_element hroot hchildren
theorem findChild_answers (predicate : VNode → Bool) (children : List VNode) :
    Answers predicate (childSubtree children) (findChild predicate children) := by
  cases children with
  | nil =>
    rintro (_ | ⟨i,position⟩) other hother
    · exact absurd hother nofun
    · exact absurd hother (by simp [childSubtree])
  | cons child children =>
    have hchild := VNode.find_answers predicate child
    have hrest := findChild_answers predicate children
    rw [findChild]
    cases hfind : child.find predicate with
    | some found =>
      rw [hfind] at hchild
      exact firstOf_child hchild
    | none =>
      rw [hfind] at hchild
      cases hfindChild : findChild predicate children with
      | none =>
        rw [hfindChild] at hrest
        exact noneOf_children hchild hrest
      | some found =>
        rw [hfindChild] at hrest
        exact firstOf_children hchild hrest
end

/-- The search ends at the first node that satisfies the predicate, and is without a result
only where there is none. -/
theorem VNode.find_first (node : VNode) (predicate : VNode → Bool) :
    ((node.find predicate).isSome ↔ ∃ position other, node.subtree position = some other ∧ predicate other = true) ∧
    ∀ found, node.find predicate = some found ↔ FirstOf predicate node.subtree found := by
  have hanswers := node.find_answers predicate
  cases hfind : node.find predicate with
  | none =>
    rw [hfind] at hanswers
    refine ⟨⟨nofun,?_⟩,fun found => ⟨nofun,fun h => absurd hanswers h.not_noneOf⟩⟩
    rintro ⟨position,other,hother,hholds⟩
    rw [hanswers position other hother] at hholds
    exact absurd hholds nofun
  | some found =>
    rw [hfind] at hanswers
    refine ⟨⟨fun _ => ?_,fun _ => rfl⟩,fun found' => ⟨?_,fun h => congrArg some (hanswers.unique h)⟩⟩
    · obtain ⟨position,hfound,hholds,-⟩ := hanswers
      exact ⟨position,found,hfound,hholds⟩
    · rintro h
      obtain rfl := Option.some.inj h
      exact hanswers

end VirtualDom
end NodeRustPty
