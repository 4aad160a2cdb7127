import NodeRustPty.PatchCorrectness

/-! What `diff` reports: no change exactly for equal trees, and for a change of the
root alone patches that can always be applied, up to the keys that no patch removes. -/
namespace NodeRustPty
namespace VirtualDom

open Std

/-! ### Every change is reported -/

/-- The patch list tells of a change: there is a patch, and none of them is `None`. -/
def Reports (patches : List Patch) : Prop := patches ≠ [] ∧ .none ∉ patches

theorem dropNone_of_not_mem {patches : List Patch} (h : .none ∉ patches) : dropNone patches = patches := by
  unfold dropNone
  split
  · refine List.filter_eq_self.mpr fun patch hpatch => ?_
    simpa using fun e : patch = .none => h (e ▸ hpatch)
  · rfl

theorem diffProps_isEmpty (oldProps newProps : Props) :
    (diffProps oldProps newProps).isEmpty = true ↔ oldProps = newProps := by
  rw [ExtTreeMap.isEmpty_iff]
  constructor
  · intro h
    apply ExtTreeMap.ext_getElem?
    intro k
    have hk := getElem?_diffProps oldProps newProps k
    rw [h,ExtTreeMap.getElem?_empty] at hk
    cases hn : newProps[k]? with
    | none =>
      rw [hn] at hk
      cases ho : oldProps[k]? with
      | none => rfl
      | some v => simp [ho] at hk
    | some v =>
      rw [hn] at hk
      by_cases ho : oldProps[k]? = some v
      · exact ho
      · simp [ho] at hk
  · rintro rfl
    exact diffProps_self _

theorem none_not_mem_propsPatch (props : Props) : .none ∉ propsPatch props := by
  unfold propsPatch
  split <;> simp

theorem propsPatch_eq_nil (oldProps newProps : Props) :
    propsPatch (diffProps oldProps newProps) = [] ↔ oldProps = newProps := by
  rw [← diffProps_isEmpty,propsPatch]
  split <;> simp [*]

theorem diffTail_reports (i : ℕ) (oldRest newRest : List VNode) :
    .none ∉ diffTail i oldRest newRest ∧ (diffTail i oldRest newRest = [] → oldRest = [] ∧ newRest = []) := by
  refine ⟨by simp [diffTail],fun h => ?_⟩
  simp only [diffTail,List.append_eq_nil_iff,List.map_eq_nil_iff,List.reverse_eq_nil_iff,
    List.range'_eq_nil_iff,List.length_eq_zero_iff] at h
  exact h.symm

/-- The patches of two elements of one tag, before `None` is dropped from them. -/
theorem diff_element {tag : String} {oldProps newProps : Props} {oldStyles newStyles : Styles}
    {oldChildren newChildren : List VNode}
    (h : VNode.element ⟨tag,oldProps,oldStyles,oldChildren⟩ ≠
      .element ⟨tag,newProps,newStyles,newChildren⟩) :
    diff (.element ⟨tag,oldProps,oldStyles,oldChildren⟩) (.element ⟨tag,newProps,newStyles,newChildren⟩) =
      dropNone (propsPatch (diffProps oldProps newProps) ++ propsPatch (diffProps oldStyles newStyles) ++
        diffChildren 0 oldChildren newChildren) := by
  rw [diff,if_neg h]
  simp only [ne_eq,not_true_eq_false,if_false]
  rfl

mutual
theorem diff_reports_of_ne : ∀ old new : VNode, old ≠ new → Reports (diff old new)
  | .text old, .text new, hne => by
    have htext : old ≠ new := fun e => hne (congrArg _ e)
    simp [diff,htext,dropNone,Reports]
  | .element ⟨oldTag,oldProps,oldStyles,oldChildren⟩,
    .element ⟨newTag,newProps,newStyles,newChildren⟩, hne => by
    by_cases htag : oldTag = newTag
    · subst htag
      obtain ⟨hnone,hrow⟩ := diffChildren_reports 0 oldChildren newChildren
      have hall : .none ∉ propsPatch (diffProps oldProps newProps) ++ propsPatch (diffProps oldStyles newStyles) ++
          diffChildren 0 oldChildren newChildren := by
        simp [none_not_mem_propsPatch,hnone]
      rw [diff_element hne,dropNone_of_not_mem hall]
      refine ⟨fun hnil => hne ?_,hall⟩
      simp only [List.append_eq_nil_iff,propsPatch_eq_nil] at hnil
      rw [hnil.1.1,hnil.1.2,hrow hnil.2]
    · simp [diff,htag,dropNone,Reports]
  | .text _, .element _, _ => by simp [diff,dropNone,Reports]
  | .element _, .text _, _ => by simp [diff,dropNone,Reports]
termination_by structural old => old
/-- A row of children gives no `None`, and it gives no patch only when nothing differs. -/
theorem diffChildren_reports : ∀ (i : ℕ) (oldRow newRow : List VNode),
    .none ∉ diffChildren i oldRow newRow ∧ (diffChildren i oldRow newRow = [] → oldRow = newRow)
  | i, old::oldRest, new::newRest => by
    obtain ⟨hnone,hrest⟩ := diffChildren_reports (i+1) oldRest newRest
    by_cases hchild : old = new
    · subst hchild
      refine ⟨by simpa [diffChildren] using hnone,fun h => ?_⟩
      rw [hrest (by simpa [diffChildren] using h)]
    · obtain ⟨hpatch,hclean⟩ := diff_reports_of_ne old new hchild
      simp [diffChildren,hchild,hpatch,hclean,hnone]
  | i, [], newRest => by
    obtain ⟨hnone,hnil⟩ := diffTail_reports i [] newRest
    rw [diffChildren]
    exact ⟨hnone,fun h => (hnil h).2.symm⟩
  | i, old::oldRest, [] => by
    obtain ⟨hnone,hnil⟩ := diffTail_reports i (old::oldRest) []
    rw [diffChildren]
    · exact ⟨hnone,fun h => (hnil h).1⟩
    · simp
termination_by structural _ oldRow => oldRow
end

/-- No change is reported for equal trees and for no others. -/
theorem diff_reports (old new : VNode) :
    old = new ∧ diff old new = [.none] ∨ old ≠ new ∧ diff old new ≠ [] ∧ .none ∉ diff old new := by
  by_cases h : old = new
  · refine .inl ⟨h,?_⟩
    rw [h]
    cases new <;> simp [diff]
  · exact .inr ⟨h,diff_reports_of_ne old new h⟩

/-! ### A change of the root alone -/

/-- Two rows that agree wherever both have a child: one of them goes on where the other ends. -/
theorem exists_common : ∀ oldRow newRow : List VNode,
    (∀ (i : ℕ) (old new : VNode), oldRow[i]? = some old → newRow[i]? = some new → old = new) →
    ∃ common oldRest newRest, oldRow = common ++ oldRest ∧ newRow = common ++ newRest ∧
      (oldRest = [] ∨ newRest = [])
  | [], newRow, _ => ⟨[],[],newRow,rfl,rfl,.inl rfl⟩
  | old::oldRest, [], _ => ⟨[],old::oldRest,[],rfl,rfl,.inr rfl⟩
  | old::oldRest, new::newRest, h => by
    obtain rfl : old = new := h 0 old new rfl rfl
    obtain ⟨common,oldTail,newTail,rfl,rfl,htail⟩ := exists_common oldRest newRest fun i => h (i+1)
    exact ⟨old::common,oldTail,newTail,rfl,rfl,htail⟩

/-- The tail of a row becomes the other tail, as long as `u32` holds the indices. -/
theorem rowEdits_tail {common oldRest newRest : List VNode} (h : oldRest = [] ∨ newRest = [])
    (hlength : (common ++ oldRest).length ≤ 2^32) :
    rowEdits 0 (common ++ oldRest) (common ++ newRest) (common ++ oldRest) = some (common ++ newRest) := by
  rw [rowEdits_common,Nat.zero_add]
  cases oldRest with
  | nil => simp [rowEdits]
  | cons old oldRest =>
    obtain rfl : newRest = [] := by simpa using h
    have hremove := removeBlock_tail common (old::oldRest) (by simpa using hlength)
    simpa [rowEdits] using hremove

theorem strayRowProps_tail {oldRest newRest : List VNode} (h : oldRest = [] ∨ newRest = []) :
    strayRowProps oldRest newRest = ∅ := by
  rcases h with rfl | rfl
  · simp [strayRowProps]
  · cases oldRest <;> simp [strayRowProps]

theorem sameShapes_tail {oldRest newRest : List VNode} (h : oldRest = [] ∨ newRest = []) :
    sameShapes oldRest newRest = true := by
  rcases h with rfl | rfl
  · simp [sameShapes]
  · cases oldRest <;> simp [sameShapes]

/-- Of two elements that differ in their props and in the ends of their rows, the patches
write the difference of the props and turn the one row into the other. -/
theorem patchAll_diff_flat {tag : String} {oldProps newProps : Props} {styles : Styles}
    {common oldRest newRest : List VNode} (h : oldRest = [] ∨ newRest = [])
    (hlength : (common ++ oldRest).length ≤ 2^32) :
    patchAll (diff (.element ⟨tag,oldProps,styles,common ++ oldRest⟩)
        (.element ⟨tag,newProps,styles,common ++ newRest⟩)) (.element ⟨tag,oldProps,styles,common ++ oldRest⟩) =
      some (.element ⟨tag,oldProps ∪ diffProps oldProps newProps,styles,common ++ newRest⟩) := by
  have hshape : sameShape (.element ⟨tag,oldProps,styles,common ++ oldRest⟩)
      (.element ⟨tag,newProps,styles,common ++ newRest⟩) = true := by
    simp [sameShape,sameShapes_common,sameShapes_tail h]
  have hstray : strayProps (.element ⟨tag,oldProps,styles,common ++ oldRest⟩)
      (.element ⟨tag,newProps,styles,common ++ newRest⟩) = diffProps oldProps newProps := by
    rw [strayProps,strayRowProps_common,strayRowProps_tail h,diffProps_self,props_union_empty,props_union_empty]
  have hedits : strayEdits (.element ⟨tag,oldProps,styles,common ++ oldRest⟩)
      (.element ⟨tag,newProps,styles,common ++ newRest⟩) (common ++ oldRest) = some (common ++ newRest) :=
    rowEdits_tail h hlength
  rw [patchAll_diff _ _ _ hshape,hstray,hedits]
  rfl

theorem mem_union_diffProps (oldProps newProps : Props) (k : String) :
    k ∈ oldProps ∪ diffProps oldProps newProps ↔ k ∈ oldProps ∨ k ∈ newProps := by
  simp only [ExtTreeMap.mem_iff_isSome_getElem?,getElem?_union_diffProps]
  cases newProps[k]? <;> cases oldProps[k]? <;> simp

/-- Equal tags and styles, and rows that agree where both have a child: all patches are
applied, and the root is the new one but for the keys it lacks, which are left empty. -/
theorem applyPatches_flat (order : HashOrder String String) {tag : String} {oldProps newProps : Props}
    {styles : Styles} {oldChildren newChildren : List VNode} (hold : oldChildren.length < 2^32)
    (hcommon : ∀ (i : ℕ) (old new : VNode), oldChildren[i]? = some old → newChildren[i]? = some new → old = new)
    (t : Terminal) (ht : t.Reliable) : ∃ props t', t'.Reliable ∧
      applyPatches order (diff (.element ⟨tag,oldProps,styles,oldChildren⟩)
        (.element ⟨tag,newProps,styles,newChildren⟩)) ⟨.element ⟨tag,oldProps,styles,oldChildren⟩,t⟩ =
        .ok () ⟨.element ⟨tag,props,styles,newChildren⟩,t'⟩ ∧
      (∀ k, k ∈ props ↔ k ∈ oldProps ∨ k ∈ newProps) ∧ (∀ k ∈ newProps, props[k]? = newProps[k]?) ∧
      ∀ k ∈ oldProps, k ∉ newProps → props[k]? = some "" := by
  obtain ⟨common,oldRest,newRest,rfl,rfl,hrest⟩ := exists_common oldChildren newChildren hcommon
  have hreach := applyPatches_reaches order (diff (.element ⟨tag,oldProps,styles,common ++ oldRest⟩)
    (.element ⟨tag,newProps,styles,common ++ newRest⟩)) (.element ⟨tag,oldProps,styles,common ++ oldRest⟩) t ht
  rw [patchAll_diff_flat hrest hold.le] at hreach
  obtain ⟨t',ht',happly⟩ := hreach
  refine ⟨oldProps ∪ diffProps oldProps newProps,t',ht',happly,mem_union_diffProps _ _,fun k hk => ?_,
    fun k hk hnot => ?_⟩
  · obtain ⟨v,hv⟩ := Option.isSome_iff_exists.mp (ExtTreeMap.mem_iff_isSome_getElem?.mp hk)
    rw [getElem?_union_diffProps,hv]
    rfl
  · obtain ⟨v,hv⟩ := Option.isSome_iff_exists.mp (ExtTreeMap.mem_iff_isSome_getElem?.mp hk)
    have hnone : newProps[k]? = none := by
      rw [← Option.not_isSome_iff_eq_none,← ExtTreeMap.mem_iff_isSome_getElem?]
      exact hnot
    rw [getElem?_union_diffProps,hnone,hv]
    rfl

/-- A key is dropped and two of three children go. -/
theorem applyPatches_flat_list : ∃ props t', t'.Reliable ∧
    applyPatches .sorted (diff
      (.element ⟨"ul",(∅ : Props).insert "class" "long",∅,[.text "a",.text "b",.text "c"]⟩)
      (.element ⟨"ul",∅,∅,[.text "a"]⟩))
      ⟨.element ⟨"ul",(∅ : Props).insert "class" "long",∅,[.text "a",.text "b",.text "c"]⟩,.quiet⟩ =
      .ok () ⟨.element ⟨"ul",props,∅,[.text "a"]⟩,t'⟩ ∧
    (∀ k, k ∈ props ↔ k ∈ (∅ : Props).insert "class" "long" ∨ k ∈ (∅ : Props)) ∧
    (∀ k ∈ (∅ : Props), props[k]? = (∅ : Props)[k]?) ∧
    ∀ k ∈ (∅ : Props).insert "class" "long", k ∉ (∅ : Props) → props[k]? = some "" := by
  refine applyPatches_flat .sorted (by decide) ?_ .quiet fun _ => rfl
  intro i old new hold hnew
  cases i with
  | zero => exact Option.some.inj (hold.symm.trans hnew)
  | succ i => simp at hnew

end VirtualDom
end NodeRustPty
