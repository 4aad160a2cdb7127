import NodeRustPty.DiffChanges

/-! Two trees walked side by side, from the roots down and along the rows. A visitor is told of
every place where they differ, in the order in which `diff` writes patches for these places. -/
namespace NodeRustPty
namespace VirtualDom

open Std

/-- What is done at the places where two trees differ: props or styles that have changed, another
text, a node of another kind or tag, children that are new, and children that are gone. -/
structure Visitor (m : Type → Type) (σ : Type) where
  write (entries : Props) : σ → m σ
  retype (text : String) : σ → m σ
  replace (node : VNode) : σ → m σ
  append (child : VNode) : σ → m σ
  remove (index : ℕ) : σ → m σ

/-- The new values, and the empty string for each key that is gone. -/
def written (oldProps newProps : Props) : Props :=
  (oldProps.filter fun key _ => key ∉ newProps).map (fun _ _ => "") ∪
    newProps.filter fun key value => oldProps[key]? ≠ some value

namespace Visitor

variable {m : Type → Type} [Monad m] {σ : Type} (v : Visitor m σ)

/-- Nothing is written where nothing has changed. -/
def writes (entries : Props) (s : σ) : m σ := if entries.isEmpty then pure s else v.write entries s

def appendAll : List VNode → σ → m σ
  | [], s => pure s
  | child::children, s => v.append child s >>= appendAll children

/-- Removes the block of children that starts at an index, from its end. -/
def removeFrom (i : ℕ) : List VNode → σ → m σ
  | [], s => pure s
  | _::rest, s => removeFrom (i+1) rest s >>= v.remove i

mutual
def visit : VNode → VNode → σ → m σ
  | .text old, .text new, s => if old = new then pure s else v.retype new s
  | .element ⟨oldTag,oldProps,oldStyles,oldChildren⟩,
    .element ⟨newTag,newProps,newStyles,newChildren⟩, s =>
    if oldTag = newTag then do
      let s ← v.writes (written oldProps newProps) s
      let s ← v.writes (written oldStyles newStyles) s
      visitRow 0 oldChildren newChildren s
    else v.replace (.element ⟨newTag,newProps,newStyles,newChildren⟩) s
  | .text _, .element new, s => v.replace (.element new) s
  | .element _, .text new, s => v.replace (.text new) s
/-- Two rows of children from index `i` on. -/
def visitRow (i : ℕ) : List VNode → List VNode → σ → m σ
  | old::oldRest, new::newRest, s => visit old new s >>= visitRow (i+1) oldRest newRest
  | [], newRest, s => v.appendAll newRest s
  | oldRest, [], s => v.removeFrom i oldRest s
end

end Visitor

/-! ### Entries -/

theorem written_eq (oldProps newProps : Props) : written oldProps newProps = diffProps oldProps newProps := by
  apply ExtTreeMap.ext_getElem?
  intro k
  rw [getElem?_diffProps,written,ExtTreeMap.getElem?_union,ExtTreeMap.getElem?_map,ExtTreeMap.getElem?_filter',
    ExtTreeMap.getElem?_filter']
  cases hnew : newProps[k]? with
  | none =>
    have hgone : k ∉ newProps := by
      rw [ExtTreeMap.mem_iff_isSome_getElem?,hnew]
      simp
    cases oldProps[k]? <;> simp [hgone,Option.filter]
  | some value =>
    have hkept : k ∈ newProps := by
      rw [ExtTreeMap.mem_iff_isSome_getElem?,hnew]
      rfl
    by_cases hsame : oldProps[k]? = some value <;> simp [hkept,hsame,Option.filter]

theorem written_self (props : Props) : written props props = ∅ := (written_eq props props).trans (diffProps_self props)

/-! ### The patches of `diff` -/

namespace Visitor

variable {m : Type → Type} [Monad m] {σ : Type} (v : Visitor m σ)

/-- What a visitor does where `diff` has written this patch. -/
def carry (s : σ) : Patch → m σ
  | .replace node => v.replace node s
  | .updateProps props => v.write props s
  | .appendChild node => v.append node s
  | .removeChild index => v.remove index s
  | .updateText text => v.retype text s
  | .none => pure s

variable [LawfulMonad m]

mutual
/-- Between equal trees there is nothing to do. -/
theorem visit_self : ∀ (node : VNode) (s : σ), v.visit node node s = pure s
  | .text _, s => by simp [visit]
  | .element ⟨_,_,_,children⟩, s => by simp [visit,writes,written_self,visitRow_self 0 children]
theorem visitRow_self : ∀ (i : ℕ) (row : List VNode) (s : σ), v.visitRow i row row s = pure s
  | i, [], s => rfl
  | i, child::row, s => by rw [visitRow,visit_self child s,pure_bind,visitRow_self (i+1) row s]
end

theorem carry_dropNone (patches : List Patch) (s : σ) :
    (dropNone patches).foldlM v.carry s = patches.foldlM v.carry s := by
  have hfilter : (patches.filter (· ≠ .none)).foldlM v.carry s = patches.foldlM v.carry s := by
    induction patches generalizing s with
    | nil => rfl
    | cons patch patches ih =>
      by_cases h : patch = .none
      · rw [List.filter_cons_of_neg (by simpa using h),ih,h,List.foldlM_cons,carry,pure_bind]
      · rw [List.filter_cons_of_pos (by simpa using h),List.foldlM_cons,List.foldlM_cons]
        exact congrArg _ (funext fun s => ih s)
  unfold dropNone
  split
  · exact hfilter
  · rfl

theorem carry_propsPatch (oldProps newProps : Props) (s : σ) :
    (propsPatch (diffProps oldProps newProps)).foldlM v.carry s = v.writes (written oldProps newProps) s := by
  rw [written_eq,propsPatch,writes]
  split
  · rfl
  · simp [carry]

omit [LawfulMonad m] in
theorem carry_appendChild (children : List VNode) (s : σ) :
    (children.map .appendChild).foldlM v.carry s = v.appendAll children s := by
  induction children generalizing s with
  | nil => rfl
  | cons child children ih =>
    rw [List.map_cons,List.foldlM_cons,appendAll]
    exact congrArg _ (funext fun s => ih s)

theorem carry_removeChild (i : ℕ) (rest : List VNode) (s : σ) :
    ((List.range' i rest.length).reverse.map .removeChild).foldlM v.carry s = v.removeFrom i rest s := by
  induction rest generalizing i with
  | nil => rfl
  | cons child rest ih =>
    rw [List.length_cons,List.range'_succ,List.reverse_cons,List.map_append,List.foldlM_append,ih,removeFrom]
    simp [carry]

mutual
/-- Along the patches of `diff` a visitor does what it does on the walk over the two trees. -/
theorem carry_diff : ∀ (old new : VNode) (s : σ), (diff old new).foldlM v.carry s = v.visit old new s
  | .text old, .text new, s => by
    by_cases h : old = new <;> simp [diff,dropNone,h,visit,carry]
  | .element ⟨oldTag,oldProps,oldStyles,oldChildren⟩,
    .element ⟨newTag,newProps,newStyles,newChildren⟩, s => by
    by_cases htag : oldTag = newTag
    · subst htag
      by_cases h : VNode.element ⟨oldTag,oldProps,oldStyles,oldChildren⟩ =
          .element ⟨oldTag,newProps,newStyles,newChildren⟩
      · rw [h,visit_self]
        simp [diff,carry]
      · rw [diff_element h,carry_dropNone,List.foldlM_append,List.foldlM_append,carry_propsPatch]
        simp only [carry_propsPatch,carry_diffChildren 0 oldChildren newChildren,visit,if_true,bind_assoc]
    · simp [diff,dropNone,htag,visit,carry]
  | .text _, .element _, s => by simp [diff,dropNone,visit,carry]
  | .element _, .text _, s => by simp [diff,dropNone,visit,carry]
theorem carry_diffChildren : ∀ (i : ℕ) (oldRow newRow : List VNode) (s : σ),
    (diffChildren i oldRow newRow).foldlM v.carry s = v.visitRow i oldRow newRow s
  | i, old::oldRest, new::newRest, s => by
    have hhead : (if old ≠ new then diff old new else []).foldlM v.carry s = v.visit old new s := by
      by_cases h : old = new
      · simp [h,visit_self]
      · rw [if_pos h,carry_diff old new s]
    rw [diffChildren,List.foldlM_append,hhead,visitRow]
    exact congrArg _ (funext fun s => carry_diffChildren (i+1) oldRest newRest s)
  | i, [], newRest, s => by
    rw [diffChildren,diffTail,List.length_nil,List.range'_zero,List.reverse_nil,List.map_nil,List.append_nil,
      carry_appendChild]
    rfl
  | i, old::oldRest, [], s => by
    simp only [diffChildren,diffTail,List.map_nil,List.nil_append,carry_removeChild,visitRow]
end

/-- What two rows begin with alike is passed over. -/
theorem visitRow_common (common oldRest newRest : List VNode) (i : ℕ) (s : σ) :
    v.visitRow i (common ++ oldRest) (common ++ newRest) s = v.visitRow (i+common.length) oldRest newRest s := by
  induction common generalizing i with
  | nil => rfl
  | cons child common ih =>
    have hindex : i+1+common.length = i+(child::common).length := by
      rw [List.length_cons]
      omega
    rw [List.cons_append,List.cons_append,visitRow,visit_self,pure_bind,ih,hindex]

end Visitor

/-! ### The root that a walk leaves -/

/-- An element changes, unless the change is refused, and a text refuses every change. -/
def VNode.changed (change : VElement VNode → Option (VElement VNode)) : VNode → Option VNode
  | .text _ => none
  | .element elem => (change elem).map .element

/-- Every difference is settled at the root, wherever in the trees it is. -/
def rootVisitor : Visitor Option VNode where
  write entries root := root.changed fun elem => some { elem with props := elem.props ∪ entries }
  retype text root := root.changed fun elem => some { elem with props := elem.props.insert "content" text }
  replace node _ := some node
  append child root := root.changed fun elem => some { elem with children := elem.children ++ [child] }
  remove index root := root.changed fun elem =>
    (removeAt index elem.children).map fun children => { elem with children := children }

theorem rootVisitor_carry (root : VNode) (patch : Patch) : rootVisitor.carry root patch = patch.internal.onRoot root := by
  cases patch with
  | removeChild index =>
    cases root with
    | text content => rfl
    | element elem =>
      rw [removeChild_onRoot]
      exact Option.map_map ..
  | _ => cases root <;> rfl

/-- The root after the patches is the one that the walk leaves. -/
theorem patchAll_diff_eq_visit (old new root : VNode) :
    patchAll (diff old new) root = rootVisitor.visit old new root := by
  rw [← rootVisitor.carry_diff,patchAll]
  congr 1
  funext root patch
  exact (rootVisitor_carry root patch).symm

end VirtualDom
end NodeRustPty
