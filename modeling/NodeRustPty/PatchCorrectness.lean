import NodeRustPty.Renderer

/-! When the patches of `diff` turn the old root into the new one. Patches have
no path, so a change below the root is written to the root itself. -/
namespace NodeRustPty
namespace VirtualDom

open Std

/-! ### Changes that reach the root by mistake -/

mutual
/-- Overlapping nodes agree in kind and tag at every depth: nothing is replaced. -/
def sameShape : VNode → VNode → Bool
  | .text _, .text _ => true
  | .element ⟨oldTag,_,_,oldChildren⟩, .element ⟨newTag,_,_,newChildren⟩ =>
    oldTag = newTag && sameShapes oldChildren newChildren
  | .text _, .element _ => false
  | .element _, .text _ => false
def sameShapes : List VNode → List VNode → Bool
  | old::oldRest, new::newRest => sameShape old new && sameShapes oldRest newRest
  | [], _ => true
  | _, [] => true
end

mutual
/-- The entries that a change between two nodes writes into the props of the root. -/
def strayProps : VNode → VNode → Props
  | .text old, .text new => if old = new then ∅ else (∅ : Props).insert "content" new
  | .element ⟨_,oldProps,oldStyles,oldChildren⟩, .element ⟨_,newProps,newStyles,newChildren⟩ =>
    diffProps oldProps newProps ∪ diffProps oldStyles newStyles ∪
      strayRowProps oldChildren newChildren
  | .text _, .element _ => ∅
  | .element _, .text _ => ∅
/-- The same for a row of children. A later child overwrites an earlier one. -/
def strayRowProps : List VNode → List VNode → Props
  | old::oldRest, new::newRest => strayProps old new ∪ strayRowProps oldRest newRest
  | [], _ => ∅
  | _, [] => ∅
end

/-- Removes the child at an index cast to `u32`. -/
def removeAt (index : ℕ) (row : List VNode) : Option (List VNode) :=
  if index.toUInt32.toNat < row.length then some (row.eraseIdx index.toUInt32.toNat) else none

/-- Removes a block of children from right to left. -/
def removeBlock (i length : ℕ) (row : List VNode) : Option (List VNode) :=
  (List.range' i length).reverse.foldlM (fun row index => removeAt index row) row

mutual
/-- The edits that a change between two nodes makes on the children of the root. -/
def strayEdits : VNode → VNode → List VNode → Option (List VNode)
  | .element ⟨_,_,_,oldChildren⟩, .element ⟨_,_,_,newChildren⟩, row =>
    rowEdits 0 oldChildren newChildren row
  | .text _, .text _, row => some row
  | .text _, .element _, row => some row
  | .element _, .text _, row => some row
/-- The same for a row of children from index `i` on, its own tail included. -/
def rowEdits (i : ℕ) : List VNode → List VNode → List VNode → Option (List VNode)
  | old::oldRest, new::newRest, row =>
    (strayEdits old new row).bind (rowEdits (i+1) oldRest newRest)
  | [], newRest, row => some (row ++ newRest)
  | oldRest, [], row => removeBlock i oldRest.length row
end

/-- The new tree is reached: the roots differ in kind or tag, so that one `Replace` does
it, or every single change is one that the root can take. -/
def Patchable : VNode → VNode → Prop
  | .text old, .text new => old = new
  | .element ⟨oldTag,oldProps,oldStyles,oldChildren⟩,
    .element ⟨newTag,newProps,newStyles,newChildren⟩ =>
    oldTag = newTag → oldStyles = newStyles ∧ (∀ k, k ∈ oldProps → k ∈ newProps) ∧
      (∀ k v : String, (strayRowProps oldChildren newChildren)[k]? = some v → newProps[k]? = some v) ∧
      sameShapes oldChildren newChildren ∧
      rowEdits 0 oldChildren newChildren oldChildren = some newChildren
  | .text _, .element _ => True
  | .element _, .text _ => True

/-! ### Props -/

theorem getElem?_diffProps (oldProps newProps : Props) (k : String) :
    (diffProps oldProps newProps)[k]? =
      match newProps[k]? with
      | some v => if oldProps[k]? = some v then none else some v
      | none => oldProps[k]?.map fun _ => "" := by
  unfold diffProps
  rw [ExtTreeMap.getElem?_union,ExtTreeMap.getElem?_filterMap',ExtTreeMap.getElem?_filterMap']
  cases hn : newProps[k]? with
  | none =>
    have hk : k ∉ newProps := by
      rw [ExtTreeMap.mem_iff_isSome_getElem?,hn]
      simp
    cases ho : oldProps[k]? with
    | none => rfl
    | some old => simp [hk]
  | some v =>
    have hk : k ∈ newProps := by
      rw [ExtTreeMap.mem_iff_isSome_getElem?,hn]
      rfl
    cases ho : oldProps[k]? with
    | none => simp
    | some old => by_cases h : old = v <;> simp [hk,h]

theorem diffProps_self (props : Props) : diffProps props props = ∅ := by
  apply ExtTreeMap.ext_getElem?
  intro k
  rw [getElem?_diffProps]
  cases hk : props[k]? <;> simp

/-- Writing the difference gives the new map with the removed keys left as empty strings. -/
theorem getElem?_union_diffProps (oldProps newProps : Props) (k : String) :
    (oldProps ∪ diffProps oldProps newProps)[k]? =
      newProps[k]?.or (oldProps[k]?.map fun _ => "") := by
  rw [ExtTreeMap.getElem?_union,getElem?_diffProps]
  cases newProps[k]? with
  | none => cases oldProps[k]? <;> rfl
  | some v => by_cases h : oldProps[k]? = some v <;> simp [h]

/-- A key is never removed, so the new props are reached only when all old keys stay and
everything written later agrees with them. -/
theorem props_reached_iff (oldProps newProps stray : Props) :
    oldProps ∪ diffProps oldProps newProps ∪ stray = newProps ↔
      (∀ k, k ∈ oldProps → k ∈ newProps) ∧
        ∀ k v : String, stray[k]? = some v → newProps[k]? = some v := by
  constructor
  · intro h
    refine ⟨fun k hk => ?_,fun k v hv => ?_⟩
    · rw [← h]
      exact ExtTreeMap.mem_union_of_left (ExtTreeMap.mem_union_of_left hk)
    · rw [← h,ExtTreeMap.getElem?_union,hv]
      rfl
  · rintro ⟨hkeys,hstray⟩
    apply ExtTreeMap.ext_getElem?
    intro k
    rw [ExtTreeMap.getElem?_union,getElem?_union_diffProps]
    cases hs : stray[k]? with
    | some v => simp [hstray k v hs]
    | none =>
      cases hn : newProps[k]? with
      | some v => rfl
      | none =>
        have ho : oldProps[k]? = none := by
          cases ho : oldProps[k]? with
          | none => rfl
          | some v =>
            have hk : k ∈ newProps := hkeys k (by simp [ExtTreeMap.mem_iff_isSome_getElem?,ho])
            simp [ExtTreeMap.mem_iff_isSome_getElem?,hn] at hk
        simp [ho]

/-! ### Patch lists on an element -/

@[simp] theorem patchAll_nil (root : VNode) : patchAll [] root = some root := rfl

@[simp] theorem patchAll_cons (patch : Patch) (patches : List Patch) (root : VNode) :
    patchAll (patch::patches) root = (patch.internal.onRoot root).bind (patchAll patches) := rfl

theorem patchAll_append (ps qs : List Patch) (root : VNode) :
    patchAll (ps ++ qs) root = (patchAll ps root).bind (patchAll qs) := by
  simp only [patchAll,List.foldlM_append]
  rfl

theorem patchAll_filter_none (patches : List Patch) (root : VNode) :
    patchAll (patches.filter (· ≠ .none)) root = patchAll patches root := by
  induction patches generalizing root with
  | nil => rfl
  | cons patch patches ih =>
    by_cases h : patch = .none
    · simpa [h,Patch.internal,PatchInternal.onRoot] using ih root
    · rw [List.filter_cons_of_pos (by simpa using h),patchAll_cons,patchAll_cons]
      exact congrArg _ (funext ih)

theorem patchAll_dropNone (patches : List Patch) (root : VNode) :
    patchAll (dropNone patches) root = patchAll patches root := by
  unfold dropNone
  split
  · exact patchAll_filter_none patches root
  · rfl

/-- A props patch is left out exactly when it would write nothing. -/
def propsPatch (props : Props) : List Patch := if props.isEmpty then [] else [.updateProps props]

theorem patchAll_propsPatch (props : Props) (elem : VElement VNode) :
    patchAll (propsPatch props) (.element elem) =
      some (.element { elem with props := elem.props ∪ props }) := by
  unfold propsPatch
  by_cases h : props.isEmpty
  · have he : props = ∅ := ExtTreeMap.isEmpty_iff.mp h
    have hu : elem.props ∪ (∅ : Props) = elem.props := by
      apply ExtTreeMap.ext_getElem?
      simp [ExtTreeMap.getElem?_union]
    simp [he,hu]
  · simp [h,Patch.internal,PatchInternal.onRoot]

theorem patchAll_appendChild (children : List VNode) (elem : VElement VNode) :
    patchAll (children.map .appendChild) (.element elem) =
      some (.element { elem with children := elem.children ++ children }) := by
  induction children generalizing elem with
  | nil => simp
  | cons child children ih => simp [Patch.internal,PatchInternal.onRoot,ih]

theorem removeChild_onRoot (index : ℕ) (elem : VElement VNode) :
    (Patch.removeChild index).internal.onRoot (.element elem) =
      (removeAt index elem.children).map fun children => .element { elem with children := children } := by
  simp only [Patch.internal,PatchInternal.onRoot,removeAt]
  split <;> rfl

theorem patchAll_removeChild (indices : List ℕ) (elem : VElement VNode) :
    patchAll (indices.map .removeChild) (.element elem) =
      (indices.foldlM (fun row index => removeAt index row) elem.children).map
        fun children => .element { elem with children := children } := by
  induction indices generalizing elem with
  | nil => simp
  | cons index indices ih =>
    rw [List.map_cons,patchAll_cons,removeChild_onRoot,List.foldlM_cons]
    cases removeAt index elem.children with
    | none => rfl
    | some row => exact ih _

theorem patchAll_diffTail (i : ℕ) (oldRest newRest : List VNode) (elem : VElement VNode) :
    patchAll (diffTail i oldRest newRest) (.element elem) =
      (removeBlock i oldRest.length (elem.children ++ newRest)).map
        fun children => .element { elem with children := children } := by
  rw [diffTail,patchAll_append,patchAll_appendChild,Option.bind_some,patchAll_removeChild]
  rfl

/-- Two nodes of one tag: first the props, then the row of children. -/
theorem patchAll_diff_element {tag : String} {oldProps newProps : Props} {oldStyles newStyles : Styles}
    {oldChildren newChildren : List VNode} (root : VNode)
    (h : VNode.element ⟨tag,oldProps,oldStyles,oldChildren⟩ ≠
      .element ⟨tag,newProps,newStyles,newChildren⟩) :
    patchAll (diff (.element ⟨tag,oldProps,oldStyles,oldChildren⟩)
        (.element ⟨tag,newProps,newStyles,newChildren⟩)) root =
      (patchAll (propsPatch (diffProps oldProps newProps) ++ propsPatch (diffProps oldStyles newStyles))
        root).bind (patchAll (diffChildren 0 oldChildren newChildren)) := by
  rw [diff,if_neg h,patchAll_dropNone]
  simp only [ne_eq,not_true_eq_false,if_false]
  exact patchAll_append _ _ _

/-- Equal nodes are left alone. -/
theorem patchAll_diff_self (node root : VNode) : patchAll (diff node node) root = some root := by
  cases node <;> simp [diff,Patch.internal,PatchInternal.onRoot]

/-! ### A pair of nodes without a replacement -/

theorem props_union_empty (props : Props) : props ∪ (∅ : Props) = props := by
  apply ExtTreeMap.ext_getElem?
  simp [ExtTreeMap.getElem?_union]

theorem props_union_assoc (a b c : Props) : a ∪ b ∪ c = a ∪ (b ∪ c) := by
  apply ExtTreeMap.ext_getElem?
  simp [ExtTreeMap.getElem?_union,Option.or_assoc]

theorem props_insert (props : Props) (k v : String) :
    props.insert k v = props ∪ (∅ : Props).insert k v := by
  apply ExtTreeMap.ext_getElem?
  intro x
  rw [ExtTreeMap.getElem?_union,ExtTreeMap.getElem?_insert,ExtTreeMap.getElem?_insert]
  by_cases h : compare k x = .eq <;> simp [h]

mutual
/-- Equal nodes change nothing. -/
theorem stray_self : ∀ node : VNode,
    sameShape node node = true ∧ strayProps node node = ∅ ∧ ∀ row, strayEdits node node row = some row
  | .text _ => by simp [sameShape,strayProps,strayEdits]
  | .element ⟨_,_,_,children⟩ => by
    obtain ⟨hs,hp,he⟩ := strayRow_self children
    refine ⟨by simp [sameShape,hs],?_,fun row => he 0 row⟩
    simp [strayProps,diffProps_self,hp,props_union_empty]
theorem strayRow_self : ∀ children : List VNode,
    sameShapes children children = true ∧ strayRowProps children children = ∅ ∧
      ∀ i row, rowEdits i children children row = some row
  | [] => by simp [sameShapes,strayRowProps,rowEdits]
  | child::children => by
    obtain ⟨hs,hp,he⟩ := stray_self child
    obtain ⟨hs',hp',he'⟩ := strayRow_self children
    refine ⟨by simp [sameShapes,hs,hs'],by simp [strayRowProps,hp,hp',props_union_empty],?_⟩
    intro i row
    rw [rowEdits,he,Option.bind_some,he']
end

mutual
/-- Applied to an element, the patches of two nodes of one shape write their stray props
into its props and run their stray edits on its children. -/
theorem patchAll_diff : ∀ (old new : VNode) (elem : VElement VNode), sameShape old new = true →
    patchAll (diff old new) (.element elem) = (strayEdits old new elem.children).map
      fun children => .element { elem with props := elem.props ∪ strayProps old new, children := children }
  | .text old, .text new, elem, _ => by
    by_cases h : old = new
    · simp [diff,h,strayEdits,strayProps,Patch.internal,PatchInternal.onRoot,props_union_empty]
    · simp [diff,h,patchAll_dropNone,strayEdits,strayProps,Patch.internal,PatchInternal.onRoot]
      exact props_insert elem.props "content" new
  | .element ⟨oldTag,oldProps,oldStyles,oldChildren⟩,
    .element ⟨newTag,newProps,newStyles,newChildren⟩, elem, hshape => by
    by_cases h : VNode.element ⟨oldTag,oldProps,oldStyles,oldChildren⟩ =
        .element ⟨newTag,newProps,newStyles,newChildren⟩
    · obtain ⟨-,hp,he⟩ := stray_self (.element ⟨oldTag,oldProps,oldStyles,oldChildren⟩)
      simp [← h,patchAll_diff_self,hp,he,props_union_empty]
    · obtain ⟨rfl,hrow⟩ : oldTag = newTag ∧ sameShapes oldChildren newChildren = true := by
        simpa [sameShape] using hshape
      rw [patchAll_diff_element _ h,patchAll_append,patchAll_propsPatch,Option.bind_some,
        patchAll_propsPatch,Option.bind_some,patchAll_diffChildren 0 oldChildren newChildren _ hrow]
      simp [strayEdits,strayProps,props_union_assoc]
  | .text _, .element _, _, h => by simp [sameShape] at h
  | .element _, .text _, _, h => by simp [sameShape] at h
theorem patchAll_diffChildren : ∀ (i : ℕ) (oldRow newRow : List VNode) (elem : VElement VNode),
    sameShapes oldRow newRow = true →
    patchAll (diffChildren i oldRow newRow) (.element elem) = (rowEdits i oldRow newRow elem.children).map
      fun children => .element { elem with props := elem.props ∪ strayRowProps oldRow newRow, children := children }
  | i, old::oldRest, new::newRest, elem, hshape => by
    obtain ⟨hs,hrow⟩ : sameShape old new = true ∧ sameShapes oldRest newRest = true := by
      simpa [sameShapes] using hshape
    have hhead : patchAll (if old ≠ new then diff old new else []) (.element elem) =
        (strayEdits old new elem.children).map fun children =>
          .element { elem with props := elem.props ∪ strayProps old new, children := children } := by
      by_cases h : old = new
      · obtain ⟨-,hp,he⟩ := stray_self new
        simp [h,hp,he,props_union_empty]
      · rw [if_pos h,patchAll_diff old new elem hs]
    rw [diffChildren,patchAll_append,hhead,rowEdits]
    cases strayEdits old new elem.children with
    | none => rfl
    | some children =>
      simp [patchAll_diffChildren (i+1) oldRest newRest _ hrow,strayRowProps,props_union_assoc]
  | i, [], newRest, elem, _ => by
    simp [diffChildren,patchAll_diffTail,rowEdits,strayRowProps,removeBlock,props_union_empty]
  | i, old::oldRest, [], elem, _ => by
    simp [diffChildren,patchAll_diffTail,rowEdits,strayRowProps,props_union_empty]
end

/-! ### A replacement below the root -/

theorem removeAt_size {index : ℕ} {row row' : List VNode} (h : removeAt index row = some row') :
    sizeChildren row' ≤ sizeChildren row := by
  unfold removeAt at h
  split at h
  · cases h
    exact sizeChildren_eraseIdx_le _ _
  · simp at h

/-- The nodes that a patch may add below the root. -/
def Patch.weight : Patch → ℕ
  | .appendChild node => node.size
  | _ => 0

/-- A patch that is no replacement adds no more nodes than it carries. -/
theorem onRoot_descendants {patch : Patch} {root root' : VNode} (hp : ∀ node, patch ≠ .replace node)
    (h : patch.internal.onRoot root = some root') :
    root'.descendants ≤ root.descendants+patch.weight := by
  cases root with
  | text text =>
    cases patch <;> simp_all [Patch.internal,PatchInternal.onRoot]
  | element elem =>
    cases patch with
    | replace node => exact absurd rfl (hp node)
    | removeChild index =>
      rw [removeChild_onRoot,Option.map_eq_some_iff] at h
      obtain ⟨row,hrow,rfl⟩ := h
      exact removeAt_size hrow
    | _ => 
      simp only [Patch.internal,PatchInternal.onRoot,Option.some.injEq] at h
      subst h
      simp [VNode.descendants,Patch.weight]

theorem patchAll_descendants {patches : List Patch} {root root' : VNode}
    (hp : ∀ node, .replace node ∉ patches) (h : patchAll patches root = some root') :
    root'.descendants ≤ root.descendants+(patches.map Patch.weight).sum := by
  induction patches generalizing root with
  | nil =>
    cases h
    simp
  | cons patch patches ih =>
    rw [patchAll_cons,Option.bind_eq_some_iff] at h
    obtain ⟨middle,hm,hr⟩ := h
    have hfirst := onRoot_descendants (fun node e => hp node (by simp [e])) hm
    have hrest := ih (fun node hn => hp node (List.mem_cons_of_mem _ hn)) hr
    simp only [List.map_cons,List.sum_cons]
    omega

theorem diffTail_weight (i : ℕ) (oldRest newRest : List VNode) :
    ((diffTail i oldRest newRest).map Patch.weight).sum = sizeChildren newRest := by
  have ha : ((newRest.map Patch.appendChild).map Patch.weight).sum = sizeChildren newRest := by
    induction newRest with
    | nil => rfl
    | cons new newRest ih => simpa [Patch.weight] using ih
  have hr (indices : List ℕ) : ((indices.map Patch.removeChild).map Patch.weight).sum = 0 := by
    induction indices with
    | nil => rfl
    | cons index indices ih => simpa [Patch.weight] using ih
  simp only [diffTail,List.map_append,List.sum_append,ha,hr]
  omega

/-- The tail of a row adds no more nodes than the new tail has. -/
theorem diffTail_descendants {i : ℕ} {oldRest newRest : List VNode} {root root' : VNode}
    (h : patchAll (diffTail i oldRest newRest) root = some root') :
    root'.descendants ≤ root.descendants+sizeChildren newRest := by
  rw [← diffTail_weight i oldRest newRest]
  exact patchAll_descendants (by simp [diffTail]) h

theorem propsPatches_descendants {props styles : Props} {root root' : VNode}
    (h : patchAll (propsPatch props ++ propsPatch styles) root = some root') :
    root'.descendants ≤ root.descendants := by
  have hw (props : Props) : ((propsPatch props).map Patch.weight).sum = 0 := by
    unfold propsPatch
    split <;> rfl
  have hp (node : VNode) (props : Props) : Patch.replace node ∉ propsPatch props := by
    unfold propsPatch
    split <;> simp
  have hd := patchAll_descendants (fun node => by simp [hp]) h
  rwa [List.map_append,List.sum_append,hw,hw] at hd

mutual
/-- The patches of two nodes add at most the nodes of the new one, and once one of them
replaces the root by a node of the new one, that node is all there is. -/
theorem diff_descendants : ∀ (old new root root' : VNode), patchAll (diff old new) root = some root' →
    root'.descendants ≤ root.descendants+new.size ∧
      (sameShape old new = false → root'.descendants < new.size)
  | .text old, .text new, root, root', h => by
    have hp (node : VNode) : .replace node ∉ diff (.text old) (.text new) := by
      by_cases he : old = new <;> simp [diff,dropNone,he]
    have hw : ((diff (.text old) (.text new)).map Patch.weight).sum = 0 := by
      by_cases he : old = new <;> simp [diff,dropNone,he,Patch.weight]
    have hd := patchAll_descendants hp h
    exact ⟨by omega,by simp [sameShape]⟩
  | .element ⟨oldTag,oldProps,oldStyles,oldChildren⟩,
    .element ⟨newTag,newProps,newStyles,newChildren⟩, root, root', h => by
    by_cases ht : oldTag = newTag
    · subst ht
      by_cases he : VNode.element ⟨oldTag,oldProps,oldStyles,oldChildren⟩ =
          .element ⟨oldTag,newProps,newStyles,newChildren⟩
      · rw [he,patchAll_diff_self,Option.some.injEq] at h
        obtain ⟨hs,-,-⟩ := stray_self (.element ⟨oldTag,newProps,newStyles,newChildren⟩)
        rw [he,h,hs]
        exact ⟨by omega,by simp⟩
      · rw [patchAll_diff_element root he,Option.bind_eq_some_iff] at h
        obtain ⟨middle,hm,hr⟩ := h
        have hupdates := propsPatches_descendants hm
        obtain ⟨hrow,hswap⟩ := diffChildren_descendants 0 oldChildren newChildren middle root' hr
        have hsize : (VNode.element ⟨oldTag,newProps,newStyles,newChildren⟩).size =
            sizeChildren newChildren+1 := rfl
        refine ⟨by omega,fun hs => ?_⟩
        have := hswap (by simpa [sameShape] using hs)
        omega
    · simp [diff,dropNone,ht,Patch.internal,PatchInternal.onRoot] at h
      subst h
      rw [VNode.size_eq]
      omega
  | .text old, .element new, root, root', h => by
    simp [diff,dropNone,Patch.internal,PatchInternal.onRoot] at h
    subst h
    rw [VNode.size_eq]
    omega
  | .element old, .text new, root, root', h => by
    simp [diff,dropNone,Patch.internal,PatchInternal.onRoot] at h
    subst h
    rw [VNode.size_eq]
    omega
termination_by structural old => old
theorem diffChildren_descendants : ∀ (i : ℕ) (oldRow newRow : List VNode) (root root' : VNode),
    patchAll (diffChildren i oldRow newRow) root = some root' →
    root'.descendants ≤ root.descendants+sizeChildren newRow ∧
      (sameShapes oldRow newRow = false → root'.descendants < sizeChildren newRow)
  | i, old::oldRest, new::newRest, root, root', h => by
    rw [diffChildren,patchAll_append,Option.bind_eq_some_iff] at h
    obtain ⟨middle,hm,hr⟩ := h
    obtain ⟨hrow,hswap⟩ := diffChildren_descendants (i+1) oldRest newRest middle root' hr
    have hhead : middle.descendants ≤ root.descendants+new.size ∧
        (sameShape old new = false → middle.descendants < new.size) := by
      by_cases he : old = new
      · obtain ⟨hs,-,-⟩ := stray_self new
        simp only [he,ne_eq,not_true_eq_false,if_false,patchAll_nil,Option.some.injEq] at hm
        rw [he,hm,hs]
        exact ⟨by omega,by simp⟩
      · rw [if_pos he] at hm
        exact diff_descendants old new root middle hm
    rw [sizeChildren_cons]
    refine ⟨by omega,fun hs => ?_⟩
    cases hh : sameShape old new with
    | false =>
      have := hhead.2 hh
      omega
    | true =>
      have := hswap (by simpa [sameShapes,hh] using hs)
      omega
  | i, [], newRest, root, root', h => ⟨diffTail_descendants h,by simp [sameShapes]⟩
  | i, old::oldRest, [], root, root', h => ⟨diffTail_descendants h,by simp [sameShapes]⟩
termination_by structural _ oldRow => oldRow
end

/-! ### Patching the old root -/

/-- Without a replacement below the root, props, styles and children are settled apart. -/
theorem patchAll_diff_sameTag {tag : String} {oldProps newProps : Props} {oldStyles newStyles : Styles}
    {oldChildren newChildren : List VNode} (hshape : sameShapes oldChildren newChildren = true) :
    patchAll (diff (.element ⟨tag,oldProps,oldStyles,oldChildren⟩)
        (.element ⟨tag,newProps,newStyles,newChildren⟩)) (.element ⟨tag,oldProps,oldStyles,oldChildren⟩) =
      some (.element ⟨tag,newProps,newStyles,newChildren⟩) ↔
    oldStyles = newStyles ∧ (∀ k, k ∈ oldProps → k ∈ newProps) ∧
      (∀ k v : String, (strayRowProps oldChildren newChildren)[k]? = some v → newProps[k]? = some v) ∧
      rowEdits 0 oldChildren newChildren oldChildren = some newChildren := by
  rw [patchAll_diff _ _ _ (by simpa [sameShape] using hshape)]
  simp only [strayEdits,strayProps,Option.map_eq_some_iff,VNode.element.injEq,VElement.mk.injEq,
    true_and]
  constructor
  · rintro ⟨children,hrow,hprops,rfl,rfl⟩
    rw [diffProps_self,props_union_empty,← props_union_assoc] at hprops
    obtain ⟨hkeys,hstray⟩ := (props_reached_iff _ _ _).mp hprops
    exact ⟨rfl,hkeys,hstray,hrow⟩
  · rintro ⟨rfl,hkeys,hstray,hrow⟩
    refine ⟨newChildren,hrow,?_,rfl,rfl⟩
    rw [diffProps_self,props_union_empty,← props_union_assoc]
    exact (props_reached_iff _ _ _).mpr ⟨hkeys,hstray⟩

theorem patchAll_diff_iff (old new : VNode) :
    patchAll (diff old new) old = some new ↔ Patchable old new := by
  cases old with
  | text old =>
    cases new with
    | text new =>
      by_cases h : old = new <;>
        simp [diff,dropNone,h,Patchable,Patch.internal,PatchInternal.onRoot]
    | element new => simp [diff,dropNone,Patchable,Patch.internal,PatchInternal.onRoot]
  | element old =>
    cases new with
    | text new => simp [diff,dropNone,Patchable,Patch.internal,PatchInternal.onRoot]
    | element new =>
      obtain ⟨oldTag,oldProps,oldStyles,oldChildren⟩ := old
      obtain ⟨newTag,newProps,newStyles,newChildren⟩ := new
      by_cases ht : oldTag = newTag
      swap
      · simp [diff,dropNone,ht,Patchable,Patch.internal,PatchInternal.onRoot]
      subst ht
      simp only [Patchable,true_implies]
      cases hshape : sameShapes oldChildren newChildren with
      | true =>
        rw [patchAll_diff_sameTag hshape]
        simp
      | false =>
        -- a node of the new row was made the root, and too few nodes can come after it
        simp only [Bool.false_eq_true,false_and,and_false,iff_false]
        intro h
        by_cases he : VNode.element ⟨oldTag,oldProps,oldStyles,oldChildren⟩ =
            .element ⟨oldTag,newProps,newStyles,newChildren⟩
        · obtain ⟨hs,-,-⟩ := strayRow_self newChildren
          simp only [VNode.element.injEq,VElement.mk.injEq] at he
          rw [he.2.2.2,hs] at hshape
          simp at hshape
        · rw [patchAll_diff_element _ he,Option.bind_eq_some_iff] at h
          obtain ⟨middle,-,hr⟩ := h
          have hd := (diffChildren_descendants 0 oldChildren newChildren middle _ hr).2 hshape
          simp only [VNode.descendants] at hd
          omega

/-! ### Changes of the root itself -/

theorem rowEdits_common (common oldRest newRest : List VNode) (i : ℕ) (row : List VNode) :
    rowEdits i (common ++ oldRest) (common ++ newRest) row =
      rowEdits (i+common.length) oldRest newRest row := by
  induction common generalizing i row with
  | nil => rfl
  | cons child common ih =>
    obtain ⟨-,-,he⟩ := stray_self child
    rw [List.cons_append,List.cons_append,rowEdits,he,Option.bind_some,ih,List.length_cons]
    congr 1
    omega

theorem strayRowProps_common (common oldRest newRest : List VNode) :
    strayRowProps (common ++ oldRest) (common ++ newRest) = strayRowProps oldRest newRest := by
  induction common with
  | nil => rfl
  | cons child common ih =>
    obtain ⟨-,hp,-⟩ := stray_self child
    rw [List.cons_append,List.cons_append,strayRowProps,hp,ih]
    apply ExtTreeMap.ext_getElem?
    simp [ExtTreeMap.getElem?_union]

theorem sameShapes_common (common oldRest newRest : List VNode) :
    sameShapes (common ++ oldRest) (common ++ newRest) = sameShapes oldRest newRest := by
  induction common with
  | nil => rfl
  | cons child common ih =>
    obtain ⟨hs,-,-⟩ := stray_self child
    rw [List.cons_append,List.cons_append,sameShapes,hs,ih,Bool.true_and]

/-- Removing the tail from right to left leaves the front, as long as `u32` holds the indices. -/
theorem removeBlock_tail (front tail : List VNode) (h : front.length+tail.length ≤ 2^32) :
    removeBlock front.length tail.length (front ++ tail) = some front := by
  induction tail using List.reverseRecOn with
  | nil => simp [removeBlock]
  | append_singleton tail child ih =>
    rw [List.length_append,List.length_singleton] at h ⊢
    have hi : (front.length+tail.length).toUInt32.toNat = front.length+tail.length := by
      rw [Nat.toUInt32,UInt32.toNat_ofNat_of_lt']
      rw [UInt32.size]
      omega
    have hr : removeAt (front.length+tail.length) (front ++ (tail ++ [child])) = some (front ++ tail) := by
      unfold removeAt
      rw [hi,if_pos (by simp),← List.append_assoc,← List.length_append]
      simp [List.eraseIdx_append_of_length_le]
    have hstep := ih (by omega)
    rw [removeBlock] at hstep ⊢
    rw [List.range'_concat,List.reverse_append,List.reverse_singleton,List.singleton_append,
      List.foldlM_cons,Nat.one_mul,hr]
    exact hstep

/-- A change of the root alone is patched: equal styles, no key dropped, and one row of
children a prefix of the other. -/
theorem patchable_of_prefix {tag : String} {oldProps newProps : Props} {styles : Styles}
    {common oldRest newRest : List VNode} (hkeys : ∀ k, k ∈ oldProps → k ∈ newProps)
    (hrest : oldRest = [] ∨ newRest = [] ∧ common.length+oldRest.length ≤ 2^32) :
    Patchable (.element ⟨tag,oldProps,styles,common ++ oldRest⟩)
      (.element ⟨tag,newProps,styles,common ++ newRest⟩) := by
  intro _
  rw [strayRowProps_common,sameShapes_common,rowEdits_common]
  refine ⟨rfl,hkeys,?_,?_,?_⟩
  · rcases hrest with rfl | ⟨rfl,-⟩
    · simp [strayRowProps]
    · cases oldRest <;> simp [strayRowProps]
  · rcases hrest with rfl | ⟨rfl,-⟩
    · rfl
    · cases oldRest <;> rfl
  · rcases hrest with rfl | ⟨rfl,hlen⟩
    · simp [rowEdits]
    · have h := removeBlock_tail common oldRest hlen
      cases oldRest with
      | nil => simp [rowEdits]
      | cons old oldRest => simpa [rowEdits] using h

/-- Applying the patches of `diff` to the old root succeeds and leaves the new root
exactly when the new root is `Patchable` from the old one. -/
theorem applyPatches_diff_iff (order : HashOrder String String) (old new : VNode) (t : Terminal)
    (ht : t.Reliable) :
    (∃ t', applyPatches order (diff old new) ⟨old,t⟩ = .ok () ⟨new,t'⟩) ↔ Patchable old new := by
  rw [← patchAll_diff_iff]
  have h := applyPatches_reaches order (diff old new) old t ht
  cases hp : patchAll (diff old new) old with
  | none =>
    rw [hp] at h
    obtain ⟨e,r',he⟩ := h
    simp [he]
  | some root =>
    rw [hp] at h
    obtain ⟨t',-,he⟩ := h
    rw [he]
    constructor
    · rintro ⟨t'',h''⟩
      cases h''
      rfl
    · intro hr
      cases hr
      exact ⟨t',rfl⟩

/-- A terminal that has printed nothing and never fails. -/
def Terminal.quiet : Terminal := ⟨[],0,fun _ => none⟩

theorem applyPatches_diff_text : Terminal.quiet.Reliable ∧
    ((∃ t', applyPatches .sorted (diff (.text "a") (.text "a")) ⟨.text "a",.quiet⟩ =
      .ok () ⟨.text "a",t'⟩) ↔ Patchable (.text "a") (.text "a")) :=
  ⟨fun _ => rfl,applyPatches_diff_iff .sorted (.text "a") (.text "a") .quiet fun _ => rfl⟩

/-- Two texts that differ: the one patch is refused by the text node it is meant for. -/
theorem applyPatches_diff_text_error : Terminal.quiet.Reliable ∧
    ¬∃ t', applyPatches .sorted (diff (.text "a") (.text "b")) ⟨.text "a",.quiet⟩ =
      .ok () ⟨.text "b",t'⟩ := by
  refine ⟨fun _ => rfl,?_⟩
  rintro ⟨t',h⟩
  have hn : patchAll (diff (.text "a") (.text "b")) (.text "a") = none := by decide
  have hr := applyPatches_reaches .sorted (diff (.text "a") (.text "b")) (.text "a") .quiet fun _ => rfl
  rw [hn] at hr
  obtain ⟨e,r',he⟩ := hr
  rw [he] at h
  cases h

end VirtualDom
end NodeRustPty
