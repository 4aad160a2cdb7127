import Mathlib

/-! Hash maps are iterated in an order the program cannot rely on. A map is an
extensional tree map here; an iteration order is any enumeration of its entries. -/
namespace NodeRustPty

open Std

/-- An enumeration of the entries of every map, in an order of its own. -/
structure HashOrder (α β : Type) [Ord α] [TransOrd α] where
  entries : ExtTreeMap α β → List (α × β)
  perm : ∀ m, (entries m).Perm m.toList

namespace HashOrder

variable {α β : Type} [Ord α] [TransOrd α]

/-- The order of the keys, one possible iteration order. -/
def sorted : HashOrder α β where
  entries := ExtTreeMap.toList
  perm _ := .refl _

theorem mem_entries [LawfulEqOrd α] (order : HashOrder α β) (m : ExtTreeMap α β) (k : α) (v : β) :
    (k,v) ∈ order.entries m ↔ m[k]? = some v := by
  rw [(order.perm m).mem_iff,ExtTreeMap.mem_toList_iff_getElem?_eq_some]

theorem entries_distinct (order : HashOrder α β) (m : ExtTreeMap α β) :
    (order.entries m).Pairwise (fun a b => ¬compare a.1 b.1 = .eq) := by
  refine (List.Perm.pairwise_iff ?_ (order.perm m)).mpr m.distinct_keys_toList
  intro a b hab hba
  exact hab (OrientedCmp.eq_symm hba)

theorem mem_map_fst_entries [LawfulEqOrd α] (order : HashOrder α β) (m : ExtTreeMap α β) (k : α) :
    k ∈ (order.entries m).map Prod.fst ↔ k ∈ m := by
  rw [((order.perm m).map Prod.fst).mem_iff,ExtTreeMap.map_fst_toList_eq_keys,ExtTreeMap.mem_keys]

theorem nodup_keys [LawfulEqOrd α] (order : HashOrder α β) (m : ExtTreeMap α β) :
    ((order.entries m).map Prod.fst).Nodup := by
  refine List.pairwise_map.mpr ((order.entries_distinct m).imp ?_)
  intro a b hne he
  refine hne ?_
  rw [he]
  exact ReflCmp.compare_self

/-- Looking a key up in the entries is looking it up in the map. -/
theorem lookup_entries [BEq α] [LawfulBEq α] [LawfulEqOrd α] (order : HashOrder α β) (m : ExtTreeMap α β) (k : α) :
    (order.entries m).lookup k = m[k]? := by
  have hlookup (entries : List (α × β)) (hnodup : (entries.map Prod.fst).Nodup) (v : β) (h : (k,v) ∈ entries) :
      entries.lookup k = some v := by
    induction entries with
    | nil => simp at h
    | cons entry entries ih =>
      obtain ⟨hnew,hrest⟩ := List.nodup_cons.mp hnodup
      rw [List.lookup_cons]
      rcases List.mem_cons.mp h with rfl | hlater
      · simp
      · have hne : (k == entry.1) = false := by
          simpa using fun e : k = entry.1 => hnew (e ▸ List.mem_map_of_mem (f := Prod.fst) hlater)
        rw [hne]
        exact ih hrest hlater
  cases hk : m[k]? with
  | some v => exact hlookup _ (order.nodup_keys m) v ((order.mem_entries m k v).mpr hk)
  | none =>
    rw [List.lookup_eq_none_iff]
    intro entry hentry
    have hmem := (order.mem_entries m entry.1 entry.2).mp hentry
    simpa using fun e : k = entry.1 => by simp [← e,hk] at hmem

/-- The order of the keys, but for one key that comes last. -/
def lastly [DecidableEq α] (key : α) : HashOrder α β where
  entries m := m.toList.filter (·.1 ≠ key) ++ m.toList.filter (·.1 = key)
  perm m := by
    have h := List.filter_append_perm (fun entry : α × β => decide (entry.1 ≠ key)) m.toList
    simpa using h

theorem lastly_entries [DecidableEq α] [LawfulEqOrd α] {key : α} {m : ExtTreeMap α β} {value : β}
    (h : m[key]? = some value) : ∃ front, (lastly key).entries m = front ++ [(key,value)] := by
  have hmem : (key,value) ∈ m.toList.filter (·.1 = key) := by
    simp [ExtTreeMap.mem_toList_iff_getElem?_eq_some,h]
  have hall : ∀ entry ∈ m.toList.filter (·.1 = key), entry = (key,value) := by
    rintro ⟨k,v⟩ hentry
    obtain ⟨htoList,rfl⟩ : (k,v) ∈ m.toList ∧ k = key := by simpa using hentry
    rw [ExtTreeMap.mem_toList_iff_getElem?_eq_some,h] at htoList
    rw [Option.some.inj htoList]
  show ∃ front, m.toList.filter (·.1 ≠ key) ++ m.toList.filter (·.1 = key) = front ++ [(key,value)]
  generalize m.toList.filter (·.1 = key) = back at hmem hall
  cases back using List.reverseRecOn with
  | nil => simp at hmem
  | append_singleton back last =>
    rw [hall last (by simp),← List.append_assoc]
    exact ⟨_,rfl⟩

/-- Inserting the entries one by one gives the same map in every order. -/
theorem insertMany_entries [DecidableEq α] [LawfulEqOrd α] (order : HashOrder α β)
    (m updates : ExtTreeMap α β) : m.insertMany (order.entries updates) = m ∪ updates := by
  apply ExtTreeMap.ext_getElem?
  intro k
  rw [ExtTreeMap.getElem?_union]
  cases hk : updates[k]? with
  | none =>
    have hn : k ∉ (order.entries updates).map Prod.fst := by
      rw [mem_map_fst_entries,ExtTreeMap.mem_iff_isSome_getElem?,hk]
      simp
    rw [ExtTreeMap.getElem?_insertMany_list_of_contains_eq_false (by simpa using hn)]
    rfl
  | some v =>
    have hm := (order.mem_entries updates k v).mpr hk
    rw [ExtTreeMap.getElem?_insertMany_list_of_mem ReflCmp.compare_self
      (order.entries_distinct updates) hm]
    rfl

end HashOrder

/-- With distinct keys an entry is all that stands under its key. -/
theorem filter_eq_singleton {α β : Type} [DecidableEq α] {entries : List (α × β)}
    (hnodup : (entries.map Prod.fst).Nodup) {key : α} {value : β} (h : (key,value) ∈ entries) :
    entries.filter (fun entry => entry.1 = key) = [(key,value)] := by
  induction entries with
  | nil => simp at h
  | cons entry entries ih =>
    obtain ⟨hhead,hrest⟩ := List.nodup_cons.mp (List.map_cons .. ▸ hnodup)
    rcases List.mem_cons.mp h with rfl | h
    · rw [List.filter_cons_of_pos (by simp),List.filter_eq_nil_iff.mpr]
      intro other hother heq
      have hmem := List.mem_map_of_mem (f := Prod.fst) hother
      rw [of_decide_eq_true heq] at hmem
      exact hhead hmem
    · have hne : entry.1 ≠ key := fun heq =>
        hhead (heq ▸ List.mem_map_of_mem (f := Prod.fst) h)
      rw [List.filter_cons_of_neg (by simpa using hne),ih hrest h]

section Lookup

variable {α β : Type} [Ord α] [TransOrd α] [LawfulEqOrd α] [DecidableEq α] (m : ExtTreeMap α β)

theorem getElem?_insert_if (k x : α) (v : β) : (m.insert k v)[x]? = if x = k then some v else m[x]? := by
  rw [ExtTreeMap.getElem?_insert]
  simp only [LawfulEqCmp.compare_eq_iff_eq,@eq_comm _ x k]

theorem getElem?_erase_if (k x : α) : (m.erase k)[x]? = if x = k then none else m[x]? := by
  rw [ExtTreeMap.getElem?_erase]
  simp only [LawfulEqCmp.compare_eq_iff_eq,@eq_comm _ x k]

theorem getElem?_modify_if (k x : α) (f : β → β) :
    (m.modify k f)[x]? = if x = k then m[x]?.map f else m[x]? := by
  rw [ExtTreeMap.getElem?_modify]
  by_cases h : x = k
  · simp [h]
  · have : ¬compare k x = .eq := fun e => h (LawfulEqCmp.eq_of_compare e).symm
    simp [h,this]

end Lookup
end NodeRustPty
