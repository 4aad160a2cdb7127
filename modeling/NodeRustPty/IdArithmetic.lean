import NodeRustPty.SessionRuns

/-! The ids that `create_session` and `split_session` compute, as numbers: when the next ones
are above every live id, and how far a run brings them. -/
namespace NodeRustPty

open Std

namespace Sessions

/-- The largest live id, or 0 when no session is live. -/
def largest (m : Sessions) : ℕ := (m.map.keys.max?.map UInt32.toNat).getD 0

/-- What the next create and the next split compute is right as numbers, and overwrites no live session. -/
structure Exact (m : Sessions) : Prop where
  create : ∃ streamId m', m.createSession = (.ok streamId,m') ∧ streamId.toNat = m.largest+1 ∧ streamId ∉ m.map ∧
    ∀ x ∈ m.map, m.Untouched m' x
  split : ∀ sessionId ∈ m.map, ∃ a b m', m.splitSession sessionId = (.ok (a,b),m') ∧ a.toNat = m.largest+1 ∧
    b.toNat = m.largest+1+1 ∧ a ∉ m.map ∧ b ∉ m.map ∧ ∀ x ∈ m.map, x ≠ sessionId → m.Untouched m' x

variable {m : Sessions} {top : UInt32}

theorem largest_eq (h : m.map.keys.max? = some top) : m.largest = top.toNat := by
  rw [largest,h]
  rfl

/-- The second id of a split would not fit. -/
theorem Exact.bounded (hexact : m.Exact) : m.Bounded := by
  intro id hid
  obtain ⟨top,hmax⟩ := Registry.max?_of_mem hid
  obtain ⟨a,b,m',-,-,hb,-⟩ := hexact.split id hid
  have hle := UInt32.le_iff_toNat_le.mp ((max?_keys hmax).2 id hid)
  have hlt := b.toNat_lt
  rw [hb,largest_eq hmax] at hlt
  omega

theorem Bounded.exact (hm : m.Bounded) : m.Exact where
  create := by
    rcases Registry.nextId_cases m with ⟨top,hmax,hc,-⟩ | ⟨hmax,hc⟩
    · have hnew := (hm.nextIds hmax).1
      refine ⟨top+1,_,hc,?_,hnew,fun x hx => insertNew_untouched ?_ _ _⟩
      · rw [largest_eq hmax]
        exact (hm.next_toNat (max?_keys hmax).1).1
      · rintro rfl
        exact hnew hx
    · refine ⟨1,_,hc,?_,max?_keys_none hmax 1,fun x hx => absurd hx (max?_keys_none hmax x)⟩
      rw [largest,hmax]
      rfl
  split sessionId hid := by
    obtain ⟨top,hmax⟩ := Registry.max?_of_mem hid
    obtain ⟨h1,h2⟩ := hm.next_toNat (max?_keys hmax).1
    obtain ⟨ha,hb⟩ := hm.nextIds hmax
    obtain ⟨m',hsplit,-⟩ := Registry.mem_splitSession hid hmax
    obtain ⟨buffers,hbuffers⟩ := Option.isSome_iff_exists.mp ((session?_isSome m sessionId).mpr hid)
    obtain ⟨a,b,hok,-,-,-,-,-,-,hothers⟩ := splitSession_spec hm hbuffers
    rw [hsplit] at hok hothers
    obtain ⟨rfl,rfl⟩ : top+1 = a ∧ top+1+1 = b := by simpa using hok
    refine ⟨top+1,top+1+1,m',hsplit,?_,?_,ha,hb,fun x hx hne => hothers x ?_ ?_ hne⟩
    · rw [h1,largest_eq hmax]
    · rw [h2,h1,largest_eq hmax]
    · exact fun e => ha (e ▸ hx)
    · exact fun e => hb (e ▸ hx)

/-- The next ids are right exactly when the largest live one leaves room for two more. -/
theorem exact_iff (m : Sessions) : m.Exact ↔ m.Bounded := ⟨Exact.bounded,Bounded.exact⟩

/-- A create takes one id. -/
theorem createSession_bounded_iff (hm : m.Bounded) :
    m.createSession.2.Bounded ↔ ∀ id ∈ m.map, id.toNat ≤ 2^32-4 := by
  rcases Registry.nextId_cases m with ⟨top,hmax,hc,-⟩ | ⟨hmax,hc⟩
  · obtain ⟨hmem,hle⟩ := max?_keys hmax
    have hnext := (hm.next_toNat hmem).1
    rw [hc]
    constructor
    · intro hbounded id hid
      have htop := hbounded (top+1) (Registry.mem_insertNew.mpr (.inl rfl))
      have hid := UInt32.le_iff_toNat_le.mp (hle id hid)
      omega
    · intro hlimit id hid
      rcases Registry.mem_insertNew.mp hid with rfl | hid
      · have htop := hlimit top hmem
        omega
      · exact hm id hid
  · rw [hc]
    refine iff_of_true (fun id hid => ?_) fun id hid => absurd hid (max?_keys_none hmax id)
    rcases Registry.mem_insertNew.mp hid with rfl | hid
    · decide
    · exact hm id hid

/-- A split takes two, and neither is the one that it gives up. -/
theorem splitSession_bounded_iff (hm : m.Bounded) {sessionId : UInt32} (hid : sessionId ∈ m.map) :
    (m.splitSession sessionId).2.Bounded ↔ ∀ id ∈ m.map, id.toNat ≤ 2^32-5 := by
  obtain ⟨top,hmax⟩ := Registry.max?_of_mem hid
  obtain ⟨hmem,hle⟩ := max?_keys hmax
  obtain ⟨h1,h2⟩ := hm.next_toNat hmem
  obtain ⟨m',hs,hm'⟩ := Registry.mem_splitSession hid hmax
  rw [hs]
  constructor
  · intro hbounded id hlive
    have hne : top+1+1 ≠ sessionId := fun e => (hm.nextIds hmax).2 (e ▸ hid)
    have htop := hbounded (top+1+1) ((hm' _).mpr ⟨hne,.inl rfl⟩)
    have hid := UInt32.le_iff_toNat_le.mp (hle id hlive)
    omega
  · intro hlimit id hlive
    have htop := hlimit top hmem
    rcases ((hm' id).mp hlive).2 with rfl | rfl | hlive
    · omega
    · omega
    · exact hm id hlive

end Sessions

namespace Registry

/-- The call leaves room for the ids of the next create or split. -/
def Within (r : Registry) : SessionCall → Prop
  | .create => ∀ id ∈ r.sessions.map, id.toNat ≤ 2^32-4
  | .split sessionId => sessionId ∈ r.sessions.map → ∀ id ∈ r.sessions.map, id.toNat ≤ 2^32-5
  | .remove _ => True
  | .merge _ => True
  | .closeAll => True

/-- Every call of the run does in the state it is made in. -/
def AllWithin (calls : List SessionCall) : Prop :=
  ∀ before call after, calls = before ++ call::after → (run before).Within call

theorem removeSession_mem {m : Sessions} {sessionId x : UInt32} :
    x ∈ (m.removeSession sessionId).2.map ↔ x ≠ sessionId ∧ x ∈ m.map := by
  unfold Sessions.removeSession
  split
  · rw [Sessions.map_erase,ExtTreeMap.mem_erase,ne_eq,LawfulEqCmp.compare_eq_iff_eq,eq_comm]
  · next hdead =>
    refine ⟨fun hx => ⟨?_,hx⟩,And.right⟩
    rintro rfl
    exact hdead hx

/-- The ids still fit after a call exactly when it was within the limit. -/
theorem step_bounded_iff {r : Registry} (hr : r.sessions.Bounded) (call : SessionCall) :
    (r.step call).sessions.Bounded ↔ r.Within call := by
  cases call with
  | create => exact Sessions.createSession_bounded_iff hr
  | split sessionId =>
    by_cases hid : sessionId ∈ r.sessions.map
    · rw [Within,forall_prop_of_true hid]
      exact Sessions.splitSession_bounded_iff hr hid
    · simp only [step,splitSession_dead hid,Within]
      exact iff_of_true hr fun h => absurd h hid
  | remove sessionId => exact iff_of_true (fun id hid => hr id (removeSession_mem.mp hid).2) trivial
  | merge sessionIds => exact iff_of_true (fun id hid => hr id (Sessions.mem_mergeSessions hid)) trivial
  | closeAll => exact iff_of_true (fun id hid => absurd hid ExtTreeMap.not_mem_empty) trivial

theorem allWithin_concat (calls : List SessionCall) (call : SessionCall) :
    AllWithin (calls ++ [call]) ↔ AllWithin calls ∧ (run calls).Within call :=
  forall_call_concat calls call

/-- Every state that a run passes through computes its next ids right exactly when each create
is made with no live id above 2^32-4 and each split of a live session with none above 2^32-5. -/
theorem run_exact_iff (calls : List SessionCall) :
    (∀ before, before <+: calls → (run before).sessions.Exact) ↔ AllWithin calls := by
  induction calls using List.reverseRecOn with
  | nil =>
    refine iff_of_true (fun before hbefore => ?_) (by simp [AllWithin])
    rw [List.prefix_nil.mp hbefore]
    exact Sessions.Bounded.exact fun id hid => absurd hid ExtTreeMap.not_mem_empty
  | append_singleton calls call ih =>
    simp only [List.prefix_concat_iff,or_imp,forall_and,forall_eq,ih,allWithin_concat]
    rw [and_comm,run_concat,Sessions.exact_iff]
    refine and_congr_right fun hcalls => step_bounded_iff ?_ call
    exact (ih.mpr hcalls calls (List.prefix_refl calls)).bounded

/-! ### How far a run gets -/

/-- Every call raises the largest live id by two at most. -/
theorem step_le {r : Registry} {n : ℕ} (hr : ∀ id ∈ r.sessions.map, id.toNat ≤ n) (call : SessionCall) :
    ∀ id ∈ (r.step call).sessions.map, id.toNat ≤ n+2 := by
  intro id hid
  cases call with
  | create => exact Sessions.createSession_le hr id hid
  | split sessionId => exact Sessions.splitSession_le hr sessionId id hid
  | remove sessionId => exact (hr id (removeSession_mem.mp hid).2).trans (Nat.le_add_right n 2)
  | merge sessionIds => exact (hr id (Sessions.mem_mergeSessions hid)).trans (Nat.le_add_right n 2)
  | closeAll => exact absurd hid ExtTreeMap.not_mem_empty

theorem run_le (calls : List SessionCall) : ∀ id ∈ (run calls).sessions.map, id.toNat ≤ 2*calls.length := by
  induction calls using List.reverseRecOn with
  | nil => exact fun id hid => absurd hid ExtTreeMap.not_mem_empty
  | append_singleton calls call ih =>
    rw [run_concat,List.length_append,List.length_singleton,Nat.mul_add]
    exact step_le ih call

/-- Two thousand million calls are never enough. -/
theorem exact_of_length {calls : List SessionCall} (h : calls.length ≤ 2^31-2) : (run calls).sessions.Exact := by
  refine Sessions.Bounded.exact fun id hid => ?_
  have hle := run_le calls id hid
  omega

/-- The calls that take one session at most. -/
def Single : SessionCall → Prop
  | .create => True
  | .split _ => True
  | .remove _ => True
  | .merge _ => False
  | .closeAll => False

/-- A session is split and the first of the two removed, over and over. -/
def climb : ℕ → List SessionCall
  | 0 => [.create]
  | n+1 => climb n ++ [.split (UInt32.ofNat (2*n+1)),.remove (UInt32.ofNat (2*n+2))]

theorem single_climb (n : ℕ) : ∀ call ∈ climb n, Single call := by
  induction n with
  | zero => simp [climb,Single]
  | succ n ih =>
    rw [climb,List.forall_mem_append]
    exact ⟨ih,by simp [Single]⟩

theorem ofNat_toNat {n : ℕ} (h : n < 2^32) : (UInt32.ofNat n).toNat = n := UInt32.toNat_ofNat_of_lt' h

/-- With one session live at a time the ids grow by two a round. -/
theorem mem_climb {n : ℕ} (hn : 2*n+1 < 2^32) (x : UInt32) :
    x ∈ (run (climb n)).sessions.map ↔ x.toNat = 2*n+1 := by
  induction n generalizing x with
  | zero =>
    rw [climb,← List.nil_append [SessionCall.create],run_concat]
    change x ∈ (Sessions.empty.insertNew 1 [] []).map ↔ _
    rw [mem_insertNew,← UInt32.toNat_inj]
    exact or_iff_left ExtTreeMap.not_mem_empty
  | succ n ih =>
    have hlive := ih (by omega)
    have hbounded : (run (climb n)).sessions.Bounded := fun id hid => by
      have hid := (hlive id).mp hid
      omega
    have hold : (UInt32.ofNat (2*n+1)).toNat = 2*n+1 := ofNat_toNat (by omega)
    have hleft : (UInt32.ofNat (2*n+2)).toNat = 2*n+2 := ofNat_toNat (by omega)
    have hid := (hlive (UInt32.ofNat (2*n+1))).mpr hold
    obtain ⟨top,hmax⟩ := max?_of_mem hid
    have hmem := (Sessions.max?_keys hmax).1
    have htop := (hlive top).mp hmem
    obtain ⟨h1,h2⟩ := hbounded.next_toNat hmem
    obtain ⟨m',hs,hm'⟩ := mem_splitSession hid hmax
    rw [climb,List.append_cons,run_concat,run_concat]
    simp only [step,hs]
    rw [removeSession_mem,hm',hlive]
    simp only [← UInt32.toNat_inj,ne_eq,hold,hleft,h1,h2]
    omega

/-- After the last round the next id is 0, and the one after it is 0 again. -/
theorem create_overwrites : ∃ calls, (∀ call ∈ calls, Single call) ∧
    ∃ id ∈ (run calls).sessions.map, (run calls).sessions.createSession.1 = .ok id := by
  obtain ⟨n,hn⟩ : ∃ n, n = 2^31-1 := ⟨_,rfl⟩
  have hlive := mem_climb (n := n) (by omega)
  have hwraps (x : UInt32) (hx : x.toNat = 2*n+1) : x+1 = 0 := by
    rcases Contiguous.succ_toNat x with hs | ⟨-,hs⟩
    · have hlt := (x+1).toNat_lt
      omega
    · exact hs
  have hlast : UInt32.ofNat (2*n+1) ∈ (run (climb n)).sessions.map :=
    (hlive _).mpr (ofNat_toNat (by omega))
  obtain ⟨top,hmax⟩ := max?_of_mem hlast
  have htop := (hlive top).mp (Sessions.max?_keys hmax).1
  refine ⟨climb n ++ [.create],?_,0,?_⟩
  · rw [List.forall_mem_append]
    exact ⟨single_climb n,by simp [Single]⟩
  have hnow (x : UInt32) : x ∈ (run (climb n ++ [.create])).sessions.map ↔ x = 0 ∨ x.toNat = 2*n+1 := by
    rcases nextId_cases (run (climb n)).sessions with ⟨y,hy,hc,-⟩ | ⟨hnone,-⟩
    · obtain rfl : y = top := Option.some.inj (hy.symm.trans hmax)
      rw [run_concat]
      simp only [step,hc]
      rw [mem_insertNew,hwraps y htop,hlive]
    · rw [hmax] at hnone
      cases hnone
  refine ⟨(hnow 0).mpr (.inl rfl),?_⟩
  rcases nextId_cases (run (climb n ++ [.create])).sessions with ⟨y,hy,hc,-⟩ | ⟨hnone,-⟩
  · obtain ⟨hmem,hle⟩ := Sessions.max?_keys hy
    have hlarge := UInt32.le_iff_toNat_le.mp (hle top ((hnow top).mpr (.inr htop)))
    rw [hc,hwraps y]
    rcases (hnow y).mp hmem with rfl | hy
    · rw [htop] at hlarge
      exact absurd hlarge (by simp)
    · exact hy
  · exact absurd ((hnow 0).mpr (.inl rfl)) (Sessions.max?_keys_none hnone 0)

theorem run_not_exact : ¬∀ calls, (∀ call ∈ calls, Single call) → (run calls).sessions.Exact := by
  intro h
  obtain ⟨calls,hsingle,id,hid,hc⟩ := create_overwrites
  obtain ⟨streamId,m',hcreate,-,hnew,-⟩ := (h calls hsingle).create
  rw [hcreate] at hc
  obtain rfl := Except.ok.inj hc
  exact hnew hid

end Registry
end NodeRustPty
