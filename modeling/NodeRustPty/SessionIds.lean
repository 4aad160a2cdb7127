import NodeRustPty.MergeSessions

/-! Session ids over a whole run: the next id is one above the largest live id, so
an id comes back once every larger one is gone. -/
namespace NodeRustPty

open Std

namespace Sessions

/-! ### The next id -/

theorem max_eq_ite (a b : UInt32) : max a b = if a ≤ b then b else a := rfl

instance : LawfulOrderMax UInt32 := .of_max_le_iff
  (fun a b c => by
    rw [max_eq_ite]
    simp only [UInt32.le_iff_toNat_le]
    split <;> omega)
  (fun a b => by
    rw [max_eq_ite]
    split
    · exact .inr rfl
    · exact .inl rfl)

theorem max?_keys {m : Sessions} {maxId : UInt32} (h : m.map.keys.max? = some maxId) :
    maxId ∈ m.map ∧ ∀ x ∈ m.map, x ≤ maxId := by
  obtain ⟨hmem,hle⟩ := List.max?_eq_some_iff.mp h
  exact ⟨ExtTreeMap.mem_keys.mp hmem,fun x hx => hle x (ExtTreeMap.mem_keys.mpr hx)⟩

theorem max?_keys_none {m : Sessions} (h : m.map.keys.max? = none) (x : UInt32) : x ∉ m.map := by
  rw [List.max?_eq_none_iff] at h
  rw [← ExtTreeMap.mem_keys,h]
  exact List.not_mem_nil

/-- A merge only takes sessions out of the map. -/
theorem mem_mergeSessions {m : Sessions} {ids : List UInt32} {x : UInt32}
    (h : x ∈ (m.mergeSessions ids).2.sessions.map) : x ∈ m.map := by
  cases ids with
  | nil => exact h
  | cons p rest =>
    cases hp : m.map[p]? with
    | none =>
      simp only [mergeSessions,hp] at h
      exact h
    | some session =>
      obtain ⟨-,hm⟩ := takeSessions_snd m rest
      set merged := (m.takeSessions rest).1.foldl (mergeInto session) ⟨(m.takeSessions rest).2,[]⟩ with hmerged
      have hx : x ∈ merged.sessions.map := by
        simp only [mergeSessions,hp,← hmerged,writeBack] at h
        split at h
        · exact h
        · exact ExtTreeMap.mem_modify.mp h
      rw [hmerged,mergeInto_map,ExtTreeMap.mem_iff_isSome_getElem?,hm] at hx
      split at hx
      · simp at hx
      · exact ExtTreeMap.mem_iff_isSome_getElem?.mpr hx

end Sessions

/-! ### Ids handed out so far -/

/-- The ids handed out start at 1 without a gap, and 0 comes only after the last one. -/
structure Contiguous (issued : List UInt32) : Prop where
  down : ∀ x ∈ issued, ∀ y, y ≠ 0 → y ≤ x → y ∈ issued
  wrapped : 0 ∈ issued → UInt32.ofNat (2^32-1) ∈ issued

namespace Contiguous

variable {issued : List UInt32}

theorem succ_toNat (x : UInt32) : (x+1).toNat = x.toNat+1 ∨ x = UInt32.ofNat (2^32-1) ∧ x+1 = 0 := by
  by_cases h : x.toNat = 2^32-1
  · have hx : x = UInt32.ofNat (2^32-1) := UInt32.toNat_inj.mp h
    exact .inr ⟨hx,by rw [hx]; rfl⟩
  · have hlt := x.toNat_lt
    left
    rw [UInt32.toNat_add]
    exact Nat.mod_eq_of_lt (by simp only [UInt32.toNat_one]; omega)

theorem succ_toNat_le (x : UInt32) : (x+1).toNat ≤ x.toNat+1 := by
  rcases succ_toNat x with hs | ⟨-,hs⟩
  · exact hs.le
  · rw [hs]
    exact Nat.zero_le _

theorem nil : Contiguous [] := ⟨by simp,by simp⟩

/-- One more id, with every smaller one handed out before. -/
theorem concat (h : Contiguous issued) {x : UInt32} (hdown : ∀ y, y ≠ 0 → y ≤ x → y = x ∨ y ∈ issued)
    (hwrapped : x = 0 → UInt32.ofNat (2^32-1) ∈ issued) : Contiguous (issued ++ [x]) where
  down z hz y hy hle := by
    rcases List.mem_append.mp hz with hz | hz
    · exact List.mem_append_left _ (h.down z hz y hy hle)
    · rw [List.mem_singleton] at hz
      subst hz
      rcases hdown y hy hle with rfl | hmem
      · exact List.mem_append_right _ (List.mem_singleton.mpr rfl)
      · exact List.mem_append_left _ hmem
  wrapped h0 := by
    rcases List.mem_append.mp h0 with h0 | h0
    · exact List.mem_append_left _ (h.wrapped h0)
    · exact List.mem_append_left _ (hwrapped (List.mem_singleton.mp h0).symm)

theorem one (h : Contiguous issued) : Contiguous (issued ++ [1]) := by
  refine h.concat (fun y hy hle => .inl ?_) fun h0 => absurd h0 (by decide)
  have h0 : y.toNat ≠ 0 := fun e => hy (UInt32.toNat_inj.mp e)
  have h1 : y.toNat ≤ 1 := UInt32.le_iff_toNat_le.mp hle
  exact UInt32.toNat_inj.mp (by simp only [UInt32.toNat_one]; omega)

theorem succ (h : Contiguous issued) {top : UInt32} (ht : top ∈ issued) : Contiguous (issued ++ [top+1]) := by
  refine h.concat (fun y hy hle => ?_) fun h0 => ?_
  · by_cases he : y = top+1
    · exact .inl he
    · refine .inr (h.down top ht y hy ?_)
      have h0 : y.toNat ≠ 0 := fun e => hy (UInt32.toNat_inj.mp e)
      have hne : y.toNat ≠ (top+1).toNat := fun e => he (UInt32.toNat_inj.mp e)
      have hl := UInt32.le_iff_toNat_le.mp hle
      rw [UInt32.le_iff_toNat_le]
      rcases succ_toNat top with hs | ⟨-,hs⟩
      · omega
      · rw [hs] at hl
        simp only [UInt32.toNat_zero] at hl
        omega
  · rcases succ_toNat top with hs | ⟨hs,-⟩
    · rw [h0] at hs
      simp at hs
    · exact hs ▸ ht

/-- After a wrap every id has been handed out. -/
theorem all_of_zero (h : Contiguous issued) (h0 : 0 ∈ issued) (x : UInt32) : x ∈ issued := by
  by_cases hx : x = 0
  · exact hx ▸ h0
  · refine h.down _ (h.wrapped h0) x hx ?_
    rw [UInt32.le_iff_toNat_le]
    have := x.toNat_lt
    have hmax : (UInt32.ofNat (2^32-1)).toNat = 2^32-1 := rfl
    omega

theorem one_mem_iff (h : Contiguous issued) : 1 ∈ issued ↔ issued ≠ [] := by
  constructor
  · rintro h1 rfl
    simp at h1
  · intro hne
    obtain ⟨x,hx⟩ := List.exists_mem_of_ne_nil issued hne
    by_cases h0 : x = 0
    · exact h.all_of_zero (h0 ▸ hx) 1
    · refine h.down x hx 1 (by decide) ?_
      rw [UInt32.le_iff_toNat_le]
      have hn : x.toNat ≠ 0 := fun e => h0 (UInt32.toNat_inj.mp e)
      simp only [UInt32.toNat_one]
      omega

/-- The id after `top` was handed out before exactly when a larger one was, or after a wrap. -/
theorem succ_mem_iff (h : Contiguous issued) (top : UInt32) :
    top+1 ∈ issued ↔ 0 ∈ issued ∨ ∃ x ∈ issued, top < x := by
  constructor
  · intro hs
    rcases succ_toNat top with he | ⟨-,he⟩
    · exact .inr ⟨top+1,hs,UInt32.lt_iff_toNat_lt.mpr (by omega)⟩
    · exact .inl (he ▸ hs)
  · rintro (h0 | ⟨x,hx,hlt⟩)
    · exact h.all_of_zero h0 _
    · have hn := UInt32.lt_iff_toNat_lt.mp hlt
      rcases succ_toNat top with he | ⟨he,-⟩
      · refine h.down x hx _ ?_ (UInt32.le_iff_toNat_le.mpr (by omega))
        intro h0
        rw [h0] at he
        simp at he
      · have hmax : top.toNat = 2^32-1 := he ▸ rfl
        have := x.toNat_lt
        omega

end Contiguous

/-! ### Runs -/

inductive SessionCall
  | create
  | split (sessionId : UInt32)
  | remove (sessionId : UInt32)
  | merge (sessionIds : List UInt32)
  | closeAll
  deriving DecidableEq

/-- The table of a multiplexer and every id its calls have returned, in order. -/
structure Registry where
  sessions : Sessions
  issued : List UInt32

namespace Registry

def start : Registry := ⟨.empty,[]⟩

def created (result : Except String UInt32) : List UInt32 :=
  match result with
  | .ok id => [id]
  | .error _ => []

def splitInto (result : Except String (UInt32 × UInt32)) : List UInt32 :=
  match result with
  | .ok ids => [ids.1,ids.2]
  | .error _ => []

def step (r : Registry) : SessionCall → Registry
  | .create => ⟨r.sessions.createSession.2,r.issued ++ created r.sessions.createSession.1⟩
  | .split sessionId =>
    let outcome := r.sessions.splitSession sessionId
    ⟨outcome.2,r.issued ++ splitInto outcome.1⟩
  | .remove sessionId => ⟨(r.sessions.removeSession sessionId).2,r.issued⟩
  | .merge sessionIds => ⟨(r.sessions.mergeSessions sessionIds).2.sessions,r.issued⟩
  | .closeAll => ⟨r.sessions.closeAllSessions,r.issued⟩

def run (calls : List SessionCall) : Registry := calls.foldl step start

/-- Live sessions have ids that were handed out, and those have no gap. -/
structure Tracked (r : Registry) : Prop where
  live : ∀ id ∈ r.sessions.map, id ∈ r.issued
  contiguous : Contiguous r.issued

/-- No id handed out is larger than every live one. -/
def LargestLive (r : Registry) : Prop := ∀ x ∈ r.issued, ∃ id ∈ r.sessions.map, x ≤ id

/-- The call allocates only while the largest id handed out is live and the arithmetic of
`u32` has not come round to an id handed out before. -/
def Fresh (r : Registry) : SessionCall → Prop
  | .create => r.LargestLive ∧ 0 ∉ r.issued
  | .split sessionId => sessionId ∈ r.sessions.map →
    r.LargestLive ∧ 0 ∉ r.issued ∧ UInt32.ofNat (2^32-1) ∉ r.issued
  | .remove _ => True
  | .merge _ => True
  | .closeAll => True

/-- Every call of the run meets the condition in the state it is made in. -/
def AllFresh (calls : List SessionCall) : Prop :=
  ∀ before call after, calls = before ++ call::after → (run before).Fresh call

/-- The next id is one above an id handed out, or 1 with nothing live. -/
theorem nextId_cases (m : Sessions) : (∃ top, m.map.keys.max? = some top ∧
      m.createSession = (.ok (top+1),m.insertNew (top+1) [] []) ∧ (m.map.keys.max?.getD 0)+1 = top+1) ∨
    m.map.keys.max? = none ∧ m.createSession = (.ok 1,m.insertNew 1 [] []) := by
  cases h : m.map.keys.max? with
  | some top => exact .inl ⟨top,rfl,by simp [Sessions.createSession,h],rfl⟩
  | none => exact .inr ⟨rfl,by simp [Sessions.createSession,h]⟩

theorem largestLive_iff {r : Registry} {top : UInt32} (h : r.sessions.map.keys.max? = some top) :
    r.LargestLive ↔ ∀ x ∈ r.issued, x ≤ top := by
  obtain ⟨hmem,hle⟩ := Sessions.max?_keys h
  constructor
  · intro hl x hx
    obtain ⟨id,hid,hxid⟩ := hl x hx
    exact UInt32.le_trans hxid (hle id hid)
  · intro hl x hx
    exact ⟨top,hmem,hl x hx⟩

section Allocation

variable {r : Registry} (hr : r.Tracked)

include hr

/-- The next id was handed out before exactly when the call is not fresh. -/
theorem succ_top_mem_iff {top : UInt32} (h : r.sessions.map.keys.max? = some top) :
    top+1 ∈ r.issued ↔ ¬(r.LargestLive ∧ 0 ∉ r.issued) := by
  rw [hr.contiguous.succ_mem_iff,largestLive_iff h,not_and_or,not_not,or_comm]
  simp only [not_forall,UInt32.not_le,exists_prop]

theorem one_mem_iff (h : r.sessions.map.keys.max? = none) :
    1 ∈ r.issued ↔ ¬(r.LargestLive ∧ 0 ∉ r.issued) := by
  rw [hr.contiguous.one_mem_iff]
  constructor
  · intro hne hl
    obtain ⟨x,hx⟩ := List.exists_mem_of_ne_nil _ hne
    obtain ⟨id,hid,-⟩ := hl.1 x hx
    exact Sessions.max?_keys_none h id hid
  · rintro hn he
    exact hn ⟨by simp [LargestLive,he],by simp [he]⟩

/-- The same for the second id of a split, whose first one is fresh. -/
theorem second_mem_iff {top : UInt32} (h : r.sessions.map.keys.max? = some top) (hl : r.LargestLive)
    (h0 : 0 ∉ r.issued) : top+1+1 ∈ r.issued ↔ UInt32.ofNat (2^32-1) ∈ r.issued := by
  have htop : top ∈ r.issued := hr.live top (Sessions.max?_keys h).1
  have hle := (largestLive_iff h).mp hl
  rw [hr.contiguous.succ_mem_iff]
  rcases Contiguous.succ_toNat top with hs | ⟨hmax,hs⟩
  · refine iff_of_false ?_ ?_
    · rintro (hz | ⟨x,hx,hlt⟩)
      · exact h0 hz
      · have h1 := UInt32.lt_iff_toNat_lt.mp hlt
        have h2 := UInt32.le_iff_toNat_le.mp (hle x hx)
        omega
    · intro hm
      have h2 := UInt32.le_iff_toNat_le.mp (hle _ hm)
      have h3 : (UInt32.ofNat (2^32-1)).toNat = 2^32-1 := rfl
      have := (top+1).toNat_lt
      omega
  · refine iff_of_true (.inr ⟨top,htop,?_⟩) (hmax ▸ htop)
    rw [hs,hmax]
    decide

end Allocation

theorem mem_insertNew {m : Sessions} {id x : UInt32} {input output : Bytes} :
    x ∈ (m.insertNew id input output).map ↔ x = id ∨ x ∈ m.map := by
  rw [Sessions.map_insertNew,ExtTreeMap.mem_insert,LawfulEqCmp.compare_eq_iff_eq,eq_comm]

theorem mem_erase {m : Sessions} {id x : UInt32} (h : x ∈ (m.erase id).map) : x ∈ m.map :=
  ExtTreeMap.mem_of_mem_erase h

/-- A split leaves the other sessions and the two above the largest live id. -/
theorem mem_splitSession {m : Sessions} {sessionId top : UInt32} (hid : sessionId ∈ m.map)
    (h : m.map.keys.max? = some top) : ∃ m', m.splitSession sessionId = (.ok (top+1,top+1+1),m') ∧
      ∀ x, x ∈ m'.map ↔ x ≠ sessionId ∧ (x = top+1+1 ∨ x = top+1 ∨ x ∈ m.map) := by
  obtain ⟨session,hs⟩ := Option.isSome_iff_exists.mp (ExtTreeMap.mem_iff_isSome_getElem?.mp hid)
  simp only [Sessions.splitSession,hs,h,Option.getD_some]
  refine ⟨_,rfl,fun x => ?_⟩
  rw [Sessions.map_erase,ExtTreeMap.mem_erase,mem_insertNew,mem_insertNew,ne_eq,LawfulEqCmp.compare_eq_iff_eq,eq_comm]

theorem splitSession_live {m : Sessions} {sessionId top : UInt32} (hid : sessionId ∈ m.map)
    (h : m.map.keys.max? = some top) : ∃ m', m.splitSession sessionId = (.ok (top+1,top+1+1),m') ∧
      ∀ x ∈ m'.map, x = top+1+1 ∨ x = top+1 ∨ x ∈ m.map := by
  obtain ⟨m',hs,hm'⟩ := mem_splitSession hid h
  exact ⟨m',hs,fun x hx => ((hm' x).mp hx).2⟩

theorem splitSession_dead {m : Sessions} {sessionId : UInt32} (hid : sessionId ∉ m.map) :
    m.splitSession sessionId = (.error (Sessions.notFound sessionId),m) := by
  simp [Sessions.splitSession,ExtTreeMap.getElem?_eq_none hid]

theorem max?_of_mem {m : Sessions} {id : UInt32} (h : id ∈ m.map) : ∃ top, m.map.keys.max? = some top := by
  cases hm : m.map.keys.max? with
  | some top => exact ⟨top,rfl⟩
  | none => exact absurd h (Sessions.max?_keys_none hm id)

theorem step_tracked {r : Registry} (hr : r.Tracked) (call : SessionCall) : (r.step call).Tracked := by
  cases call with
  | create =>
    rcases nextId_cases r.sessions with ⟨top,hmax,hc,-⟩ | ⟨hmax,hc⟩
    · have htop := hr.live top (Sessions.max?_keys hmax).1
      simp only [step,hc,created]
      refine ⟨fun id hid => ?_,hr.contiguous.succ htop⟩
      rcases mem_insertNew.mp hid with rfl | hid
      · simp
      · exact List.mem_append_left _ (hr.live id hid)
    · simp only [step,hc,created]
      refine ⟨fun id hid => ?_,hr.contiguous.one⟩
      rcases mem_insertNew.mp hid with rfl | hid
      · simp
      · exact List.mem_append_left _ (hr.live id hid)
  | split sessionId =>
    by_cases hid : sessionId ∈ r.sessions.map
    · obtain ⟨top,hmax⟩ := max?_of_mem hid
      obtain ⟨m',hs,hm'⟩ := splitSession_live hid hmax
      have htop := hr.live top (Sessions.max?_keys hmax).1
      simp only [step,hs,splitInto]
      refine ⟨fun id hid => ?_,?_⟩
      · rcases hm' id hid with rfl | rfl | hid
        · simp
        · simp
        · exact List.mem_append_left _ (hr.live id hid)
      · have h := (hr.contiguous.succ htop).succ
          (List.mem_append_right _ (List.mem_singleton.mpr rfl))
        rwa [List.append_assoc] at h
    · simpa [step,splitSession_dead hid,splitInto] using ⟨hr.live,hr.contiguous⟩
  | remove sessionId =>
    refine ⟨fun id hid => hr.live id ?_,hr.contiguous⟩
    simp only [step,Sessions.removeSession] at hid
    split at hid
    · exact mem_erase hid
    · exact hid
  | merge sessionIds =>
    exact ⟨fun id hid => hr.live id (Sessions.mem_mergeSessions hid),hr.contiguous⟩
  | closeAll =>
    refine ⟨fun id hid => ?_,hr.contiguous⟩
    simp [step,Sessions.closeAllSessions] at hid

theorem nodup_concat_iff (ids : List UInt32) (id : UInt32) :
    (ids ++ [id]).Nodup ↔ ids.Nodup ∧ id ∉ ids := by
  rw [List.nodup_append_comm,List.singleton_append,List.nodup_cons,and_comm]

theorem succ_ne (x : UInt32) : x+1 ≠ x := by
  intro e
  have h := congrArg UInt32.toNat e
  rcases Contiguous.succ_toNat x with hs | ⟨hs,hz⟩
  · omega
  · rw [hs] at e
    exact absurd e (by decide)

/-- One call returns ids not handed out before exactly when it is fresh. -/
theorem step_nodup_iff {r : Registry} (hr : r.Tracked) (call : SessionCall) :
    (r.step call).issued.Nodup ↔ r.issued.Nodup ∧ r.Fresh call := by
  cases call with
  | create =>
    rcases nextId_cases r.sessions with ⟨top,hmax,hc,-⟩ | ⟨hmax,hc⟩
    · simp only [step,hc,created,Fresh,nodup_concat_iff,succ_top_mem_iff hr hmax,not_not]
    · simp only [step,hc,created,Fresh,nodup_concat_iff,one_mem_iff hr hmax,not_not]
  | split sessionId =>
    by_cases hid : sessionId ∈ r.sessions.map
    · obtain ⟨top,hmax⟩ := max?_of_mem hid
      obtain ⟨m',hs,-⟩ := splitSession_live hid hmax
      have hpair : r.issued ++ [top+1,top+1+1] = r.issued ++ [top+1] ++ [top+1+1] := by simp
      simp only [step,hs,splitInto,Fresh,hid,true_implies,hpair]
      rw [nodup_concat_iff,nodup_concat_iff,succ_top_mem_iff hr hmax,not_not,List.mem_append,
        List.mem_singleton,not_or,and_assoc,and_iff_left (succ_ne _)]
      constructor
      · rintro ⟨hn,⟨hl,h0⟩,h2⟩
        exact ⟨hn,hl,h0,fun hm => h2 ((second_mem_iff hr hmax hl h0).mpr hm)⟩
      · rintro ⟨hn,hl,h0,hm⟩
        exact ⟨hn,⟨hl,h0⟩,fun h2 => hm ((second_mem_iff hr hmax hl h0).mp h2)⟩
    · simp [step,splitSession_dead hid,splitInto,Fresh,hid]
  | remove sessionId => simp [step,Fresh]
  | merge sessionIds => simp [step,Fresh]
  | closeAll => simp [step,Fresh]

theorem run_concat (calls : List SessionCall) (call : SessionCall) :
    run (calls ++ [call]) = (run calls).step call := by
  simp [run]

theorem run_tracked (calls : List SessionCall) : (run calls).Tracked := by
  induction calls using List.reverseRecOn with
  | nil => exact ⟨by simp [run,start],.nil⟩
  | append_singleton calls call ih =>
    rw [run_concat]
    exact step_tracked ih call

/-- What holds of every call of a run and the calls before it, one call at a time. -/
theorem forall_call_concat {p : List SessionCall → SessionCall → Prop} (calls : List SessionCall) (call : SessionCall) :
    (∀ before c after, calls ++ [call] = before ++ c::after → p before c) ↔
      (∀ before c after, calls = before ++ c::after → p before c) ∧ p calls call := by
  constructor
  · intro h
    refine ⟨fun before c after e => h before c (after ++ [call]) (by simp [e]),h calls call [] rfl⟩
  · rintro ⟨hcalls,hcall⟩ before c after e
    cases after using List.reverseRecOn with
    | nil =>
      obtain ⟨rfl,rfl⟩ := List.append_singleton_inj.mp e
      exact hcall
    | append_singleton after last =>
      rw [← List.cons_append,← List.append_assoc] at e
      exact hcalls before c after (List.append_inj_left' e rfl)

theorem allFresh_concat (calls : List SessionCall) (call : SessionCall) :
    AllFresh (calls ++ [call]) ↔ AllFresh calls ∧ (run calls).Fresh call :=
  forall_call_concat calls call

/-- The ids that a run returns are pairwise distinct exactly when every create, and every
split of a live session, is made while the largest id handed out is still live. -/
theorem run_nodup_iff (calls : List SessionCall) : (run calls).issued.Nodup ↔ AllFresh calls := by
  induction calls using List.reverseRecOn with
  | nil => simp [run,start,AllFresh]
  | append_singleton calls call ih =>
    rw [run_concat,step_nodup_iff (run_tracked calls),ih,allFresh_concat]

/-- Creating, removing and creating returns one id twice. -/
theorem run_repeats : (run [.create,.remove 1,.create]).issued = [1,1] ∧
    ¬(run [.create,.remove 1,.create]).issued.Nodup := by
  have h : (run [.create,.remove 1,.create]).issued = [1,1] := by decide
  exact ⟨h,by simp [h]⟩

end Registry
end NodeRustPty
