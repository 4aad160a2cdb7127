import NodeRustPty.SessionIds

/-! `create_session` as the two steps it takes on the map: it looks for the largest
live id, and later files a session under the id above it. Several calls may be between
their steps at once. -/
namespace NodeRustPty

open Std

/-- The id that a call takes when it looks at the map now. -/
def Sessions.nextStreamId (m : Sessions) : UInt32 :=
  match m.map.keys.max? with
  | some maxId => maxId+1
  | none => 1

/-- Where a call is. A call that has its id also carries how many sessions had been filed when
it looked; a call that is over carries the session it filed. -/
inductive CreateCall
  | waiting
  | scanned (streamId : UInt32) (filed : ℕ)
  | returned (session : PtySession)
  deriving DecidableEq

inductive CreateEvent
  | scan (call : ℕ)
  | insert (call : ℕ)
  deriving DecidableEq

structure Creators where
  sessions : Sessions
  calls : ℕ → CreateCall

namespace Creators

def start (m : Sessions) : Creators := ⟨m,fun _ => .waiting⟩

/-- The call looks at the map. -/
def scanning (s : Creators) (call : ℕ) : Creators :=
  { s with calls := Function.update s.calls call (.scanned s.sessions.nextStreamId s.sessions.next) }

/-- The call files its session under the id it took. -/
def filing (s : Creators) (call : ℕ) (streamId : UInt32) : Creators :=
  ⟨s.sessions.insertNew streamId [] [],Function.update s.calls call (.returned ⟨streamId,[],s.sessions.next⟩)⟩

def step (s : Creators) : CreateEvent → Option Creators
  | .scan call =>
    match s.calls call with
    | .waiting => some (s.scanning call)
    | _ => none
  | .insert call =>
    match s.calls call with
    | .scanned streamId _ => some (s.filing call streamId)
    | _ => none

def run (s : Creators) : List CreateEvent → Option Creators
  | [] => some s
  | event::events => (step s event).bind fun s' => run s' events

/-- The calls that are over returned different ids, each id names the session of its call, and
the sessions there were at first are still there. -/
structure Separate (m : Sessions) (s : Creators) : Prop where
  distinct : ∀ {c d : ℕ} {session session' : PtySession}, s.calls c = .returned session →
    s.calls d = .returned session' → session.streamId = session'.streamId → c = d
  named : ∀ {c : ℕ} {session : PtySession}, s.calls c = .returned session →
    s.sessions.map[session.streamId]? = some session
  kept : ∀ {id : UInt32} {session : PtySession}, m.map[id]? = some session →
    s.sessions.map[id]? = some session

/-- A call files its session only if no other one was filed since it looked, and not under
id 0 while that is live, where the id above the largest possible one is 0 again. -/
def alone (s : Creators) : CreateEvent → Bool
  | .scan _ => true
  | .insert call =>
    match s.calls call with
    | .scanned streamId filed => filed = s.sessions.next ∧ (streamId = 0 → 0 ∉ s.sessions.map)
    | _ => true

/-- Every step of the run meets the condition in its state. -/
def allAlone (s : Creators) : List CreateEvent → Bool
  | [] => true
  | event::events => s.alone event && match step s event with
    | some s' => allAlone s' events
    | none => true

/-! ### One step -/

variable {m : Sessions} {s s' : Creators}

theorem step_scan {call : ℕ} (h : step s (.scan call) = some s') :
    s.calls call = .waiting ∧ s' = s.scanning call := by
  simp only [step] at h
  split at h
  · next hw => exact ⟨hw,(Option.some.inj h).symm⟩
  · simp at h

theorem step_insert {call : ℕ} (h : step s (.insert call) = some s') :
    ∃ streamId filed, s.calls call = .scanned streamId filed ∧ s' = s.filing call streamId := by
  simp only [step] at h
  split at h
  · next streamId filed hs => exact ⟨streamId,filed,hs,(Option.some.inj h).symm⟩
  · simp at h

theorem nextStreamId_of_max? {top : UInt32} (h : m.map.keys.max? = some top) : m.nextStreamId = top+1 := by
  rw [Sessions.nextStreamId,h]

theorem nextStreamId_of_none (h : m.map.keys.max? = none) : m.nextStreamId = 1 := by
  rw [Sessions.nextStreamId,h]

/-- The id above the largest one is free, unless it is 0 again. -/
theorem nextStreamId_not_mem (h : m.nextStreamId = 0 → 0 ∉ m.map) : m.nextStreamId ∉ m.map := by
  cases hmax : m.map.keys.max? with
  | none =>
    rw [nextStreamId_of_none hmax]
    exact Sessions.max?_keys_none hmax 1
  | some top =>
    rw [nextStreamId_of_max? hmax] at h ⊢
    rcases Contiguous.succ_toNat top with hs | ⟨-,hs⟩
    · intro hin
      have hle := UInt32.le_iff_toNat_le.mp ((Sessions.max?_keys hmax).2 _ hin)
      omega
    · have h0 := h hs
      rwa [hs]

/-- What holds in every state of a run: entries come from the start or from a call that is
over, buffers are allocated in turn, and while nothing has been overwritten an id that was looked
up is the next one or taken. -/
structure Tracked (m : Sessions) (s : Creators) : Prop where
  origin : ∀ {id : UInt32} {session : PtySession}, s.sessions.map[id]? = some session →
    m.map[id]? = some session ∨ ∃ c, s.calls c = .returned session
  grown : m.next ≤ s.sessions.next
  fresh : ∀ {c : ℕ} {session : PtySession}, s.calls c = .returned session →
    session.outputBuffer < s.sessions.next
  filed_le : ∀ {c : ℕ} {id : UInt32} {filed : ℕ}, s.calls c = .scanned id filed → filed ≤ s.sessions.next
  next_or_taken : s.Separate m → ∀ {c : ℕ} {id : UInt32} {filed : ℕ}, s.calls c = .scanned id filed →
    if filed = s.sessions.next then id = s.sessions.nextStreamId else id ∈ s.sessions.map

theorem start_tracked (m : Sessions) : Tracked m (start m) where
  origin h := .inl h
  grown := le_rfl
  fresh h := by simp [start] at h
  filed_le h := by simp [start] at h
  next_or_taken _ _ _ _ h := by simp [start] at h

theorem start_separate (m : Sessions) : Separate m (start m) where
  distinct h := by simp [start] at h
  named h := by simp [start] at h
  kept h := h

theorem scanning_calls (call c : ℕ) : (s.scanning call).calls c =
    if c = call then .scanned s.sessions.nextStreamId s.sessions.next else s.calls c :=
  Function.update_apply _ _ _ _

section Insert

variable {call : ℕ} {streamId : UInt32} {filed : ℕ}

theorem filing_map (x : UInt32) : (s.filing call streamId).sessions.map[x]? =
    if x = streamId then some ⟨streamId,[],s.sessions.next⟩ else s.sessions.map[x]? := by
  rw [filing,Sessions.map_insertNew,getElem?_insert_if]

theorem filing_calls (c : ℕ) : (s.filing call streamId).calls c =
    if c = call then .returned ⟨streamId,[],s.sessions.next⟩ else s.calls c := Function.update_apply _ _ _ _

theorem filing_returned {c : ℕ} {session : PtySession}
    (h : (s.filing call streamId).calls c = .returned session) :
    c = call ∧ session = ⟨streamId,[],s.sessions.next⟩ ∨ c ≠ call ∧ s.calls c = .returned session := by
  rw [filing_calls] at h
  split at h
  · exact .inl ⟨‹_›,(CreateCall.returned.inj h).symm⟩
  · exact .inr ⟨‹_›,h⟩

theorem filing_scanned {c : ℕ} {id : UInt32} {n : ℕ}
    (h : (s.filing call streamId).calls c = .scanned id n) : s.calls c = .scanned id n := by
  rw [filing_calls] at h
  split at h
  · simp at h
  · exact h

theorem returned_filing (hcall : s.calls call = .scanned streamId filed) {c : ℕ} {session : PtySession}
    (hc : s.calls c = .returned session) : (s.filing call streamId).calls c = .returned session := by
  have hne : c ≠ call := by
    rintro rfl
    rw [hcall] at hc
    simp at hc
  rw [filing_calls,if_neg hne,hc]

/-- Filing a session keeps the sessions apart exactly when its id was free. -/
theorem filing_separate_iff (h : Tracked m s) (hcall : s.calls call = .scanned streamId filed) :
    Separate m (s.filing call streamId) ↔ Separate m s ∧ streamId ∉ s.sessions.map := by
  -- an entry whose buffer was there before is not the one filed now
  have hold {x : UInt32} {session : PtySession} (hlt : session.outputBuffer < s.sessions.next)
      (hx : (s.filing call streamId).sessions.map[x]? = some session) :
      x ≠ streamId ∧ s.sessions.map[x]? = some session := by
    rw [filing_map] at hx
    split at hx
    · obtain rfl := Option.some.inj hx
      exact absurd hlt (lt_irrefl _)
    · exact ⟨‹_›,hx⟩
  constructor
  · intro hs
    refine ⟨⟨fun hc hd e => hs.distinct (returned_filing hcall hc) (returned_filing hcall hd) e,
      fun hc => (hold (h.fresh hc) (hs.named (returned_filing hcall hc))).2,
      fun hid => (hold ((m.allocated hid).trans_le h.grown) (hs.kept hid)).2⟩,fun hin => ?_⟩
    obtain ⟨session,hsession⟩ := Option.isSome_iff_exists.mp (ExtTreeMap.mem_iff_isSome_getElem?.mp hin)
    rcases h.origin hsession with hid | ⟨c,hc⟩
    · exact (hold ((m.allocated hid).trans_le h.grown) (hs.kept hid)).1 rfl
    · have hkey := s.sessions.key_eq hsession
      exact (hold (h.fresh hc) (hs.named (returned_filing hcall hc))).1 hkey
  · rintro ⟨hs,hfree⟩
    have hlive {x : UInt32} {session : PtySession} (hx : s.sessions.map[x]? = some session) :
        x ≠ streamId := fun e => hfree (e ▸ ExtTreeMap.mem_iff_isSome_getElem?.mpr (by rw [hx]; rfl))
    refine ⟨fun {c d session session'} hc hd e => ?_,fun {c session} hc => ?_,fun {id session} hid => ?_⟩
    · rcases filing_returned hc with ⟨rfl,rfl⟩ | ⟨-,hc⟩
      · rcases filing_returned hd with ⟨rfl,-⟩ | ⟨-,hd⟩
        · rfl
        · exact absurd e.symm (hlive (hs.named hd))
      · rcases filing_returned hd with ⟨-,rfl⟩ | ⟨-,hd⟩
        · exact absurd e (hlive (hs.named hc))
        · exact hs.distinct hc hd e
    · rw [filing_map]
      rcases filing_returned hc with ⟨-,rfl⟩ | ⟨-,hc⟩
      · exact if_pos rfl
      · rw [if_neg (hlive (hs.named hc))]
        exact hs.named hc
    · rw [filing_map,if_neg (hlive (hs.kept hid))]
      exact hs.kept hid

/-- While nothing was overwritten, the id of a call is free exactly when the call is alone. -/
theorem free_iff (h : Tracked m s) (hs : Separate m s) (hcall : s.calls call = .scanned streamId filed) :
    streamId ∉ s.sessions.map ↔ filed = s.sessions.next ∧ (streamId = 0 → 0 ∉ s.sessions.map) := by
  have hnext := h.next_or_taken hs hcall
  constructor
  · intro hfree
    refine ⟨?_,fun e => e ▸ hfree⟩
    by_contra hne
    rw [if_neg hne] at hnext
    exact hfree hnext
  · rintro ⟨hfiled,hzero⟩
    rw [if_pos hfiled] at hnext
    subst hnext
    exact nextStreamId_not_mem hzero

end Insert

/-- One step keeps the sessions apart exactly when it meets the condition. -/
theorem step_separate_iff {event : CreateEvent} (h : Tracked m s) (hstep : step s event = some s') :
    Separate m s' ↔ Separate m s ∧ s.alone event := by
  cases event with
  | scan call =>
    obtain ⟨hwaiting,rfl⟩ := step_scan hstep
    have hret {c : ℕ} {session : PtySession} :
        (s.scanning call).calls c = .returned session ↔ s.calls c = .returned session := by
      rw [scanning_calls]
      split
      · next hc => simp [hc,hwaiting]
      · rfl
    rw [alone,and_iff_left rfl]
    constructor
    · intro hs
      exact ⟨fun hc hd e => hs.distinct (hret.mpr hc) (hret.mpr hd) e,fun hc => hs.named (hret.mpr hc),hs.kept⟩
    · intro hs
      exact ⟨fun hc hd e => hs.distinct (hret.mp hc) (hret.mp hd) e,fun hc => hs.named (hret.mp hc),hs.kept⟩
  | insert call =>
    obtain ⟨streamId,filed,hcall,rfl⟩ := step_insert hstep
    have hiff := filing_separate_iff h hcall
    have halone : s.alone (.insert call) ↔ filed = s.sessions.next ∧ (streamId = 0 → 0 ∉ s.sessions.map) := by
      simp only [alone,hcall,decide_eq_true_eq]
    constructor
    · intro hs
      obtain ⟨hbefore,hfree⟩ := hiff.mp hs
      exact ⟨hbefore,halone.mpr ((free_iff h hbefore hcall).mp hfree)⟩
    · rintro ⟨hbefore,ha⟩
      exact hiff.mpr ⟨hbefore,(free_iff h hbefore hcall).mpr (halone.mp ha)⟩

theorem step_tracked {event : CreateEvent} (h : Tracked m s) (hstep : step s event = some s') :
    Tracked m s' := by
  have hsep := step_separate_iff h hstep
  cases event with
  | scan call =>
    obtain ⟨hwaiting,rfl⟩ := step_scan hstep
    have hother {c : ℕ} {session : PtySession} (hc : (s.scanning call).calls c = .returned session) :
        s.calls c = .returned session := by
      rw [scanning_calls] at hc
      split at hc
      · simp at hc
      · exact hc
    have hscanned {c : ℕ} {id : UInt32} {n : ℕ} (hc : (s.scanning call).calls c = .scanned id n) :
        id = s.sessions.nextStreamId ∧ n = s.sessions.next ∨ s.calls c = .scanned id n := by
      rw [scanning_calls] at hc
      split at hc
      · obtain ⟨rfl,rfl⟩ := CreateCall.scanned.inj hc
        exact .inl ⟨rfl,rfl⟩
      · exact .inr hc
    refine ⟨fun hx => ?_,h.grown,fun hc => h.fresh (hother hc),fun hc => ?_,fun hs {c id n} hc => ?_⟩
    · rcases h.origin hx with hx | ⟨c,hc⟩
      · exact .inl hx
      · refine .inr ⟨c,?_⟩
        have hne : c ≠ call := by
          rintro rfl
          rw [hwaiting] at hc
          simp at hc
        rw [scanning_calls,if_neg hne,hc]
    · rcases hscanned hc with ⟨-,rfl⟩ | hc
      · exact le_rfl
      · exact h.filed_le hc
    · rcases hscanned hc with ⟨rfl,rfl⟩ | hc
      · exact if_pos rfl ▸ rfl
      · exact h.next_or_taken (hsep.mp hs).1 hc
  | insert call =>
    obtain ⟨streamId,filed,hcall,rfl⟩ := step_insert hstep
    refine ⟨fun {x session} hx => ?_,h.grown.trans (Nat.le_succ _),fun hc => ?_,fun hc => ?_,fun hs {c id n} hc => ?_⟩
    · rw [filing_map] at hx
      split at hx
      · refine .inr ⟨call,?_⟩
        rw [filing_calls,if_pos rfl,Option.some.inj hx]
      · rcases h.origin hx with hx | ⟨c,hc⟩
        · exact .inl hx
        · exact .inr ⟨c,returned_filing hcall hc⟩
    · rcases filing_returned hc with ⟨-,rfl⟩ | ⟨-,hc⟩
      · exact Nat.lt_succ_self _
      · exact Nat.lt_succ_of_lt (h.fresh hc)
    · exact Nat.le_succ_of_le (h.filed_le (filing_scanned hc))
    · have hc' := filing_scanned hc
      obtain ⟨hbefore,halone⟩ := hsep.mp hs
      have hle := h.filed_le hc'
      have hnext : (s.filing call streamId).sessions.next = s.sessions.next+1 := rfl
      rw [if_neg (by omega)]
      have hold := h.next_or_taken hbefore hc'
      by_cases hn : n = s.sessions.next
      · -- the other call looked at the same map, so the two have one id
        rw [if_pos hn] at hold
        have hmine := h.next_or_taken hbefore hcall
        simp only [alone,hcall,decide_eq_true_eq] at halone
        rw [if_pos halone.1] at hmine
        exact Registry.mem_insertNew.mpr (.inl (hold.trans hmine.symm))
      · rw [if_neg hn] at hold
        exact Registry.mem_insertNew.mpr (.inr hold)

/-! ### Runs -/

theorem run_separate {events : List CreateEvent} (h : Tracked m s) (hrun : run s events = some s') :
    Separate m s' ↔ Separate m s ∧ allAlone s events := by
  induction events generalizing s with
  | nil =>
    obtain rfl := Option.some.inj hrun
    exact (and_iff_left rfl).symm
  | cons event events ih =>
    obtain ⟨t,hstep,hrest⟩ := Option.bind_eq_some_iff.mp hrun
    have hone := step_separate_iff h hstep
    have hall := ih (step_tracked h hstep) hrest
    rw [hall,hone,allAlone,hstep,Bool.and_eq_true,and_assoc]

/-- Concurrent calls get sessions of their own, and keep those of others, exactly when
every one of them is alone between its two steps. -/
theorem run_separate_iff (m : Sessions) {events : List CreateEvent} (hrun : run (start m) events = some s') :
    Separate m s' ↔ allAlone (start m) events := by
  rw [run_separate (start_tracked m) hrun]
  exact and_iff_right (start_separate m)

/-- Two calls in turn, next to a session that is there already. -/
theorem run_separate_turns : ∃ s', run (start Sessions.empty.createSession.2)
    [.scan 0,.insert 0,.scan 1,.insert 1] = some s' ∧ Separate Sessions.empty.createSession.2 s' := by
  have hruns : ∃ s', run (start Sessions.empty.createSession.2)
      [.scan 0,.insert 0,.scan 1,.insert 1] = some s' := ⟨_,rfl⟩
  obtain ⟨s',hrun⟩ := hruns
  exact ⟨s',hrun,(run_separate_iff _ hrun).mpr (by decide)⟩

/-- Two calls that both look before either files its session return one id. -/
theorem run_not_separate : ∃ s' session session', run (start .empty)
      [.scan 0,.scan 1,.insert 0,.insert 1] = some s' ∧ s'.calls 0 = .returned session ∧
    s'.calls 1 = .returned session' ∧ session.streamId = 1 ∧ session'.streamId = 1 ∧
    s'.sessions.map[(1 : UInt32)]? ≠ some session ∧ ¬Separate .empty s' := by
  have hboth : ∃ s', run (start .empty) [.scan 0,.scan 1,.insert 0,.insert 1] = some s' ∧
      s'.calls 0 = .returned ⟨1,[],0⟩ ∧ s'.calls 1 = .returned ⟨1,[],1⟩ ∧
      s'.sessions.map[(1 : UInt32)]? ≠ some ⟨1,[],0⟩ := ⟨_,rfl,rfl,rfl,by decide⟩
  obtain ⟨s',hrun,h0,h1,hlost⟩ := hboth
  exact ⟨s',_,_,hrun,h0,h1,rfl,rfl,hlost,fun hs => hlost (hs.named h0)⟩

end Creators
end NodeRustPty
