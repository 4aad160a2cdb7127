import NodeRustPty.Multiplexer

/-! The two background tasks that `PtyHandle::new` leaves behind. Both read the same
PTY; the task of the handle takes the handle's mutex around a round, the task of the
multiplexer does not, so nothing keeps one out of the other's round. -/
namespace NodeRustPty

open Std

inductive ReadTask
  | multiplexer
  | handle
  deriving DecidableEq

def ReadTask.other : ReadTask → ReadTask
  | .multiplexer => .handle
  | .handle => .multiplexer

@[simp] theorem ReadTask.other_ne (task : ReadTask) : task.other ≠ task := by cases task <;> decide

@[simp] theorem ReadTask.other_other (task : ReadTask) : task.other.other = task := by
  cases task <;> rfl

theorem ReadTask.eq_or_eq_other (task x : ReadTask) : x = task ∨ x = task.other := by
  cases task <;> cases x <;> decide

/-- Where a task is in its round: chunks are numbered as the PTY emits them. -/
inductive Round
  | idle
  | holding (chunk : ℕ)
  | dispatching (chunk : ℕ) (pending : List ℕ)
  deriving DecidableEq

def Round.chunk? : Round → Option ℕ
  | .idle => none
  | .holding chunk => some chunk
  | .dispatching chunk _ => some chunk

/-- The chunk of a round that may still be appended to a buffer. -/
def Round.owes (buffer : ℕ) : Round → Option ℕ
  | .idle => none
  | .holding chunk => some chunk
  | .dispatching chunk pending => if buffer ∈ pending then some chunk else none

inductive TaskEvent
  | read (task : ReadTask)
  | dispatch (task : ReadTask)
  | append (task : ReadTask) (buffer : ℕ)
  | finish (task : ReadTask)
  | sessions (change : Sessions → Sessions)

structure Readers where
  sessions : Sessions
  emitted : ℕ
  rounds : ReadTask → Round
  log : ℕ → List ℕ

namespace Readers

def start (m : Sessions) : Readers := ⟨m,0,fun _ => .idle,fun _ => []⟩

section Steps

variable (order : HashOrder UInt32 PtySession) (chunk : ℕ → Bytes)

/-- One step of `read_and_dispatch` in one of the tasks, or any change that the other methods make
to the sessions meanwhile. The `n`-th read takes chunk `n`. -/
def step (s : Readers) : TaskEvent → Option Readers
  | .read task =>
    match s.rounds task with
    | .idle => some { s with
        emitted := s.emitted+1
        rounds := Function.update s.rounds task (.holding s.emitted) }
    | _ => none
  | .dispatch task =>
    match s.rounds task with
    | .holding n => some { s with
        rounds := Function.update s.rounds task (.dispatching n (s.sessions.snapshot order)) }
    | _ => none
  | .append task buffer =>
    match s.rounds task with
    | .dispatching n pending =>
      if buffer ∈ pending then some { s with
        sessions := s.sessions.setBuffer buffer (s.sessions.buffers buffer ++ chunk n)
        rounds := Function.update s.rounds task (.dispatching n (pending.erase buffer))
        log := Function.update s.log buffer (s.log buffer ++ [n]) }
      else none
    | _ => none
  | .finish task =>
    match s.rounds task with
    | .dispatching _ [] => some { s with rounds := Function.update s.rounds task .idle }
    | _ => none
  | .sessions change => some { s with sessions := change s.sessions }

def run (s : Readers) : List TaskEvent → Option Readers
  | [] => some s
  | event::events => (step order chunk s event).bind fun s' => run s' events

/-- An append may go ahead: the other task has no earlier chunk for the same buffer. -/
def apart (s : Readers) : TaskEvent → Bool
  | .append task buffer =>
    match (s.rounds task).owes buffer, (s.rounds task.other).owes buffer with
    | some n, some n' => n < n'
    | _, _ => true
  | _ => true

/-- Every append of the run may go ahead. -/
def allApart (s : Readers) : List TaskEvent → Bool
  | [] => true
  | event::events => s.apart event && match step order chunk s event with
    | some s' => allApart s' events
    | none => true

end Steps

/-- The chunks of every buffer are in order of emission, and a chunk that a task still owes a
buffer comes after all that the buffer has. -/
structure Ordered (s : Readers) : Prop where
  sorted : ∀ buffer, (s.log buffer).Pairwise (· < ·)
  logged : ∀ buffer, ∀ n ∈ s.log buffer, n < s.emitted
  owed : ∀ task buffer n, (s.rounds task).owes buffer = some n → ∀ n' ∈ s.log buffer, n' < n
  taken : ∀ task n, (s.rounds task).chunk? = some n → n < s.emitted
  distinct : ∀ task n n', (s.rounds task).chunk? = some n →
    (s.rounds task.other).chunk? = some n' → n ≠ n'
  nodup : ∀ task n pending, s.rounds task = .dispatching n pending → pending.Nodup

theorem start_ordered (m : Sessions) : (start m).Ordered where
  sorted _ := List.Pairwise.nil
  logged _ _ h := by simp [start] at h
  owed _ _ _ h := by simp [start,Round.owes] at h
  taken _ _ h := by simp [start,Round.chunk?] at h
  distinct _ _ _ h := by simp [start,Round.chunk?] at h
  nodup _ _ _ h := by simp [start] at h

section Invariant

variable {order : HashOrder UInt32 PtySession} {chunk : ℕ → Bytes} {s s' : Readers}

/-- A round that moves on: the task owes no more than before, and the rest stays. -/
theorem Ordered.of_round (h : s.Ordered) (task : ReadTask) (round : Round)
    (howes : ∀ buffer n, round.owes buffer = some n → (s.rounds task).owes buffer = some n)
    (hchunk : ∀ n, round.chunk? = some n → (s.rounds task).chunk? = some n)
    (hnodup : ∀ n pending, round = .dispatching n pending → pending.Nodup) :
    Ordered { s with rounds := Function.update s.rounds task round } where
  sorted := h.sorted
  logged := h.logged
  owed x buffer n hx := by
    rcases task.eq_or_eq_other x with rfl | rfl
    · exact h.owed x buffer n (howes buffer n (by simpa using hx))
    · exact h.owed _ buffer n (by simpa using hx)
  taken x n hx := by
    rcases task.eq_or_eq_other x with rfl | rfl
    · exact h.taken x n (hchunk n (by simpa using hx))
    · exact h.taken _ n (by simpa using hx)
  distinct x n n' hx hy := by
    rcases task.eq_or_eq_other x with rfl | rfl
    · exact h.distinct x n n' (hchunk n (by simpa using hx)) (by simpa using hy)
    · exact h.distinct _ n n' (by simpa using hx) (by simpa using hchunk n' (by simpa using hy))
  nodup x n pending hx := by
    rcases task.eq_or_eq_other x with rfl | rfl
    · exact hnodup n pending (by simpa using hx)
    · exact h.nodup _ n pending (by simpa using hx)

theorem Ordered.read (h : s.Ordered) {task : ReadTask} :
    Ordered { s with
      emitted := s.emitted+1
      rounds := Function.update s.rounds task (.holding s.emitted) } where
  sorted := h.sorted
  logged buffer n hn := Nat.lt_succ_of_lt (h.logged buffer n hn)
  owed x buffer n hx := by
    rcases task.eq_or_eq_other x with rfl | rfl
    · obtain rfl : s.emitted = n := by simpa [Round.owes] using hx
      exact h.logged buffer
    · exact h.owed _ buffer n (by simpa using hx)
  taken x n hx := by
    rcases task.eq_or_eq_other x with rfl | rfl
    · obtain rfl : s.emitted = n := by simpa [Round.chunk?] using hx
      exact Nat.lt_succ_self _
    · exact Nat.lt_succ_of_lt (h.taken _ n (by simpa using hx))
  distinct x n n' hx hy := by
    rcases task.eq_or_eq_other x with rfl | rfl
    · obtain rfl : s.emitted = n := by simpa [Round.chunk?] using hx
      exact (h.taken _ n' (by simpa using hy)).ne'
    · obtain rfl : s.emitted = n' := by simpa [Round.chunk?] using hy
      exact (h.taken _ n (by simpa using hx)).ne
  nodup x n pending hx := by
    rcases task.eq_or_eq_other x with rfl | rfl
    · simp at hx
    · exact h.nodup _ n pending (by simpa using hx)

theorem Ordered.append (h : s.Ordered) {task : ReadTask} {buffer n : ℕ} {pending : List ℕ}
    (hround : s.rounds task = .dispatching n pending) (hp : buffer ∈ pending)
    (hapart : s.apart (.append task buffer)) (m : Sessions) :
    Ordered { s with
      sessions := m
      rounds := Function.update s.rounds task (.dispatching n (pending.erase buffer))
      log := Function.update s.log buffer (s.log buffer ++ [n]) } := by
  have hnodup := h.nodup task n pending hround
  have howes : (s.rounds task).owes buffer = some n := by simp [hround,Round.owes,hp]
  have hmoved := h.of_round task (.dispatching n (pending.erase buffer))
    (by
      intro b k hk
      simp only [Round.owes] at hk ⊢
      split at hk
      · simpa [hround,Round.owes,List.mem_of_mem_erase ‹_›] using hk
      · simp at hk)
    (by intro k hk; simpa [hround,Round.chunk?] using hk)
    (by rintro k rest ⟨⟩; exact hnodup.erase buffer)
  refine ⟨fun b => ?_,fun b k hk => ?_,fun x b k hx k' hk' => ?_,hmoved.taken,hmoved.distinct,hmoved.nodup⟩
  · by_cases hb : b = buffer
    · subst hb
      simp only [Function.update_self]
      exact List.pairwise_append.mpr ⟨h.sorted b,List.pairwise_singleton _ _,by
        simpa using h.owed task b n howes⟩
    · simpa [hb] using h.sorted b
  · by_cases hb : b = buffer
    · subst hb
      simp only [Function.update_self,List.mem_append,List.mem_singleton] at hk
      rcases hk with hk | rfl
      · exact h.logged b k hk
      · exact h.taken task k (by simp [hround,Round.chunk?])
    · exact h.logged b k (by simpa [hb] using hk)
  · have hold := hmoved.owed x b k hx
    by_cases hb : b = buffer
    · subst hb
      simp only [Function.update_self,List.mem_append,List.mem_singleton] at hk'
      rcases hk' with hk' | rfl
      · exact hold k' hk'
      · rcases task.eq_or_eq_other x with rfl | rfl
        · -- the task itself owes this buffer nothing more
          simp [Round.owes,hnodup.not_mem_erase] at hx
        · have hother : (s.rounds task.other).owes b = some k := by simpa using hx
          simpa [apart,howes,hother] using hapart
    · exact hold k' (by simpa [hb] using hk')

theorem step_ordered {event : TaskEvent} (h : s.Ordered) (hapart : s.apart event)
    (hstep : step order chunk s event = some s') : s'.Ordered := by
  cases event with
  | read task =>
    simp only [step] at hstep
    split at hstep
    · cases hstep
      exact h.read
    · simp at hstep
  | dispatch task =>
    simp only [step] at hstep
    split at hstep
    · next n hround =>
      cases hstep
      refine h.of_round task _ ?_ ?_ ?_
      · intro buffer k hk
        simp only [Round.owes] at hk
        split at hk
        · simpa [hround,Round.owes] using hk
        · simp at hk
      · intro k hk
        simpa [hround,Round.chunk?] using hk
      · rintro k pending ⟨⟩
        exact s.sessions.snapshot_nodup order
    · simp at hstep
  | append task buffer =>
    simp only [step] at hstep
    split at hstep
    · next n pending hround =>
      split at hstep
      · cases hstep
        exact h.append hround ‹_› hapart _
      · simp at hstep
    · simp at hstep
  | finish task =>
    simp only [step] at hstep
    split at hstep
    · cases hstep
      exact h.of_round task .idle (by simp [Round.owes]) (by simp [Round.chunk?]) (by simp)
    · simp at hstep
  | sessions change =>
    cases hstep
    exact ⟨h.sorted,h.logged,h.owed,h.taken,h.distinct,h.nodup⟩

theorem run_ordered {events : List TaskEvent} (h : s.Ordered) (hapart : allApart order chunk s events)
    (hrun : run order chunk s events = some s') : s'.Ordered := by
  induction events generalizing s with
  | nil =>
    cases hrun
    exact h
  | cons event events ih =>
    obtain ⟨middle,hstep,hrest⟩ := Option.bind_eq_some_iff.mp hrun
    simp only [allApart,hstep,Bool.and_eq_true] at hapart
    exact ih (step_ordered h hapart.1 hstep) hapart.2 hrest

end Invariant

/-- In a run of the two tasks in which no chunk is appended to a buffer while the other task
has an earlier one for it, every buffer gets its chunks in the order of emission. -/
theorem run_log_sorted (order : HashOrder UInt32 PtySession) (chunk : ℕ → Bytes) (m : Sessions)
    {events : List TaskEvent} {s : Readers} (hapart : allApart order chunk (start m) events)
    (hrun : run order chunk (start m) events = some s) (buffer : ℕ) :
    (s.log buffer).Pairwise (· < ·) :=
  (run_ordered (start_ordered m) hapart hrun).sorted buffer

/-- The chunk `n` of a PTY that counts. -/
def counting (n : ℕ) : Bytes := [UInt8.ofNat n]

/-- Both tasks read, and then each finishes before the next one appends. -/
theorem run_log_sorted_turns : ∃ s, run .sorted counting (start Sessions.empty.createSession.2)
      [.read .multiplexer,.read .handle,.dispatch .multiplexer,.append .multiplexer 0,
        .dispatch .handle,.append .handle 0] = some s ∧ (s.log 0).Pairwise (· < ·) := by
  obtain ⟨s,hrun⟩ : ∃ s, run .sorted counting (start Sessions.empty.createSession.2)
      [.read .multiplexer,.read .handle,.dispatch .multiplexer,.append .multiplexer 0,
        .dispatch .handle,.append .handle 0] = some s := Option.isSome_iff_exists.mp (by decide)
  exact ⟨s,hrun,run_log_sorted .sorted counting _ (by decide) hrun 0⟩

/-- The second chunk overtakes the first between its read and its append. -/
theorem run_log_overtaken : (run .sorted counting (start Sessions.empty.createSession.2)
    [.read .multiplexer,.read .handle,.dispatch .handle,.append .handle 0,
      .dispatch .multiplexer,.append .multiplexer 0]).map (fun s => (s.log 0,s.sessions.session? 1)) =
        some ([1,0],some ([],[1,0])) ∧ ¬[1,0].Pairwise (· < ·) := by
  refine ⟨by decide,by decide⟩

end Readers
end NodeRustPty
