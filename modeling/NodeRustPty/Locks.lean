import Mathlib

/-! Locks that are not re-entrant: a thread that acquires one it already holds
waits for itself. A run is the trace of its acquisitions and releases. -/
namespace NodeRustPty

inductive LockEvent (Lock : Type)
  | acquire (lock : Lock)
  | release (lock : Lock)
  deriving DecidableEq

namespace LockEvent

variable {Lock : Type} [DecidableEq Lock]

/-- The locks held after a trace, the last acquired first. -/
def held (trace : List (LockEvent Lock)) : List Lock :=
  trace.foldl (fun locks event => match event with
    | .acquire lock => lock::locks
    | .release lock => locks.erase lock) []

/-- No acquisition of the trace is of a lock held at that time. -/
def NeverWaitsForItself (trace : List (LockEvent Lock)) : Prop :=
  ∀ before lock after, trace = before ++ .acquire lock::after → lock ∉ held before

theorem held_concat_acquire (trace : List (LockEvent Lock)) (lock : Lock) :
    held (trace ++ [.acquire lock]) = lock::held trace := by
  simp [held,List.foldl_append]

theorem neverWaitsForItself_nil : NeverWaitsForItself ([] : List (LockEvent Lock)) := by
  intro before lock after h
  simp at h

/-- Two acquisitions of one lock in a row block the thread for good. -/
theorem not_neverWaitsForItself {trace : List (LockEvent Lock)} (lock : Lock)
    (h : [.acquire lock,.acquire lock] <:+: trace) : ¬NeverWaitsForItself trace := by
  intro hn
  obtain ⟨before,after,rfl⟩ := h
  apply hn (before ++ [.acquire lock]) lock after (by simp)
  rw [held_concat_acquire]
  exact List.mem_cons_self

end LockEvent

/-! ### Several threads -/

section Deadlock

variable {Thread Lock : Type} (holds wants : Thread → Lock → Prop)

/-- The one wants a lock that the other holds. -/
def WaitsFor (waiting holding : Thread) : Prop := ∃ lock, wants waiting lock ∧ holds holding lock

/-- Threads wait for one another in a cycle, or a thread waits for itself. -/
def Deadlocked : Prop := ∃ thread, Relation.TransGen (WaitsFor holds wants) thread thread

variable {holds wants} {rank : Lock → ℕ}

/-- Whoever waits wants a lock of a rank that the last one in the chain has reached. -/
theorem rank_le_of_waits (horder : ∀ thread held wanted, holds thread held → wants thread wanted →
      rank held < rank wanted) {first last : Thread} (h : Relation.TransGen (WaitsFor holds wants) first last) :
    ∃ wanted held, wants first wanted ∧ holds last held ∧ rank wanted ≤ rank held := by
  induction h with
  | single h =>
    obtain ⟨lock,hwants,hholds⟩ := h
    exact ⟨lock,lock,hwants,hholds,le_rfl⟩
  | tail _ h ih =>
    obtain ⟨wanted,held,hwanted,hheld,hle⟩ := ih
    obtain ⟨lock,hwants,hholds⟩ := h
    have hlt := horder _ held lock hheld hwants
    exact ⟨wanted,lock,hwanted,hholds,hle.trans hlt.le⟩

/-- Locks that are taken in the order of their ranks. -/
theorem not_deadlocked_of_rank (horder : ∀ thread held wanted, holds thread held → wants thread wanted →
      rank held < rank wanted) : ¬Deadlocked holds wants := by
  rintro ⟨thread,h⟩
  obtain ⟨wanted,held,hwanted,hheld,hle⟩ := rank_le_of_waits horder h
  exact absurd (horder thread held wanted hheld hwanted) (not_lt.mpr hle)

end Deadlock
end NodeRustPty
