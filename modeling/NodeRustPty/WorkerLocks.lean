import NodeRustPty.PtyWorker

/-! Who waits for whom among the threads of a worker: a piping thread whose write fails waits
for itself, and one that stores what it read can wait for `shutdown_worker` while that waits
for it. There is no other cycle. -/
namespace NodeRustPty
namespace PtyWorker

open Transitions

/-! ### The cycles -/

/-- A thread is about to lock the socket that it holds, or `shutdown_worker` and the thread that
reads a socket each want what the other holds. -/
def Stuck (s : PtyWorker) : Prop :=
  (∃ c, (s.connections c).conout = .relock) ∨
    ∃ c rest data, s.shutdown = .closing (c::rest) ∧ (s.connections c).worker = .store data

variable {s s' : PtyWorker} {action : WorkerAction} {c : ℕ}

/-- A socket comes after the sessions unless its reader waits for them. -/
def rank (s : PtyWorker) : Mutex → ℕ
  | .sessions => 1
  | .workerSocket c => match (s.connections c).worker with
    | .store _ => 0
    | _ => 2

theorem rank_lt_of_not_stuck (h : ¬Stuck s) (thread : Thread) (held wanted : Mutex) (hheld : s.Holds thread held)
    (hwanted : s.Wants thread wanted) : s.rank held < s.rank wanted := by
  cases thread with
  | acceptor => exact absurd hheld id
  | conout c =>
    cases held with
    | sessions => exact absurd hheld id
    | workerSocket c' =>
      rcases hheld with ⟨rfl,⟨data,hwrite⟩ | hrelock⟩
      · cases wanted with
        | sessions => simp [Wants,hwrite] at hwanted
        | workerSocket _ => simp [Wants,hwrite] at hwanted
      · exact absurd (.inl ⟨_,hrelock⟩) h
  | worker c =>
    cases held with
    | sessions => exact absurd hheld id
    | workerSocket c' =>
      rcases hheld with ⟨rfl,hread | ⟨data,hsend⟩ | hstore⟩
      · cases wanted <;> simp [Wants,hread] at hwanted
      · cases wanted <;> simp [Wants,hsend] at hwanted
      · cases wanted with
        | sessions =>
          obtain ⟨data,hstore⟩ := hstore
          simp [rank,hstore]
        | workerSocket _ =>
          obtain ⟨data,hstore⟩ := hstore
          simp [Wants,hstore] at hwanted
  | shutdown =>
    cases held with
    | workerSocket c => exact absurd hheld id
    | sessions =>
      obtain ⟨connections,hclosing⟩ := hheld
      cases wanted with
      | sessions => simp [Wants,hclosing] at hwanted
      | workerSocket c =>
        obtain ⟨rest,hrest⟩ := hwanted
        have hstore (data : Bytes) : (s.connections c).worker ≠ .store data :=
          fun hdata => h (.inr ⟨c,rest,data,hrest,hdata⟩)
        rw [rank,rank]
        split
        · next data hdata => exact absurd hdata (hstore data)
        · exact Nat.one_lt_two

theorem deadlocked_iff : Deadlocked s.Holds s.Wants ↔ Stuck s := by
  constructor
  · intro h
    by_contra hstuck
    exact not_deadlocked_of_rank (rank_lt_of_not_stuck hstuck) h
  · rintro (⟨c,hrelock⟩ | ⟨c,rest,data,hclosing,hstore⟩)
    · exact ⟨.conout c,.single ⟨.workerSocket c,⟨rfl,.inr (.inl hrelock)⟩,rfl,.inr hrelock⟩⟩
    · have hshutdown : WaitsFor s.Holds s.Wants .shutdown (.worker c) :=
        ⟨.workerSocket c,⟨rest,hclosing⟩,rfl,.inr (.inr ⟨data,hstore⟩)⟩
      have hworker : WaitsFor s.Holds s.Wants (.worker c) .shutdown :=
        ⟨.sessions,.inl ⟨data,hstore⟩,_,hclosing⟩
      exact ⟨.shutdown,.tail (.single hshutdown) hworker⟩

/-- From there the thread takes no step. -/
theorem not_step_of_relock (h : (s.connections c).conout = .relock) : ¬Step s (.conoutRelock c) s' := by
  rintro (_ | _)
  next hfree => exact hfree (.conout c) ⟨rfl,.inr h⟩

/-! ### Steps that close no cycle -/

/-- No write to a worker socket fails, and `shutdown_worker` does not come to a socket whose
reader waits for the sessions, nor such a reader to that point while its socket is next. -/
def Harmless (s : PtyWorker) : WorkerAction → Prop
  | .conoutWriteFailed _ _ => False
  | .workerSent c => ∀ rest, s.shutdown ≠ .closing (c::rest)
  | .lockSessions order => ∀ c rest, order = c::rest → ∀ data, (s.connections c).worker ≠ .store data
  | .closeSocket => ∀ c next rest, s.shutdown = .closing (c::next::rest) →
      ∀ data, (s.connections next).worker ≠ .store data
  | _ => True

/-- Only these places of the threads matter. -/
theorem not_stuck_of_same (h : ¬Stuck s) (hshutdown : s'.shutdown = s.shutdown)
    (hconout : ∀ c, (s'.connections c).conout = (s.connections c).conout)
    (hworker : ∀ c, (s'.connections c).worker = (s.connections c).worker) : ¬Stuck s' := by
  simpa only [Stuck,hshutdown,hconout,hworker] using h

theorem not_stuck_modify {f : Connection → Connection} (h : ¬Stuck s)
    (hconout : (f (s.connections c)).conout = .relock → (s.connections c).conout = .relock)
    (hworker : ∀ rest data, s.shutdown = .closing (c::rest) → (f (s.connections c)).worker = .store data →
      (s.connections c).worker = .store data) : ¬Stuck (s.modify c f) := by
  rintro (⟨c',hrelock⟩ | ⟨c',rest,data,hclosing,hstore⟩)
  · refine h (.inl ⟨c',?_⟩)
    rw [modify_connections] at hrelock
    split at hrelock
    · next hc => exact hc ▸ hconout hrelock
    · exact hrelock
  · refine h (.inr ⟨c',rest,data,hclosing,?_⟩)
    rw [modify_connections] at hstore
    split at hstore
    · next hc =>
      subst hc
      exact hworker rest data hclosing hstore
    · exact hstore

theorem not_stuck_storeData (h : ¬Stuck s) (c : ℕ) (data : Bytes) : ¬Stuck (s.storeData c data) := by
  rw [storeData]
  split
  · exact not_stuck_modify h id fun _ _ _ => id
  · exact h

/-- A step of `shutdown_worker` is to be looked at for the socket that is next after it. -/
theorem not_stuck_shutdown (h : ¬Stuck s) (hconnections : ∀ c, (s'.connections c).conout = (s.connections c).conout)
    (hnext : ∀ c rest data, s'.shutdown = .closing (c::rest) → (s'.connections c).worker ≠ .store data) :
    ¬Stuck s' := by
  rintro (⟨c,hrelock⟩ | ⟨c,rest,data,hclosing,hstore⟩)
  · exact h (.inl ⟨c,(hconnections c).symm.trans hrelock⟩)
  · exact hnext c rest data hclosing hstore

theorem step_not_stuck_iff (h : ¬Stuck s) (hstep : Step s action s') : ¬Stuck s' ↔ Harmless s action := by
  cases hstep with
  | acceptNext | acceptStop => exact iff_of_true h trivial
  | insert =>
    have hopened : ¬Stuck (s.modify s.sessionCounter fun _ => .opened) :=
      not_stuck_modify h (by simp [Connection.opened,Connection.unborn]) (by simp [Connection.opened,Connection.unborn])
    exact iff_of_true hopened trivial
  | spawn forConout forWorker =>
    have hspawned : ¬Stuck (s.modify s.sessionCounter (.spawned forConout forWorker)) :=
      not_stuck_modify h (by cases forConout <;> simp [Connection.spawned])
        (by cases forWorker <;> simp [Connection.spawned])
    exact iff_of_true hspawned trivial
  | conoutCheck => exact iff_of_true (not_stuck_modify h (by split <;> simp) fun _ _ _ => id) trivial
  | @conoutReadData c data =>
    have hcredit : ¬Stuck (s.credit data) :=
      not_stuck_of_same h rfl (fun _ => credit_conout s _ data) fun _ => credit_worker s _ data
    exact iff_of_true (not_stuck_modify hcredit (by simp) fun _ _ _ => id) trivial
  | conoutReadNothing | conoutReadEnd | conoutLock | conoutWritten | conoutRelock | conoutClose | conoutRemove =>
    exact iff_of_true (not_stuck_modify h (by simp) fun _ _ _ => id) trivial
  | @conoutWriteFailed c data count hpc =>
    refine iff_of_false (not_not.mpr (.inl ⟨c,?_⟩)) id
    rw [modify_self]
  | workerContinue | workerStop | workerLock | workerReadData | workerReadNothing | workerReadEnd
  | workerSendFailed | workerRemove => exact iff_of_true (not_stuck_modify h id (by simp)) trivial
  | @workerSent c data hpc =>
    constructor
    · intro hafter rest hclosing
      refine hafter (.inr ⟨c,rest,data,hclosing,?_⟩)
      rw [modify_self]
    · intro hharmless
      exact not_stuck_modify h id fun rest _ hclosing _ => absurd hclosing (hharmless rest)
  | workerStore => exact iff_of_true (not_stuck_modify (not_stuck_storeData h _ _) id (by simp)) trivial
  | setFlag => exact iff_of_true (not_stuck_shutdown h (fun _ => rfl) (by simp)) trivial
  | closeConout => exact iff_of_true (not_stuck_shutdown h (fun _ => rfl) (by simp)) trivial
  | @lockSessions order hpc hfree horder =>
    constructor
    · rintro hafter c rest rfl data hstore
      exact hafter (.inr ⟨c,rest,data,rfl,hstore⟩)
    · intro hharmless
      refine not_stuck_shutdown h (fun _ => rfl) fun c rest data hclosing => ?_
      exact hharmless c rest (ShutdownWorker.closing.inj hclosing) data
  | @closeSocket c rest hpc hfree =>
    have hsame (c' : ℕ) : ((s.modify c fun conn => { conn with accepts := false }).connections c').conout =
          (s.connections c').conout ∧
        ((s.modify c fun conn => { conn with accepts := false }).connections c').worker = (s.connections c').worker := by
      rw [modify_connections]
      split
      · next hc => simp [hc]
      · simp
    constructor
    · intro hafter first next rest' hclosing data hstore
      obtain ⟨rfl,rfl⟩ := List.cons.inj (ShutdownWorker.closing.inj (hpc.symm.trans hclosing))
      exact hafter (.inr ⟨next,rest',data,rfl,(hsame next).2.trans hstore⟩)
    · intro hharmless
      refine not_stuck_shutdown h (fun c' => (hsame c').1) fun next rest' data hclosing hstore => ?_
      obtain rfl := ShutdownWorker.closing.inj hclosing
      exact hharmless c next rest' hpc data ((hsame next).2.symm.trans hstore)
  | unlockSessions => exact iff_of_true (not_stuck_shutdown h (fun _ => rfl) (by simp)) trivial

/-! ### Runs -/

theorem start_not_stuck : ¬Stuck start := by
  rintro (⟨c,hrelock⟩ | ⟨c,rest,data,hclosing,-⟩)
  · cases hrelock
  · cases hclosing

/-- No threads ever wait for one another in a cycle exactly when every step is harmless. -/
theorem never_deadlocked_iff {trace : List (PtyWorker × WorkerAction)} (hrun : Run Step start trace s) :
    Throughout (fun s => ¬Deadlocked s.Holds s.Wants) trace s ↔ Each Harmless trace := by
  simp only [deadlocked_iff]
  have htrivial : Throughout (fun _ => True) trace s := ⟨fun _ _ => trivial,trivial⟩
  exact hrun.throughout_iff htrivial start_not_stuck fun _ _ _ _ h hstep => step_not_stuck_iff h hstep

theorem never_deadlocked_one : ∃ trace, Run Step start trace piped ∧
    (Throughout (fun s => ¬Deadlocked s.Holds s.Wants) trace piped ↔ Each Harmless trace) := by
  obtain ⟨trace,hrun⟩ := run_piped
  exact ⟨trace,hrun,never_deadlocked_iff hrun⟩

/-- A worker socket fails at a write: its thread locks it again under its own guard. -/
theorem deadlocked_at_failure : ¬∀ (trace : List (PtyWorker × WorkerAction)) (s : PtyWorker),
    Run Step start trace s → Throughout (fun s => ¬Deadlocked s.Holds s.Wants) trace s := by
  intro h
  obtain ⟨trace,hrun⟩ := run_one
  have hcheck : ((connect start).connections 0).conout = .check := congrArg Connection.conout one_connection
  let reading := (connect start).modify 0 fun conn => { conn with conout := .read }
  let locking := (reading.credit [65]).modify 0 fun conn => { conn with conout := .lock [65] }
  let writing := locking.modify 0 fun conn => { conn with conout := .write [65] }
  have h₁ : Step (connect start) (.conoutCheck 0) reading := .conoutCheck hcheck
  have h₂ : Step reading (.conoutRead 0 (.data [65])) locking := .conoutReadData (by simp [reading]) (by simp)
  have hworker : ((connect start).connections 0).worker = .check := congrArg Connection.worker one_connection
  have hfree : locking.Free (.workerSocket 0) :=
    free_workerSocket (by simp [locking,reading,Connection.reads,hworker]) (by simp [locking]) (by simp [locking])
  have h₃ : Step locking (.conoutLock 0) writing := .conoutLock (by simp [locking]) hfree
  have h₄ := Step.conoutWriteFailed 0 (show (writing.connections 0).conout = .write [65] by simp [writing])
  have hall := h _ _ ((((hrun.snoc h₁).snoc h₂).snoc h₃).snoc h₄)
  exact hall.2 (deadlocked_iff.mpr (.inl ⟨0,by simp⟩))

end PtyWorker
end NodeRustPty
