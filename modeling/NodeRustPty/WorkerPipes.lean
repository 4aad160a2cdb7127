import NodeRustPty.PtyWorker

/-! What the piping threads of a worker do to one another over the connection to conout that
they share: who shuts it down, and which session gets what is read from it. -/
namespace NodeRustPty
namespace PtyWorker

open Transitions

variable {s s' : PtyWorker} {action : WorkerAction} {c : ℕ} {trace : List (PtyWorker × WorkerAction)}

/-! ### Who ends the sessions -/

/-- A thread of the connection has left its loop. -/
def Left (conn : Connection) : Prop :=
  conn.conout = .relock ∨ conn.conout = .close ∨ conn.conout = .remove ∨ conn.conout = .ended ∨
    conn.worker = .remove ∨ conn.worker = .ended

/-- `shutdown_worker` was called, or conout itself is at its end. -/
def Over (s : PtyWorker) : Prop := s.shutdownFlag = true ∨ s.conoutEnded = true

/-- Conout is shut down, and a session ends, only when all is over; apart from that a session
ends when its own socket has closed or failed. -/
structure Isolated (s : PtyWorker) : Prop where
  conout : s.conoutShut = true → s.Over
  sessions : ∀ c, Left (s.connections c) → (s.connections c).closed = true ∨ s.Over

/-- A worker socket that closes or fails is read to its end only after all is over. -/
def OutlivesConout (s : PtyWorker) : WorkerAction → Prop
  | .workerRead _ .closed => s.Over
  | .workerRead _ .failed => s.Over
  | _ => True

theorem isolated_modify {f : Connection → Connection} (h : Isolated s)
    (hleft : Left (f (s.connections c)) → Left (s.connections c) ∧ (f (s.connections c)).closed = (s.connections c).closed ∨
      (f (s.connections c)).closed = true ∨ s.Over) : Isolated (s.modify c f) where
  conout := h.conout
  sessions c' hc' := by
    rw [modify_connections] at hc' ⊢
    split at hc'
    · next heq =>
      rw [if_pos heq]
      rcases hleft hc' with ⟨hbefore,hclosed⟩ | hnow
      · rw [hclosed]
        exact h.sessions c hbefore
      · exact hnow
    · next hne =>
      rw [if_neg hne]
      exact h.sessions c' hc'

theorem isolated_credit (h : Isolated s) (data : Bytes) : Isolated (s.credit data) where
  conout := h.conout
  sessions c hc := by
    have hsame : Left ((s.credit data).connections c) ↔ Left (s.connections c) := by simp [Left]
    have hclosed : ((s.credit data).connections c).closed = (s.connections c).closed := by
      rw [credit]
      dsimp only
      split <;> rfl
    rw [hclosed]
    exact h.sessions c (hsame.mp hc)

theorem isolated_storeData (h : Isolated s) (data : Bytes) : Isolated (s.storeData c data) := by
  rw [storeData]
  split
  · exact isolated_modify h fun hleft => .inl ⟨hleft,rfl⟩
  · exact h

/-- When conout returns an end or an error, all is over from then on, if it was not before. -/
theorem over_endConout (h : Isolated s) : s.endConout.Over := by
  by_cases hshut : s.conoutShut = true
  · refine (h.conout hshut).imp_right fun hended => ?_
    simp [endConout,hended]
  · simp [Over,endConout,hshut]

theorem isolated_of_over (h : s.Over) : Isolated s := ⟨fun _ => h,fun _ _ => .inr h⟩

/-- Once `shutdown_worker` is under way its flag is set. -/
def Flagged (s : PtyWorker) : Prop := s.shutdown ≠ .idle → s.shutdownFlag = true

theorem step_flagged (h : Flagged s) (hstep : Step s action s') : Flagged s' := by
  cases hstep with
  | setFlag => exact fun _ => rfl
  | closeConout hpc => exact fun _ => h (by simp [hpc])
  | lockSessions hpc => exact fun _ => h (by simp [hpc])
  | closeSocket hpc => exact fun _ => h (by simp [hpc])
  | unlockSessions => exact fun hne => absurd rfl hne
  | @workerStore c data =>
    have hshutdown : (s.storeData c data).shutdown = s.shutdown :=
      storeData_keeps s c data PtyWorker.shutdown fun _ _ _ => rfl
    have hflag : (s.storeData c data).shutdownFlag = s.shutdownFlag :=
      storeData_keeps s c data PtyWorker.shutdownFlag fun _ _ _ => rfl
    intro hne
    exact hflag.trans (h (hshutdown ▸ hne))
  | _ => exact h

theorem step_isolated_iff (hflagged : Flagged s) (h : Isolated s) (hstep : Step s action s') :
    Isolated s' ↔ OutlivesConout s action := by
  have hremove (c : ℕ) : Isolated (s.removeSession c) := ⟨h.conout,h.sessions⟩
  cases hstep with
  | acceptNext | acceptStop | lockSessions | unlockSessions => exact iff_of_true ⟨h.conout,h.sessions⟩ trivial
  | insert =>
    have hopened : Isolated (s.modify s.sessionCounter fun _ => .opened) :=
      isolated_modify h (by simp [Left,Connection.opened,Connection.unborn])
    exact iff_of_true ⟨hopened.conout,hopened.sessions⟩ trivial
  | spawn forConout forWorker =>
    have hspawned : Isolated (s.modify s.sessionCounter (.spawned forConout forWorker)) :=
      isolated_modify h (by cases forConout <;> cases forWorker <;> simp [Left,Connection.spawned])
    exact iff_of_true ⟨hspawned.conout,hspawned.sessions⟩ trivial
  | conoutCheck hpc =>
    refine iff_of_true (isolated_modify h ?_) trivial
    split
    · next hflag => exact fun _ => .inr (.inr (.inl hflag))
    · exact fun hleft => .inl ⟨by simpa [Left,hpc] using hleft,rfl⟩
  | conoutReadData hpc =>
    refine iff_of_true (isolated_modify (isolated_credit h _) fun hleft => .inl ⟨?_,rfl⟩) trivial
    simpa [Left,hpc] using hleft
  | conoutReadEnd hpc hresult =>
    have hended : Isolated s.endConout := isolated_of_over (over_endConout h)
    refine iff_of_true (isolated_modify hended fun _ => .inr (.inr (over_endConout h))) ?_
    rcases hresult with rfl | rfl <;> trivial
  | conoutReadNothing hpc | conoutLock hpc | conoutWritten hpc =>
    refine iff_of_true (isolated_modify h fun hleft => .inl ⟨?_,rfl⟩) trivial
    simpa [Left,hpc] using hleft
  | conoutWriteFailed => exact iff_of_true (isolated_modify h fun _ => .inr (.inl rfl)) trivial
  | conoutRelock hpc | conoutClose hpc =>
    exact iff_of_true (isolated_modify h fun _ => .inl ⟨by simp [Left,hpc],rfl⟩) trivial
  | @conoutRemove c hpc =>
    exact iff_of_true (isolated_modify (hremove c) fun _ => .inl ⟨by simp [Left,hpc],rfl⟩) trivial
  | workerContinue hpc | workerLock hpc | workerReadData hpc | workerReadNothing hpc | workerSent hpc =>
    refine iff_of_true (isolated_modify h fun hleft => .inl ⟨?_,rfl⟩) trivial
    simpa [Left,hpc] using hleft
  | @workerStop c hpc hflag =>
    have hover : s.shutConout.Over := .inl hflag
    exact iff_of_true (isolated_modify (isolated_of_over hover) fun _ => .inr (.inr hover)) trivial
  | @workerReadEnd c result hpc hresult =>
    have hover : Isolated (s.shutConout.modify c fun conn => { conn with worker := .remove,closed := true }) ↔ s.Over := by
      constructor
      · exact fun hafter => hafter.conout rfl
      · intro hover
        have hshut : Isolated s.shutConout := isolated_of_over hover
        exact isolated_modify hshut fun _ => .inr (.inl rfl)
    rw [hover]
    rcases hresult with rfl | rfl <;> exact Iff.rfl
  | @workerSendFailed c data hpc =>
    have hover : s.endConout.shutConout.Over := over_endConout h
    exact iff_of_true (isolated_modify (isolated_of_over hover) fun _ => .inr (.inr hover)) trivial
  | @workerStore c data hpc =>
    refine iff_of_true (isolated_modify (isolated_storeData h data) fun hleft => .inl ⟨?_,rfl⟩) trivial
    simpa [Left,hpc] using hleft
  | @workerRemove c hpc =>
    exact iff_of_true (isolated_modify (hremove c) fun _ => .inl ⟨by simp [Left,hpc],rfl⟩) trivial
  | setFlag => exact iff_of_true (isolated_of_over (.inl rfl)) trivial
  | closeConout hpc => exact iff_of_true (isolated_of_over (.inl (hflagged (by simp [hpc])))) trivial
  | @closeSocket c =>
    have hclosed : Isolated (s.modify c fun conn => { conn with accepts := false }) :=
      isolated_modify h fun hleft => .inl ⟨hleft,rfl⟩
    exact iff_of_true ⟨hclosed.conout,hclosed.sessions⟩ trivial

theorem start_isolated : Isolated start where
  conout h := absurd h (by simp [start])
  sessions c h := absurd h (by simp [Left,start,Connection.unborn])

/-- The sessions are isolated from one another exactly as long as no worker socket closes or fails
while conout is up. -/
theorem sessions_outlive_iff (hrun : Run Step start trace s) :
    Throughout Isolated trace s ↔ Each OutlivesConout trace := by
  have hflagged : Throughout Flagged trace s :=
    hrun.throughout (fun hne => absurd rfl hne) fun _ _ _ h hstep => step_flagged h hstep
  exact hrun.throughout_iff hflagged start_isolated fun _ _ _ hf h hstep => step_isolated_iff hf h hstep

theorem sessions_outlive_one : ∃ trace, Run Step start trace piped ∧
    (Throughout Isolated trace piped ↔ Each OutlivesConout trace) := by
  obtain ⟨trace,hrun⟩ := run_piped
  exact ⟨trace,hrun,sessions_outlive_iff hrun⟩

/-- One of two workers closes its socket, and conout is shut down for both. -/
theorem sessions_end_together : ¬∀ (trace : List (PtyWorker × WorkerAction)) (s : PtyWorker),
    Run Step start trace s → Throughout Isolated trace s := by
  intro h
  obtain ⟨trace,hrun⟩ := run_two
  have hzero := two_connections Nat.zero_lt_two
  have hcheck : ((connect (connect start)).connections 0).worker = .check := congrArg Connection.worker hzero
  let locking := (connect (connect start)).modify 0 fun conn => { conn with worker := .lock }
  let reading := locking.modify 0 fun conn => { conn with worker := .read }
  have h₁ : Step (connect (connect start)) (.workerCheck 0) locking := .workerContinue hcheck rfl
  have hfree : locking.Free (.workerSocket 0) :=
    free_workerSocket (by simp [locking,Connection.reads]) (by simp [locking,hzero,Connection.spawned])
      (by simp [locking,hzero,Connection.spawned])
  have h₂ : Step locking (.workerLock 0) reading := .workerLock (by simp [locking]) hfree
  have h₃ := Step.workerReadEnd (show (reading.connections 0).worker = .read by simp [reading]) (.inl rfl)
  have hall := h _ _ (((hrun.snoc h₁).snoc h₂).snoc h₃)
  rcases hall.2.conout rfl with hflag | hended
  · cases hflag
  · cases hended

/-! ### What is read from conout -/

/-- What the thread has read and not yet written. -/
def inHand (conn : Connection) : Bytes :=
  match conn.conout with
  | .lock data => data
  | .write data => data
  | _ => []

/-- The part of it that nothing keeps from being written: the thread has the mutex of the socket, or
the thread that reads the socket has not. -/
def pending (conn : Connection) : Bytes :=
  match conn.conout with
  | .lock data => if conn.reads then [] else data
  | .write data => data
  | _ => []

/-- The bytes that are due to a socket are written to it in order, the last ones at once, and as
long as its session is listed in the map nothing else is. -/
structure Served (conn : Connection) (listed : Prop) : Prop where
  inOrder : conn.due <+: conn.written ++ pending conn
  exactly : listed → conn.written ++ pending conn = conn.due

theorem Served.mono {conn : Connection} {listed listed' : Prop} (h : Served conn listed) (himp : listed' → listed) :
    Served conn listed' := ⟨h.inOrder,fun hlisted => h.exactly (himp hlisted)⟩

def Listed (s : PtyWorker) (c : ℕ) : Prop := s.sessions (sessionId c) = some c

def Delivered (s : PtyWorker) : Prop :=
  ∀ c, (s.connections c).accepts = true → Served (s.connections c) (s.Listed c)

/-- Whoever reads data from conout has the only open session, whose socket nobody is reading then; and
nobody goes on to read a socket while what is due to it waits to be written. -/
def ReadsForAll (s : PtyWorker) : WorkerAction → Prop
  | .conoutRead c (.data _) => (∀ c', s.Open c' → c' = c) ∧ (s.Open c → (s.connections c).reads = false)
  | .workerLock c => (s.connections c).accepts = true → ∀ data, (s.connections c).conout = .lock data →
      (s.connections c).due <+: (s.connections c).written
  | _ => True

/-- The thread of a connection starts after it was spawned. -/
def Unspawned (s : PtyWorker) : Prop := ∀ c, s.sessionCounter ≤ c → (s.connections c).conout = .unborn

theorem step_unspawned (h : Unspawned s) (hstep : Step s action s') : Unspawned s' := by
  intro c hc
  have hle : s.sessionCounter ≤ s'.sessionCounter := (step_counter hstep).elim (fun h => h.ge) fun h => by omega
  exact (step_unborn hstep hc).1 (h c (hle.trans hc))

theorem delivered_modify {f : Connection → Connection} (h : Delivered s)
    (hf : (f (s.connections c)).accepts = true → (s.connections c).accepts = true ∧
      (f (s.connections c)).due = (s.connections c).due ∧
      (f (s.connections c)).written ++ pending (f (s.connections c)) =
        (s.connections c).written ++ pending (s.connections c)) : Delivered (s.modify c f) := by
  intro c' haccepts
  rw [modify_connections] at haccepts ⊢
  split
  · next hc =>
    subst hc
    rw [if_pos rfl] at haccepts
    obtain ⟨hbefore,hdue,hbytes⟩ := hf haccepts
    have hserved := h c' hbefore
    refine ⟨?_,fun hlisted => ?_⟩
    · rw [hdue,hbytes]
      exact hserved.inOrder
    · rw [hdue,hbytes]
      exact hserved.exactly hlisted
  · next hc =>
    rw [if_neg hc] at haccepts
    exact h c' haccepts

theorem listed_of_update {c' : ℕ} {session : Option ℕ} (hsession : session ≠ some c')
    (h : Function.update s.sessions (sessionId c) session (sessionId c') = some c') : s.Listed c' := by
  rw [Function.update_apply] at h
  split at h
  · exact absurd h hsession
  · exact h

/-- A thread has something in hand when it waits to write, and an open session is owed no less than what its
thread has written and has in hand. -/
structure Owed (conn : Connection) (isOpen : Prop) : Prop where
  some : ∀ data, conn.conout = .lock data → data ≠ []
  enough : isOpen → conn.written.length+(inHand conn).length ≤ conn.due.length

theorem Owed.mono {conn : Connection} {isOpen isOpen' : Prop} (h : Owed conn isOpen) (himp : isOpen' → isOpen) :
    Owed conn isOpen' := ⟨h.some,fun hopen => h.enough (himp hopen)⟩

def Credited (s : PtyWorker) : Prop := ∀ c, Owed (s.connections c) (s.Open c)

theorem credited_modify {f : Connection → Connection} (h : Credited s)
    (hlock : ∀ data, (f (s.connections c)).conout = .lock data → (s.connections c).conout = .lock data)
    (hf : (f (s.connections c)).accepts = true → (s.connections c).accepts = true ∧
      (f (s.connections c)).due = (s.connections c).due ∧
      (f (s.connections c)).written.length+(inHand (f (s.connections c))).length ≤
        (s.connections c).written.length+(inHand (s.connections c)).length) : Credited (s.modify c f) := by
  intro c'
  by_cases hc : c' = c
  · subst hc
    have howed := h c'
    refine ⟨fun data hdata => howed.some data ?_,?_⟩
    · rw [modify_self] at hdata
      exact hlock data hdata
    · rintro ⟨hlisted,haccepts⟩
      rw [modify_self] at haccepts ⊢
      obtain ⟨hbefore,hdue,hlength⟩ := hf haccepts
      rw [hdue]
      exact hlength.trans (howed.enough ⟨hlisted,hbefore⟩)
  · have hconnection : (s.modify c f).connections c' = s.connections c' := by rw [modify_connections,if_neg hc]
    rw [hconnection]
    refine (h c').mono ?_
    rintro ⟨hlisted,haccepts⟩
    rw [hconnection] at haccepts
    exact ⟨hlisted,haccepts⟩

/-- A step of the thread that reads the socket is none of the other thread's. -/
theorem credited_worker {f : Connection → Connection} (h : Credited s)
    (hf : ∀ conn, (f conn).conout = conn.conout ∧ (f conn).accepts = conn.accepts ∧ (f conn).due = conn.due ∧
      (f conn).written = conn.written) : Credited (s.modify c f) := by
  obtain ⟨hconout,haccepts,hdue,hwritten⟩ := hf (s.connections c)
  refine credited_modify h (fun data hdata => hconout ▸ hdata) fun haccepts' => ⟨haccepts ▸ haccepts',hdue,?_⟩
  rw [inHand,inHand,hconout,hwritten]

theorem credited_storeData (h : Credited s) (c : ℕ) (data : Bytes) : Credited (s.storeData c data) := by
  rw [storeData]
  split
  · exact credited_worker h fun _ => ⟨rfl,rfl,rfl,rfl⟩
  · exact h

theorem credited_removeSession (h : Credited s) (c : ℕ) : Credited (s.removeSession c) := fun c' =>
  (h c').mono fun hopen => ⟨listed_of_update (Option.some_ne_none c').symm hopen.1,hopen.2⟩

theorem credit_connections (s : PtyWorker) (data : Bytes) (c : ℕ) : (s.credit data).connections c =
    if s.Open c then { s.connections c with due := (s.connections c).due ++ data } else s.connections c := rfl

/-- What a thread reads is due to its own session, too, if that is open. -/
theorem credited_read (h : Credited s) {data : Bytes} (hpc : (s.connections c).conout = .read) (hdata : data ≠ []) :
    Credited ((s.credit data).modify c fun conn => { conn with conout := .lock data }) := by
  have hcredit : Credited (s.credit data) := by
    intro c'
    rw [credit_connections]
    split
    · next hopen =>
      have howed := h c'
      refine ⟨howed.some,fun _ => (howed.enough hopen).trans ?_⟩
      simp
    · next hclosed =>
      refine (h c').mono ?_
      rintro ⟨hlisted,haccepts⟩
      rw [credit_connections,if_neg hclosed] at haccepts
      exact ⟨hlisted,haccepts⟩
  intro c'
  by_cases hc : c' = c
  · subst hc
    rw [modify_self]
    refine ⟨?_,?_⟩
    · rintro data' hlock
      obtain rfl := ConoutThread.lock.inj hlock
      exact hdata
    · rintro ⟨hlisted,haccepts⟩
      rw [modify_self,credit_connections] at haccepts
      have hopen : s.Open c' := by
        refine ⟨hlisted,?_⟩
        split at haccepts
        · exact haccepts
        · exact haccepts
      have henough := (h c').enough hopen
      have hnone : inHand (s.connections c') = [] := by rw [inHand,hpc]
      rw [hnone] at henough
      rw [credit_connections,if_pos hopen]
      simp only [inHand,List.length_append,List.length_nil] at henough ⊢
      omega
  · have hconnection : ((s.credit data).modify c fun conn => { conn with conout := .lock data }).connections c' =
        (s.credit data).connections c' := by rw [modify_connections,if_neg hc]
    rw [hconnection]
    refine (hcredit c').mono ?_
    rintro ⟨hlisted,haccepts⟩
    rw [hconnection] at haccepts
    exact ⟨hlisted,haccepts⟩

theorem step_credited (h : Credited s) (hstep : Step s action s') : Credited s' := by
  cases hstep with
  | acceptNext | acceptStop | setFlag | closeConout | lockSessions | unlockSessions => exact h
  | insert =>
    intro c'
    have hconnection : ((s.modify s.sessionCounter fun _ => .opened).insertSession s.sessionCounter).connections c' =
        if c' = s.sessionCounter then .opened else s.connections c' :=
      modify_connections s s.sessionCounter c' fun _ => .opened
    show Owed (((s.modify s.sessionCounter fun _ => .opened).insertSession s.sessionCounter).connections c') _
    by_cases hc : c' = s.sessionCounter
    · rw [hconnection,if_pos hc]
      refine ⟨fun data hdata => ?_,fun _ => le_rfl⟩
      cases hdata
    · rw [hconnection,if_neg hc]
      refine (h c').mono ?_
      rintro ⟨hlisted,haccepts⟩
      refine ⟨listed_of_update (fun hsome => hc (Option.some.inj hsome).symm) hlisted,?_⟩
      have hsame := hconnection
      rw [if_neg hc] at hsame
      exact (congrArg Connection.accepts hsame).symm.trans haccepts
  | spawn forConout forWorker =>
    have hspawned : Credited (s.modify s.sessionCounter (.spawned forConout forWorker)) := by
      refine credited_modify h (fun data hdata => by cases forConout <;> cases hdata) fun haccepts => ⟨haccepts,rfl,?_⟩
      cases forConout <;> simp [Connection.spawned,inHand]
    exact hspawned
  | conoutCheck hpc =>
    refine credited_modify h (fun data hdata => ?_) fun haccepts => ⟨haccepts,rfl,?_⟩
    · dsimp only at hdata
      split at hdata <;> cases hdata
    · split <;> simp [inHand,hpc]
  | conoutReadData hpc hdata => exact credited_read h hpc hdata.1
  | conoutReadEnd hpc =>
    have hended : Credited s.endConout := h
    exact credited_modify hended (fun data hdata => by cases hdata) fun haccepts => ⟨haccepts,rfl,by simp [inHand,hpc]⟩
  | conoutReadNothing hpc | conoutLock hpc | conoutWritten hpc =>
    refine credited_modify h (fun data hdata => by cases hdata) fun haccepts => ⟨haccepts,rfl,?_⟩
    simp [inHand,hpc]
  | conoutWriteFailed | conoutRelock | conoutClose =>
    exact credited_modify h (fun data hdata => by cases hdata) fun haccepts => absurd haccepts Bool.false_ne_true
  | @conoutRemove c hpc =>
    refine credited_modify (credited_removeSession h c) (fun data hdata => by cases hdata) fun haccepts => ?_
    exact ⟨haccepts,rfl,by simp [inHand,hpc]⟩
  | workerContinue | workerStop | workerLock | workerReadData | workerReadNothing | workerReadEnd | workerSent
  | workerSendFailed => exact credited_worker h fun _ => ⟨rfl,rfl,rfl,rfl⟩
  | @workerStore c data => exact credited_worker (credited_storeData h c data) fun _ => ⟨rfl,rfl,rfl,rfl⟩
  | @workerRemove c => exact credited_worker (credited_removeSession h c) fun _ => ⟨rfl,rfl,rfl,rfl⟩
  | @closeSocket c =>
    have hclosed : Credited (s.modify c fun conn => { conn with accepts := false }) :=
      credited_modify h (fun _ hdata => hdata) fun haccepts => absurd haccepts Bool.false_ne_true
    exact hclosed

/-- A session that leaves the map is owed nothing more. -/
theorem delivered_removeSession (h : Delivered s) (c : ℕ) : Delivered (s.removeSession c) :=
  fun c' haccepts => (h c' haccepts).mono (listed_of_update (Option.some_ne_none c').symm)

theorem delivered_insert (h : Delivered s) (c : ℕ) :
    Delivered ((s.modify c fun _ => .opened).insertSession c) := by
  intro c' haccepts
  have hconnection : ((s.modify c fun _ => .opened).insertSession c).connections c' =
      if c' = c then .opened else s.connections c' := modify_connections s c c' fun _ => .opened
  rw [hconnection] at haccepts ⊢
  split
  · exact ⟨List.nil_prefix,fun _ => rfl⟩
  · next hc =>
    rw [if_neg hc] at haccepts
    exact (h c' haccepts).mono (listed_of_update fun hsome => hc (Option.some.inj hsome).symm)

theorem delivered_storeData (h : Delivered s) (c : ℕ) (data : Bytes) : Delivered (s.storeData c data) := by
  rw [storeData]
  split
  · exact delivered_modify h fun haccepts => ⟨haccepts,rfl,rfl⟩
  · exact h

/-- Data that one thread reads is delivered to all open sessions when there is no other one and its own
socket is not being read. -/
theorem delivered_read_iff (h : Delivered s) {data : Bytes} (hpc : (s.connections c).conout = .read)
    (hdata : data ≠ []) : Delivered ((s.credit data).modify c fun conn => { conn with conout := .lock data }) ↔
      (∀ c', s.Open c' → c' = c) ∧ (s.Open c → (s.connections c).reads = false) := by
  have hpending : pending (s.connections c) = [] := by rw [pending,hpc]
  constructor
  · intro hafter
    refine ⟨fun c' hopen => ?_,fun hopen => ?_⟩
    · by_contra hc
      have hconnection : ((s.credit data).modify c fun conn => { conn with conout := .lock data }).connections c' =
          { s.connections c' with due := (s.connections c').due ++ data } := by
        rw [modify_connections,if_neg hc,credit_connections,if_pos hopen]
      have hserved := hafter c'
      rw [hconnection] at hserved
      have hexact := (hserved hopen.2).exactly hopen.1
      have hbefore := (h c' hopen.2).exactly hopen.1
      exact hdata (List.self_eq_append_right.mp (hbefore.symm.trans hexact))
    · by_contra hreads
      have hconnection : ((s.credit data).modify c fun conn => { conn with conout := .lock data }).connections c =
          { s.connections c with conout := .lock data,due := (s.connections c).due ++ data } := by
        rw [modify_self,credit_connections,if_pos hopen]
      have hserved := hafter c
      rw [hconnection] at hserved
      have hexact := (hserved hopen.2).exactly hopen.1
      have htrue : (s.connections c).reads = true := by simpa using hreads
      have hstuck : pending { s.connections c with conout := .lock data,due := (s.connections c).due ++ data } = [] :=
        if_pos htrue
      have hbefore := (h c hopen.2).exactly hopen.1
      rw [hpending] at hbefore
      rw [hstuck] at hexact
      exact hdata (List.self_eq_append_right.mp (hbefore.symm.trans hexact))
  · rintro ⟨honly,hfree⟩ c' haccepts
    rw [modify_connections,credit_connections] at haccepts ⊢
    split
    · next hc =>
      subst hc
      rw [if_pos rfl] at haccepts
      by_cases hopen : s.Open c'
      · have hbefore := (h c' hopen.2).exactly hopen.1
        rw [hpending,List.append_nil] at hbefore
        rw [if_pos hopen]
        have hexact : (s.connections c').written ++ (if (s.connections c').reads then [] else data) =
            (s.connections c').due ++ data := by rw [hbefore,if_neg (by simpa using hfree hopen)]
        exact ⟨hexact ▸ List.prefix_rfl,fun _ => hexact⟩
      · rw [if_neg hopen] at haccepts ⊢
        have hbefore := (h c' haccepts).inOrder
        rw [hpending,List.append_nil] at hbefore
        exact ⟨hbefore.trans (List.prefix_append _ _),fun hlisted => absurd ⟨hlisted,haccepts⟩ hopen⟩
    · next hc =>
      have hclosed : ¬s.Open c' := fun hopen => hc (honly c' hopen)
      rw [if_neg hc] at haccepts
      rw [credit_connections,if_neg hclosed] at haccepts ⊢
      exact h c' haccepts

/-- Data in hand makes no difference to an update that leaves it alone and the guard of the socket. -/
theorem pending_of_not_lock {conn conn' : Connection} (hconout : conn'.conout = conn.conout)
    (h : ∀ data, conn.conout ≠ .lock data) : pending conn' = pending conn := by
  rw [pending,pending,hconout]
  cases hcase : conn.conout with
  | lock data => exact absurd hcase (h data)
  | _ => rfl

/-- What an open session is owed is more than what was written while something is in hand. -/
theorem Owed.unwritten {conn : Connection} {isOpen : Prop} (h : Owed conn isOpen) (hopen : isOpen) {data : Bytes}
    (hlock : conn.conout = .lock data) : ¬conn.due <+: conn.written := by
  intro hordered
  have henough := h.enough hopen
  have hlength := hordered.length_le
  have hdata := List.length_pos_of_ne_nil (h.some data hlock)
  have hhand : inHand conn = data := by rw [inHand,hlock]
  rw [hhand] at henough
  omega

/-- The thread that reads the socket gives the mutex back. -/
theorem delivered_released {f : Connection → Connection} (hcredited : Credited s) (h : Delivered s)
    (hreads : (s.connections c).reads = true)
    (hf : ∀ conn, (f conn).conout = conn.conout ∧ (f conn).accepts = conn.accepts ∧ (f conn).due = conn.due ∧
      (f conn).written = conn.written) : Delivered (s.modify c f) := by
  obtain ⟨hconout,haccepts,hdue,hwritten⟩ := hf (s.connections c)
  by_cases hlock : ∃ data, (s.connections c).conout = .lock data
  · obtain ⟨data,hlock⟩ := hlock
    intro c' haccepts'
    rw [modify_connections] at haccepts' ⊢
    split
    · next hc =>
      subst hc
      rw [if_pos rfl,haccepts] at haccepts'
      have hserved := h c' haccepts'
      have hstuck : pending (s.connections c') = [] := by simp only [pending,hlock,hreads,if_true]
      have hordered := hserved.inOrder
      rw [hstuck,List.append_nil] at hordered
      rw [← hdue,← hwritten] at hordered
      refine ⟨hordered.trans (List.prefix_append _ _),fun hlisted => ?_⟩
      rw [hdue,hwritten] at hordered
      exact absurd hordered ((hcredited c').unwritten ⟨hlisted,haccepts'⟩ hlock)
    · next hc =>
      rw [if_neg hc] at haccepts'
      exact h c' haccepts'
  · push Not at hlock
    refine delivered_modify h fun haccepts' => ⟨haccepts ▸ haccepts',hdue,?_⟩
    rw [hwritten,pending_of_not_lock hconout hlock]

/-- The thread that reads the socket takes the mutex. -/
theorem delivered_taken_iff (hcredited : Credited s) (h : Delivered s) (hpc : (s.connections c).worker = .lock) :
    Delivered (s.modify c fun conn => { conn with worker := .read }) ↔
      ((s.connections c).accepts = true → ∀ data, (s.connections c).conout = .lock data →
        (s.connections c).due <+: (s.connections c).written) := by
  constructor
  · intro hafter haccepts data hlock
    have hserved := hafter c
    rw [modify_self] at hserved
    have hordered := (hserved haccepts).inOrder
    have hstuck : pending { s.connections c with worker := .read } = [] := by simp [pending,hlock,Connection.reads]
    rwa [hstuck,List.append_nil] at hordered
  · intro hdue
    by_cases hlock : ∃ data, (s.connections c).conout = .lock data
    · obtain ⟨data,hlock⟩ := hlock
      intro c' haccepts
      rw [modify_connections] at haccepts ⊢
      split
      · next hc =>
        subst hc
        rw [if_pos rfl] at haccepts
        have hordered := hdue haccepts data hlock
        refine ⟨hordered.trans (List.prefix_append _ _),fun hlisted => ?_⟩
        exact absurd hordered ((hcredited c').unwritten ⟨hlisted,haccepts⟩ hlock)
      · next hc =>
        rw [if_neg hc] at haccepts
        exact h c' haccepts
    · push Not at hlock
      exact delivered_modify h fun haccepts => ⟨haccepts,rfl,congrArg _ (pending_of_not_lock rfl hlock)⟩

theorem step_delivered_iff (hunspawned : Unspawned s) (hcredited : Credited s) (h : Delivered s)
    (hstep : Step s action s') : Delivered s' ↔ ReadsForAll s action := by
  cases hstep with
  | acceptNext | acceptStop | setFlag | closeConout | lockSessions | unlockSessions => exact iff_of_true h trivial
  | insert =>
    have hinserted := delivered_insert h s.sessionCounter
    exact iff_of_true hinserted trivial
  | spawn forConout forWorker =>
    have hpending : pending (s.connections s.sessionCounter) = [] := by rw [pending,hunspawned _ le_rfl]
    have hspawned : Delivered (s.modify s.sessionCounter (.spawned forConout forWorker)) := by
      refine delivered_modify h fun haccepts => ⟨haccepts,rfl,?_⟩
      rw [hpending]
      cases forConout <;> rfl
    exact iff_of_true hspawned trivial
  | conoutCheck hpc =>
    refine iff_of_true (delivered_modify h fun haccepts => ⟨haccepts,rfl,?_⟩) trivial
    split <;> simp [pending,hpc]
  | conoutReadData hpc hdata => exact delivered_read_iff h hpc hdata.1
  | @conoutReadEnd c result hpc hresult =>
    have hended : Delivered s.endConout := h
    refine iff_of_true (delivered_modify hended fun haccepts => ⟨haccepts,rfl,by simp [pending,hpc]⟩) ?_
    rcases hresult with rfl | rfl <;> trivial
  | conoutLock hpc hfree =>
    refine iff_of_true (delivered_modify h fun haccepts => ⟨haccepts,rfl,?_⟩) trivial
    simp [pending,hpc,reads_of_free hfree]
  | conoutReadNothing hpc | conoutWritten hpc =>
    exact iff_of_true (delivered_modify h fun haccepts => ⟨haccepts,rfl,by simp [pending,hpc]⟩) trivial
  | conoutWriteFailed | conoutRelock | conoutClose =>
    exact iff_of_true (delivered_modify h fun haccepts => absurd haccepts Bool.false_ne_true) trivial
  | @conoutRemove c hpc =>
    refine iff_of_true (delivered_modify (delivered_removeSession h c) fun haccepts => ⟨haccepts,rfl,?_⟩) trivial
    simp [pending,hpc]
  | workerContinue hpc | workerReadData hpc | workerSent hpc =>
    refine iff_of_true (delivered_modify h fun haccepts => ⟨haccepts,rfl,?_⟩) trivial
    simp [pending,Connection.reads,hpc]
  | workerLock hpc => exact delivered_taken_iff hcredited h hpc
  | workerStop hpc =>
    have hshut : Delivered s.shutConout := h
    refine iff_of_true (delivered_modify hshut fun haccepts => ⟨haccepts,rfl,?_⟩) trivial
    simp [pending,Connection.reads,hpc]
  | @workerReadNothing c hpc =>
    have hreads : (s.connections c).reads = true := by rw [Connection.reads,hpc]
    exact iff_of_true (delivered_released hcredited h hreads fun _ => ⟨rfl,rfl,rfl,rfl⟩) trivial
  | @workerReadEnd c result hpc hresult =>
    have hshut : Delivered s.shutConout := h
    have hreads : (s.shutConout.connections c).reads = true := by rw [shutConout_connections,Connection.reads,hpc]
    refine iff_of_true (delivered_released hcredited hshut hreads fun _ => ⟨rfl,rfl,rfl,rfl⟩) ?_
    rcases hresult with rfl | rfl <;> trivial
  | @workerSendFailed c data hpc =>
    have hshut : Delivered s.endConout.shutConout := h
    have hreads : (s.endConout.shutConout.connections c).reads = true := by
      rw [shutConout_connections,endConout_connections,Connection.reads,hpc]
    exact iff_of_true (delivered_released hcredited hshut hreads fun _ => ⟨rfl,rfl,rfl,rfl⟩) trivial
  | @workerStore c data hpc =>
    have hreads : ((s.storeData c data).connections c).reads = true := by
      rw [Connection.reads,storeData_worker,hpc]
    exact iff_of_true (delivered_released (credited_storeData hcredited c data) (delivered_storeData h c data) hreads
      fun _ => ⟨rfl,rfl,rfl,rfl⟩) trivial
  | @workerRemove c hpc =>
    refine iff_of_true (delivered_modify (delivered_removeSession h c) fun haccepts => ⟨haccepts,rfl,?_⟩) trivial
    simp [pending,Connection.reads,hpc]
  | @closeSocket c =>
    have hclosed : Delivered (s.modify c fun conn => { conn with accepts := false }) :=
      delivered_modify h fun haccepts => absurd haccepts Bool.false_ne_true
    exact iff_of_true hclosed trivial

theorem start_delivered : Delivered start := fun _ haccepts => absurd haccepts Bool.false_ne_true

theorem start_credited : Credited start := fun c => by
  refine ⟨fun data hdata => ?_,fun _ => le_rfl⟩
  cases hdata

/-- Every open session gets what is read from conout exactly as long as no thread reads while another
session is open, and nobody keeps the socket from being written. -/
theorem read_delivered_iff (hrun : Run Step start trace s) :
    Throughout Delivered trace s ↔ Each ReadsForAll trace := by
  have hunspawned : Throughout Unspawned trace s :=
    hrun.throughout (fun _ _ => rfl) fun _ _ _ h hstep => step_unspawned h hstep
  have hcredited : Throughout Credited trace s :=
    hrun.throughout start_credited fun _ _ _ h hstep => step_credited h hstep
  exact hrun.throughout_iff (hunspawned.and hcredited) start_delivered
    fun _ _ _ hi h hstep => step_delivered_iff hi.1 hi.2 h hstep

theorem read_delivered_one : ∃ trace, Run Step start trace piped ∧
    (Throughout Delivered trace piped ↔ Each ReadsForAll trace) := by
  obtain ⟨trace,hrun⟩ := run_piped
  exact ⟨trace,hrun,read_delivered_iff hrun⟩

/-- What the thread of the first session reads never reaches the second one. -/
theorem read_lost : ¬∀ (trace : List (PtyWorker × WorkerAction)) (s : PtyWorker),
    Run Step start trace s → Throughout Delivered trace s := by
  intro h
  obtain ⟨trace,hrun⟩ := run_two
  have hcheck : ((connect (connect start)).connections 0).conout = .check :=
    congrArg Connection.conout (two_connections Nat.zero_lt_two)
  let reading := (connect (connect start)).modify 0 fun conn => { conn with conout := .read }
  have h₁ : Step (connect (connect start)) (.conoutCheck 0) reading := .conoutCheck hcheck
  have hpc : (reading.connections 0).conout = .read := by simp [reading]
  have h₂ : Step reading (.conoutRead 0 (.data [65])) _ := .conoutReadData hpc (by simp)
  have hbefore := h _ _ (hrun.snoc h₁)
  have hafter := h _ _ ((hrun.snoc h₁).snoc h₂)
  have hopen : reading.Open 1 := by
    have hone : reading.connections 1 = .spawned true true .opened :=
      (modify_connections _ 0 1 _).trans (two_connections Nat.one_lt_two)
    refine ⟨?_,congrArg Connection.accepts hone⟩
    decide
  have honly := (delivered_read_iff hbefore.2 hpc (by simp)).mp hafter.2
  exact absurd (honly.1 1 hopen) (by decide)

end PtyWorker
end NodeRustPty
