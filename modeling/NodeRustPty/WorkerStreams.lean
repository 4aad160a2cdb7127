import NodeRustPty.PtyWorker

/-! What the piping threads of a worker do with the bytes of their worker sockets: each chunk is read
and sent on to conout once, and stored as long as its session is in the map. `get_session_data` gives
out what was stored for its session and nothing of another one. -/
namespace NodeRustPty

/-- The chunk that a thread has read and not yet sent on. -/
def WorkerThread.toSend : WorkerThread → Option Bytes
  | .send data => some data
  | _ => none

/-- The chunk that it has sent on and is about to store. -/
def WorkerThread.toStore : WorkerThread → Option Bytes
  | .store data => some data
  | _ => none

/-- The thread has left its loop. -/
def WorkerThread.Left (thread : WorkerThread) : Prop := thread = .remove ∨ thread = .ended

namespace PtyWorker

open Transitions

/-- An error of status `InvalidArg`. -/
inductive SessionError
  | invalidArg (reason : String)
  deriving DecidableEq

def getSessionData (s : PtyWorker) (sessionId : UInt32) : Except SessionError Bytes :=
  match s.sessions sessionId with
  | some session => .ok (s.connections session).dataBuffer
  | none => .error (.invalidArg s!"Session ID {sessionId} does not exist.")

/-! ### The chunks of one connection -/

/-- The chunk that a step reads from the worker socket of a connection. -/
def readIn (c : ℕ) : WorkerAction → Option Bytes
  | .workerRead c' (.data data) => if c' = c then some data else none
  | _ => none

/-- The chunk that a step has sent on to conout, and the one that it is through with. -/
def sentIn (c : ℕ) (s : PtyWorker) : WorkerAction → Option Bytes
  | .workerSent c' => if c' = c then (s.connections c).worker.toSend else none
  | _ => none

def handledIn (c : ℕ) (s : PtyWorker) : WorkerAction → Option Bytes
  | .workerStore c' => if c' = c then (s.connections c).worker.toStore else none
  | _ => none

/-- The chunk that it stores. Without its session in the map it has no buffer for it. -/
def storedIn (c : ℕ) (s : PtyWorker) (action : WorkerAction) : Option Bytes :=
  if s.sessions (sessionId c) = some c then handledIn c s action else none

/-- All chunks of a run. -/
def received (c : ℕ) (trace : List (PtyWorker × WorkerAction)) : List Bytes :=
  trace.filterMap fun visit => readIn c visit.2

def sent (c : ℕ) (trace : List (PtyWorker × WorkerAction)) : List Bytes :=
  trace.filterMap fun visit => sentIn c visit.1 visit.2

def handled (c : ℕ) (trace : List (PtyWorker × WorkerAction)) : List Bytes :=
  trace.filterMap fun visit => handledIn c visit.1 visit.2

def stored (c : ℕ) (trace : List (PtyWorker × WorkerAction)) : List Bytes :=
  trace.filterMap fun visit => storedIn c visit.1 visit.2

variable {s s' : PtyWorker} {action : WorkerAction} {c : ℕ} {trace : List (PtyWorker × WorkerAction)}

theorem received_snoc : received c (trace ++ [(s,action)]) = received c trace ++ (readIn c action).toList := by
  rw [received,List.filterMap_append]
  cases h : readIn c action <;> simp [received,h]

theorem sent_snoc : sent c (trace ++ [(s,action)]) = sent c trace ++ (sentIn c s action).toList := by
  rw [sent,List.filterMap_append]
  cases h : sentIn c s action <;> simp [sent,h]

theorem handled_snoc : handled c (trace ++ [(s,action)]) = handled c trace ++ (handledIn c s action).toList := by
  rw [handled,List.filterMap_append]
  cases h : handledIn c s action <;> simp [handled,h]

theorem stored_snoc : stored c (trace ++ [(s,action)]) = stored c trace ++ (storedIn c s action).toList := by
  rw [stored,List.filterMap_append]
  cases h : storedIn c s action <;> simp [stored,h]

/-- No thread and no data of a connection before it is accepted. -/
def Unaccepted (s : PtyWorker) : Prop :=
  ∀ c, s.sessionCounter ≤ c → (s.connections c).worker = .unborn ∧ (s.connections c).dataBuffer = []

/-- How one step moves the thread of a connection, with the chunk that it reads, sends or is through with. -/
inductive Moves : WorkerThread → Option Bytes → Option Bytes → Option Bytes → WorkerThread → Prop
  | stays (thread : WorkerThread) : Moves thread none none none thread
  | passes {thread thread' : WorkerThread} (hbefore : thread.toSend = none ∧ thread.toStore = none)
      (hafter : thread'.toSend = none ∧ thread'.toStore = none) (hleft : thread.Left → thread'.Left) :
      Moves thread none none none thread'
  | reads (data : Bytes) : Moves .read (some data) none none (.send data)
  | sends (data : Bytes) : Moves (.send data) none (some data) none (.store data)
  | stores (data : Bytes) : Moves (.store data) none none (some data) .check
  | loses (data : Bytes) : Moves (.send data) none none none .remove

/-- A field that an update of one connection leaves as it is. -/
theorem modify_field {α : Type} (field : Connection → α) {f : Connection → Connection} {c' : ℕ}
    (hf : field (f (s.connections c')) = field (s.connections c')) :
    field ((s.modify c' f).connections c) = field (s.connections c) := by
  rw [modify_connections]
  split
  · next h => rw [hf,h]
  · rfl

/-- A step about another connection, or about the other thread. -/
theorem moves_same (hread : readIn c action = none) (hsent : sentIn c s action = none)
    (hhandled : handledIn c s action = none) (hworker : (s'.connections c).worker = (s.connections c).worker) :
    Moves (s.connections c).worker (readIn c action) (sentIn c s action) (handledIn c s action)
      (s'.connections c).worker := by
  rw [hread,hsent,hhandled,hworker]
  exact .stays _

/-- A step of the thread of one connection, from a state in which the threads are the same. -/
theorem moves_modify {base : PtyWorker} {f : Connection → Connection} {c' : ℕ}
    (hbase : ∀ c, (base.connections c).worker = (s.connections c).worker)
    (hnone : c' ≠ c → readIn c action = none ∧ sentIn c s action = none ∧ handledIn c s action = none)
    (hmove : c' = c → Moves (s.connections c).worker (readIn c action) (sentIn c s action) (handledIn c s action)
      (f (base.connections c)).worker) :
    Moves (s.connections c).worker (readIn c action) (sentIn c s action) (handledIn c s action)
      ((base.modify c' f).connections c).worker := by
  by_cases hc : c' = c
  · subst hc
    rw [modify_self]
    exact hmove rfl
  · obtain ⟨hread,hsent,hhandled⟩ := hnone hc
    rw [hread,hsent,hhandled,modify_connections,if_neg (Ne.symm hc),hbase]
    exact .stays _

/-- A step of the thread that reads and sends nothing and is through with nothing. -/
theorem moves_quiet {base : PtyWorker} {f : Connection → Connection} {c' : ℕ} {thread : WorkerThread}
    (hbase : ∀ c, (base.connections c).worker = (s.connections c).worker)
    (hread : readIn c action = none) (hsent : sentIn c s action = none) (hhandled : handledIn c s action = none)
    (hthread : ∀ conn, (f conn).worker = thread)
    (hmove : Moves (s.connections c').worker none none none thread) :
    Moves (s.connections c).worker (readIn c action) (sentIn c s action) (handledIn c s action)
      ((base.modify c' f).connections c).worker := by
  refine moves_modify hbase (fun _ => ⟨hread,hsent,hhandled⟩) ?_
  rintro rfl
  rwa [hread,hsent,hhandled,hthread]

theorem step_moves (hunaccepted : Unaccepted s) (hstep : Step s action s') (c : ℕ) :
    Moves (s.connections c).worker (readIn c action) (sentIn c s action) (handledIn c s action)
      (s'.connections c).worker := by
  have hsame (c : ℕ) : (s.connections c).worker = (s.connections c).worker := rfl
  cases hstep with
  | acceptNext | acceptStop | setFlag | closeConout | lockSessions | unlockSessions => exact .stays _
  | insert =>
    have hworker : ((s.modify s.sessionCounter fun _ => .opened).connections c).worker = (s.connections c).worker :=
      modify_field Connection.worker (hunaccepted _ le_rfl).1.symm
    exact moves_same rfl rfl rfl hworker
  | spawn forConout forWorker =>
    have hmove : Moves (s.connections s.sessionCounter).worker none none none
        (if forWorker then .check else .unavailable) := by
      rw [(hunaccepted _ le_rfl).1]
      cases forWorker <;> exact .passes ⟨rfl,rfl⟩ ⟨rfl,rfl⟩ (by simp [WorkerThread.Left])
    have hspawned : ∀ conn, (Connection.spawned forConout forWorker conn).worker =
        if forWorker then .check else .unavailable := fun _ => rfl
    exact moves_quiet hsame rfl rfl rfl hspawned hmove
  | conoutCheck | conoutReadNothing | conoutReadEnd | conoutLock | conoutWritten | conoutWriteFailed
  | conoutRelock | conoutClose | conoutRemove => exact moves_same rfl rfl rfl (modify_field Connection.worker rfl)
  | @conoutReadData c' data =>
    exact moves_same rfl rfl rfl ((modify_field Connection.worker rfl).trans (credit_worker s c data))
  | @closeSocket c' =>
    have hworker : ((s.modify c' fun conn => { conn with accepts := false }).connections c).worker =
        (s.connections c).worker := modify_field Connection.worker rfl
    exact moves_same rfl rfl rfl hworker
  | workerContinue hpc | workerStop hpc | workerLock hpc | workerReadNothing hpc | workerRemove hpc =>
    refine moves_quiet hsame rfl rfl rfl (fun _ => rfl) ?_
    rw [hpc]
    exact .passes ⟨rfl,rfl⟩ ⟨rfl,rfl⟩ (by simp [WorkerThread.Left])
  | @workerReadEnd c' result hpc hresult =>
    have hread : readIn c (.workerRead c' result) = none := by
      rcases hresult with rfl | rfl <;> rfl
    refine moves_quiet hsame hread rfl rfl (fun _ => rfl) ?_
    rw [hpc]
    exact .passes ⟨rfl,rfl⟩ ⟨rfl,rfl⟩ (by simp [WorkerThread.Left])
  | workerSendFailed hpc =>
    refine moves_quiet hsame rfl rfl rfl (fun _ => rfl) ?_
    rw [hpc]
    exact .loses _
  | @workerReadData c' data hpc =>
    refine moves_modify hsame (fun hc => ⟨if_neg hc,rfl,rfl⟩) ?_
    rintro rfl
    rw [hpc,readIn,if_pos rfl]
    exact .reads data
  | @workerSent c' data hpc =>
    refine moves_modify hsame (fun hc => ⟨rfl,if_neg hc,rfl⟩) ?_
    rintro rfl
    rw [sentIn,if_pos rfl,hpc]
    exact .sends data
  | @workerStore c' data hpc =>
    refine moves_modify (fun c => storeData_worker s c' c data) (fun hc => ⟨rfl,rfl,if_neg hc⟩) ?_
    rintro rfl
    rw [handledIn,if_pos rfl,hpc]
    exact .stores data

/-! ### Each chunk once and in order -/

/-- A chunk is sent after it was read, and the thread is through with it after it was sent. One may be
in hand, and one may be lost with the thread. -/
structure Piped (thread : WorkerThread) (received sent handled : List Bytes) : Prop where
  forwarded : received = sent ++ thread.toSend.toList ∨ thread.Left ∧ ∃ data, received = sent ++ [data]
  kept : sent = handled ++ thread.toStore.toList

theorem Moves.piped {thread thread' : WorkerThread} {read send store : Option Bytes}
    {received sent handled : List Bytes} (hmove : Moves thread read send store thread')
    (h : Piped thread received sent handled) :
    Piped thread' (received ++ read.toList) (sent ++ send.toList) (handled ++ store.toList) := by
  obtain ⟨hforwarded,hkept⟩ := h
  cases hmove with
  | stays => exact ⟨by simpa using hforwarded,by simpa using hkept⟩
  | passes hbefore hafter hleft =>
    rw [hbefore.1] at hforwarded
    rw [hbefore.2] at hkept
    refine ⟨?_,by simpa [hafter.2] using hkept⟩
    rw [hafter.1]
    simpa using hforwarded.imp_right fun hlost => ⟨hleft hlost.1,hlost.2⟩
  | reads data =>
    have hall : received = sent := by simpa [WorkerThread.toSend,WorkerThread.Left] using hforwarded
    exact ⟨.inl (by simp [hall,WorkerThread.toSend]),by simpa [WorkerThread.toStore] using hkept⟩
  | sends data =>
    have hall : received = sent ++ [data] := by simpa [WorkerThread.toSend,WorkerThread.Left] using hforwarded
    have hhandled : sent = handled := by simpa [WorkerThread.toStore] using hkept
    exact ⟨.inl (by simp [hall,WorkerThread.toSend]),by simp [hhandled,WorkerThread.toStore]⟩
  | stores data =>
    have hall : received = sent := by simpa [WorkerThread.toSend,WorkerThread.Left] using hforwarded
    exact ⟨.inl (by simp [hall,WorkerThread.toSend]),by simpa [WorkerThread.toStore] using hkept⟩
  | loses data =>
    have hall : received = sent ++ [data] := by simpa [WorkerThread.toSend,WorkerThread.Left] using hforwarded
    exact ⟨.inr ⟨.inl rfl,data,by simp [hall]⟩,by simpa [WorkerThread.toStore] using hkept⟩

/-! ### The buffers of the sessions -/

/-- The sessions of the map were accepted, and each has its own id. -/
def Filed (s : PtyWorker) : Prop :=
  ∀ id c, s.sessions id = some c → sessionId c = id ∧
    (c < s.sessionCounter ∨ c = s.sessionCounter ∧ s.acceptor = .spawning)

theorem sessionId_inj {c c' : ℕ} (hc : c < 2^32) (hc' : c' < 2^32) (h : sessionId c = sessionId c') : c = c' := by
  have hnat := congrArg UInt32.toNat h
  simp only [sessionId,UInt32.toNat_ofNat'] at hnat
  omega

/-- What is stored goes to the buffer of the session itself, or nowhere. -/
theorem storeData_eq {data : Bytes} (hfiled : Filed s) (hunaccepted : Unaccepted s) (hcount : s.sessionCounter < 2^32)
    (hpc : (s.connections c).worker = .store data) : s.storeData c data =
      if s.sessions (sessionId c) = some c then
        s.modify c fun conn => { conn with dataBuffer := conn.dataBuffer ++ data }
      else s := by
  have hc : c < s.sessionCounter := by
    by_contra hge
    have hunborn := (hunaccepted c (by omega)).1
    rw [hpc] at hunborn
    cases hunborn
  rw [storeData]
  cases hsession : s.sessions (sessionId c) with
  | none => rfl
  | some session =>
    obtain ⟨hid,hlt⟩ := hfiled _ _ hsession
    obtain rfl : session = c := sessionId_inj (by omega) (by omega) hid
    rw [if_pos rfl]

/-- Only an accepted connection comes into the map. -/
theorem step_sessions {id : UInt32} (hstep : Step s action s') (h : s'.sessions id = some c) :
    s.sessions id = some c ∨ action = .insert ∧ c = s.sessionCounter ∧ id = sessionId c := by
  have hremoved (c' : ℕ) (h : Function.update s.sessions (sessionId c') none id = some c) :
      s.sessions id = some c := by
    rw [Function.update_apply] at h
    split at h
    · cases h
    · exact h
  cases hstep with
  | insert =>
    have hupdate : Function.update s.sessions (sessionId s.sessionCounter) (some s.sessionCounter) id = some c := h
    rw [Function.update_apply] at hupdate
    split at hupdate
    · next hid =>
      obtain rfl := Option.some.inj hupdate
      exact .inr ⟨rfl,rfl,hid⟩
    · exact .inl hupdate
  | @conoutRemove c' => exact .inl (hremoved c' h)
  | @workerRemove c' => exact .inl (hremoved c' h)
  | @workerStore c' data =>
    have hsessions : (s.storeData c' data).sessions = s.sessions :=
      storeData_keeps s c' data PtyWorker.sessions fun _ _ _ => rfl
    exact .inl (hsessions ▸ h)
  | _ => exact .inl h

theorem step_buffers (hunaccepted : Unaccepted s) (hstep : Step s action s')
    (hstore : ∀ c', action ≠ .workerStore c') (c : ℕ) :
    (s'.connections c).dataBuffer = (s.connections c).dataBuffer := by
  cases hstep with
  | acceptNext | acceptStop | setFlag | closeConout | lockSessions | unlockSessions => rfl
  | insert =>
    have hbuffer : ((s.modify s.sessionCounter fun _ => .opened).connections c).dataBuffer =
        (s.connections c).dataBuffer := modify_field Connection.dataBuffer (hunaccepted _ le_rfl).2.symm
    exact hbuffer
  | spawn forConout forWorker =>
    have hbuffer : ((s.modify s.sessionCounter (.spawned forConout forWorker)).connections c).dataBuffer =
        (s.connections c).dataBuffer := modify_field Connection.dataBuffer rfl
    exact hbuffer
  | @conoutReadData c' data =>
    have hcredit : ((s.credit data).connections c).dataBuffer = (s.connections c).dataBuffer := by
      rw [credit]
      dsimp only
      split <;> rfl
    exact (modify_field Connection.dataBuffer rfl).trans hcredit
  | @closeSocket c' =>
    have hbuffer : ((s.modify c' fun conn => { conn with accepts := false }).connections c).dataBuffer =
        (s.connections c).dataBuffer := modify_field Connection.dataBuffer rfl
    exact hbuffer
  | @workerStore c' => exact absurd rfl (hstore c')
  | _ => exact modify_field Connection.dataBuffer rfl

theorem step_filed (h : Filed s) (hstep : Step s action s') : Filed s' := by
  intro id c hsession
  rcases step_sessions hstep hsession with hbefore | ⟨rfl,rfl,rfl⟩
  · obtain ⟨hid,hc⟩ := h id c hbefore
    refine ⟨hid,?_⟩
    cases hstep with
    | acceptNext hpc | acceptStop hpc | insert hpc =>
      exact .inl (hc.resolve_right fun hspawning => by simp [hpc] at hspawning)
    | spawn forConout forWorker =>
      refine .inl ?_
      change c < s.sessionCounter+1
      omega
    | @workerStore c' data =>
      have hcounter : (s.storeData c' data).sessionCounter = s.sessionCounter :=
        storeData_keeps s c' data PtyWorker.sessionCounter fun _ _ _ => rfl
      have hacceptor : (s.storeData c' data).acceptor = s.acceptor :=
        storeData_keeps s c' data PtyWorker.acceptor fun _ _ _ => rfl
      change c < (s.storeData c' data).sessionCounter ∨
        c = (s.storeData c' data).sessionCounter ∧ (s.storeData c' data).acceptor = .spawning
      rwa [hcounter,hacceptor]
    | _ => exact hc
  · cases hstep with
    | insert => exact ⟨rfl,.inr ⟨rfl,rfl⟩⟩

/-- All chunks that a thread was through with while its session was in the map have been stored. -/
structure Kept (listed : Prop) (handled stored : List Bytes) : Prop where
  first : stored <+: handled
  all : listed → stored = handled

/-- What holds in each state of a run: the connections that are not yet accepted have no threads and
no data, each thread handles each chunk once, and the buffers have what was stored. -/
structure Tracked (trace : List (PtyWorker × WorkerAction)) (s : PtyWorker) : Prop where
  unaccepted : Unaccepted s
  silent : ∀ c, s.sessionCounter ≤ c → handled c trace = []
  filed : Filed s
  piped : ∀ c, Piped (s.connections c).worker (received c trace) (sent c trace) (handled c trace)
  kept : ∀ c, Kept (s.sessions (sessionId c) = some c) (handled c trace) (stored c trace)
  buffers : ∀ c, (s.connections c).dataBuffer = (stored c trace).flatten

theorem start_tracked : Tracked [] start where
  unaccepted _ _ := ⟨rfl,rfl⟩
  silent _ _ := rfl
  filed _ _ h := by cases h
  piped _ := ⟨.inl rfl,rfl⟩
  kept _ := ⟨List.prefix_rfl,fun _ => rfl⟩
  buffers _ := rfl

theorem storedIn_of_ne (h : ∀ c', action ≠ .workerStore c') : storedIn c s action = none := by
  cases action with
  | workerStore c' => exact absurd rfl (h c')
  | _ => exact ite_self none

/-- Storing data brings the buffer of its session up to date. -/
theorem buffer_store {c' : ℕ} {data : Bytes} (h : Tracked trace s) (hcount : s.sessionCounter < 2^32)
    (hpc : (s.connections c').worker = .store data) (c : ℕ) : ((s.storeData c' data).connections c).dataBuffer =
      (stored c (trace ++ [(s,.workerStore c')])).flatten := by
  rw [storeData_eq h.filed h.unaccepted hcount hpc,stored_snoc,List.flatten_append,← h.buffers c,storedIn,handledIn]
  by_cases hc : c' = c
  · subst hc
    rw [if_pos rfl,hpc]
    by_cases hsession : s.sessions (sessionId c') = some c'
    · rw [if_pos hsession,if_pos hsession,modify_self]
      simp [WorkerThread.toStore]
    · rw [if_neg hsession,if_neg hsession]
      simp
  · rw [if_neg hc,ite_self,Option.toList_none,List.flatten_nil,List.append_nil]
    split
    · rw [modify_connections,if_neg (Ne.symm hc)]
    · rfl

theorem step_buffer (h : Tracked trace s) (hstep : Step s action s') (hcount : s.sessionCounter < 2^32) (c : ℕ) :
    (s'.connections c).dataBuffer = (stored c (trace ++ [(s,action)])).flatten := by
  by_cases hstore : ∃ c', action = .workerStore c'
  · obtain ⟨c',rfl⟩ := hstore
    cases hstep with
    | @workerStore c' data hpc =>
      have hbuffer : (((s.storeData c' data).modify c' fun conn => { conn with worker := .check }).connections c).dataBuffer =
          ((s.storeData c' data).connections c).dataBuffer := modify_field Connection.dataBuffer rfl
      rw [hbuffer]
      exact buffer_store h hcount hpc c
  · have hne : ∀ c', action ≠ .workerStore c' := fun c' hc' => hstore ⟨c',hc'⟩
    rw [step_buffers h.unaccepted hstep hne,stored_snoc,storedIn_of_ne hne,Option.toList_none,List.append_nil]
    exact h.buffers c

/-- A session that has left the map does not come back, and until it leaves all chunks are stored. -/
theorem step_kept (h : Tracked trace s) (hstep : Step s action s') (c : ℕ) :
    Kept (s'.sessions (sessionId c) = some c) (handled c (trace ++ [(s,action)]))
      (stored c (trace ++ [(s,action)])) := by
  obtain ⟨hfirst,hall⟩ := h.kept c
  rw [handled_snoc,stored_snoc,storedIn]
  by_cases hlisted : s.sessions (sessionId c) = some c
  · rw [if_pos hlisted,hall hlisted]
    exact ⟨List.prefix_rfl,fun _ => rfl⟩
  · rw [if_neg hlisted,Option.toList_none,List.append_nil]
    refine ⟨hfirst.trans (List.prefix_append _ _),fun hsession => ?_⟩
    rcases step_sessions hstep hsession with hbefore | ⟨rfl,hc,-⟩
    · exact absurd hbefore hlisted
    · rw [h.silent c hc.ge] at hfirst ⊢
      exact List.prefix_nil.mp hfirst

theorem step_tracked (h : Tracked trace s) (hstep : Step s action s') (hcount : s.sessionCounter < 2^32) :
    Tracked (trace ++ [(s,action)]) s' := by
  have hle : s.sessionCounter ≤ s'.sessionCounter := by
    rcases step_counter hstep with hsame | ⟨hnext,-⟩ <;> omega
  have hsilent : ∀ c, s'.sessionCounter ≤ c → handled c (trace ++ [(s,action)]) = [] := by
    intro c hc
    have hunborn := (h.unaccepted c (hle.trans hc)).1
    rw [handled_snoc,h.silent c (hle.trans hc),handledIn.eq_def,hunborn]
    cases action with
    | workerStore c' =>
      change (if _ then (none : Option Bytes) else none).toList = []
      rw [ite_self]
      rfl
    | _ => rfl
  have hkept := step_kept h hstep
  have hbuffer := step_buffer h hstep hcount
  refine ⟨fun c hc => ⟨(step_unborn hstep hc).2 (h.unaccepted c (hle.trans hc)).1,?_⟩,hsilent,step_filed h.filed hstep,
    fun c => ?_,hkept,hbuffer⟩
  · have hstored := (hkept c).first
    rw [hsilent c hc] at hstored
    rw [hbuffer c,List.prefix_nil.mp hstored]
    rfl
  · rw [received_snoc,sent_snoc,handled_snoc]
    exact (step_moves h.unaccepted hstep c).piped (h.piped c)

theorem run_tracked (hrun : Run Step start trace s) (hcount : s.sessionCounter < 2^32) : Tracked trace s := by
  induction hrun with
  | nil => exact start_tracked
  | snoc hrun hstep ih =>
    have hbefore := (step_counter hstep).elim (fun h => h.ge) fun h => by omega
    exact step_tracked (ih (hbefore.trans_lt hcount)) hstep (hbefore.trans_lt hcount)

/-- Whatever the threads of a worker do in whatever order, each chunk that comes in on a worker socket
is sent on once, in the order in which it came; only the last one may be on its way or lost with its
thread. As long as its session is listed each chunk is stored once after that, and what comes later is
not stored. The buffer has what was stored, `get_session_data` returns all of it for a session that is
listed, and never data of another session. -/
theorem session_data_exact (hrun : Run Step start trace s) (hcount : s.sessionCounter < 2^32) :
    (∀ c, Piped (s.connections c).worker (received c trace) (sent c trace) (handled c trace)) ∧
      (∀ c, Kept (s.sessions (sessionId c) = some c) (handled c trace) (stored c trace)) ∧
      (∀ c, (s.connections c).dataBuffer = (stored c trace).flatten) ∧
      (∀ c, s.sessions (sessionId c) = some c →
        s.getSessionData (sessionId c) = .ok (handled c trace).flatten) ∧
      ∀ id data, s.getSessionData id = .ok data → ∃ c, sessionId c = id ∧ data = (stored c trace).flatten := by
  have h := run_tracked hrun hcount
  refine ⟨h.piped,h.kept,h.buffers,fun c hsession => ?_,fun id data hdata => ?_⟩
  · rw [getSessionData,hsession,← (h.kept c).all hsession,← h.buffers c]
  · rw [getSessionData] at hdata
    cases hsession : s.sessions id with
    | none =>
      rw [hsession] at hdata
      cases hdata
    | some c =>
      rw [hsession] at hdata
      refine ⟨c,(h.filed id c hsession).1,?_⟩
      rw [← h.buffers c]
      exact (Except.ok.inj hdata).symm

/-- The first worker, with a byte that it has stored. -/
theorem session_data_exact_one : ∃ trace, Run Step start trace piped ∧
    (∀ c, Piped (piped.connections c).worker (received c trace) (sent c trace) (handled c trace)) ∧
      (∀ c, Kept (piped.sessions (sessionId c) = some c) (handled c trace) (stored c trace)) ∧
      (∀ c, (piped.connections c).dataBuffer = (stored c trace).flatten) ∧
      (∀ c, piped.sessions (sessionId c) = some c →
        piped.getSessionData (sessionId c) = .ok (handled c trace).flatten) ∧
      ∀ id data, piped.getSessionData id = .ok data → ∃ c, sessionId c = id ∧ data = (stored c trace).flatten := by
  obtain ⟨trace,hrun⟩ := run_piped
  exact ⟨trace,hrun,session_data_exact hrun (show 1 < 2^32 by decide)⟩

end PtyWorker
end NodeRustPty
