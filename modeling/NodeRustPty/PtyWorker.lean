import NodeRustPty.Multiplexer
import NodeRustPty.Locks
import NodeRustPty.Transitions

/-! `PtyWorker` of `worker/pty_worker.rs`: the loop that accepts connections, two piping threads
for each of them, and `shutdown_worker`. All threads share one connection to conout. -/
namespace NodeRustPty

open Transitions

inductive ReadResult
  | data (data : Bytes)
  | closed
  | wouldBlock
  | failed

/-- The thread that pipes conout to a worker socket. The guard that an `if let` takes for
`write_all` lives on in its body, where `relock` is. -/
inductive ConoutThread
  | unborn
  | unavailable
  | check
  | read
  | lock (data : Bytes)
  | write (data : Bytes)
  | relock
  | close
  | remove
  | ended
  deriving DecidableEq

/-- The thread that pipes a worker socket to conout. The guard that a `match` takes for `read`
lives on in all its arms. -/
inductive WorkerThread
  | unborn
  | unavailable
  | check
  | lock
  | read
  | send (data : Bytes)
  | store (data : Bytes)
  | remove
  | ended
  deriving DecidableEq

inductive Acceptor
  | listening
  | inserting
  | spawning
  | stopped
  deriving DecidableEq

/-- `shutdown_worker`, with the sessions whose sockets it has yet to close. -/
inductive ShutdownWorker
  | idle
  | closeConout
  | lockSessions
  | closing (connections : List ℕ)
  deriving DecidableEq

/-- A worker connection: its threads, the buffer of its session and what its socket does.
`due` are the bytes that were read from conout while the session was open. -/
structure Connection where
  conout : ConoutThread
  worker : WorkerThread
  dataBuffer : Bytes
  accepts : Bool
  closed : Bool
  written : Bytes
  due : Bytes

/-- The thread that reads the socket has the guard of its mutex. -/
def Connection.reads (conn : Connection) : Bool :=
  match conn.worker with
  | .read => true
  | .send _ => true
  | .store _ => true
  | _ => false

def Connection.unborn : Connection := ⟨.unborn,.unborn,[],false,false,[],[]⟩

def Connection.opened : Connection := { unborn with accepts := true }

/-- A thread without its clone of conout returns at once. -/
def Connection.spawned (forConout forWorker : Bool) (conn : Connection) : Connection := { conn with
  conout := if forConout then .check else .unavailable
  worker := if forWorker then .check else .unavailable }

/-- `conoutShut` says that this process has shut down the connection to conout, and
`conoutEnded` that conout had returned end of file or an error before. -/
structure PtyWorker where
  sessions : UInt32 → Option ℕ
  conoutSocket : Bool
  shutdownFlag : Bool
  sessionCounter : ℕ
  acceptor : Acceptor
  shutdown : ShutdownWorker
  connections : ℕ → Connection
  conoutShut : Bool
  conoutEnded : Bool

inductive WorkerAction
  | accept
  | insert
  | spawn (forConout forWorker : Bool)
  | conoutCheck (c : ℕ)
  | conoutRead (c : ℕ) (result : ReadResult)
  | conoutLock (c : ℕ)
  | conoutWritten (c : ℕ)
  | conoutWriteFailed (c : ℕ) (count : ℕ)
  | conoutRelock (c : ℕ)
  | conoutClose (c : ℕ)
  | conoutRemove (c : ℕ)
  | workerCheck (c : ℕ)
  | workerLock (c : ℕ)
  | workerRead (c : ℕ) (result : ReadResult)
  | workerSent (c : ℕ)
  | workerSendFailed (c : ℕ)
  | workerStore (c : ℕ)
  | workerRemove (c : ℕ)
  | setFlag
  | closeConout
  | lockSessions (order : List ℕ)
  | closeSocket
  | unlockSessions

namespace PtyWorker

/-- The worker once it is connected to conout and listens. -/
def start : PtyWorker where
  sessions := fun _ => none
  conoutSocket := true
  shutdownFlag := false
  sessionCounter := 0
  acceptor := .listening
  shutdown := .idle
  connections := fun _ => .unborn
  conoutShut := false
  conoutEnded := false

/-- The counter starts at one and wraps around. -/
def sessionId (c : ℕ) : UInt32 := UInt32.ofNat (c+1)

/-! ### Locks -/

inductive Mutex
  | sessions
  | workerSocket (c : ℕ)

inductive Thread
  | acceptor
  | conout (c : ℕ)
  | worker (c : ℕ)
  | shutdown

/-- The guards that are kept from one step to the next. -/
def Holds (s : PtyWorker) : Thread → Mutex → Prop
  | .conout c,.workerSocket c' => c = c' ∧ ((∃ data, (s.connections c).conout = .write data) ∨
      (s.connections c).conout = .relock)
  | .worker c,.workerSocket c' => c = c' ∧ ((s.connections c).worker = .read ∨
      (∃ data, (s.connections c).worker = .send data) ∨ ∃ data, (s.connections c).worker = .store data)
  | .shutdown,.sessions => ∃ connections, s.shutdown = .closing connections
  | _,_ => False

/-- The lock that the next step of a thread takes. -/
def Wants (s : PtyWorker) : Thread → Mutex → Prop
  | .acceptor,.sessions => s.acceptor = .inserting
  | .conout c,.workerSocket c' => c = c' ∧ ((∃ data, (s.connections c).conout = .lock data) ∨
      (s.connections c).conout = .relock ∨ (s.connections c).conout = .close)
  | .conout c,.sessions => (s.connections c).conout = .remove
  | .worker c,.workerSocket c' => c = c' ∧ (s.connections c).worker = .lock
  | .worker c,.sessions => (∃ data, (s.connections c).worker = .store data) ∨ (s.connections c).worker = .remove
  | .shutdown,.sessions => s.shutdown = .lockSessions
  | .shutdown,.workerSocket c => ∃ rest, s.shutdown = .closing (c::rest)
  | _,_ => False

def Free (s : PtyWorker) (lock : Mutex) : Prop := ∀ thread, ¬s.Holds thread lock

theorem free_sessions {s : PtyWorker} (h : s.shutdown = .idle) : s.Free .sessions := by
  rintro (_ | _ | _ | _) hholds
  · exact hholds
  · exact hholds
  · exact hholds
  · obtain ⟨connections,hclosing⟩ := hholds
    cases h.symm.trans hclosing

/-- Only the two threads of a connection keep its socket. -/
theorem free_workerSocket {s : PtyWorker} {c : ℕ} (hreads : (s.connections c).reads = false)
    (hwrite : ∀ data, (s.connections c).conout ≠ .write data) (hrelock : (s.connections c).conout ≠ .relock) :
    s.Free (.workerSocket c) := by
  rintro (_ | c' | c' | _) hholds
  · exact hholds
  · obtain ⟨rfl,⟨data,hconout⟩ | hconout⟩ := hholds
    · exact hwrite data hconout
    · exact hrelock hconout
  · obtain ⟨rfl,hread | ⟨data,hsend⟩ | ⟨data,hstore⟩⟩ := hholds
    · simp [Connection.reads,hread] at hreads
    · simp [Connection.reads,hsend] at hreads
    · simp [Connection.reads,hstore] at hreads
  · exact hholds

theorem reads_of_free {s : PtyWorker} {c : ℕ} (h : s.Free (.workerSocket c)) : (s.connections c).reads = false := by
  by_contra hreads
  refine h (.worker c) ⟨rfl,?_⟩
  unfold Connection.reads at hreads
  split at hreads
  · next hread => exact .inl hread
  · next data hsend => exact .inr (.inl ⟨data,hsend⟩)
  · next data hstore => exact .inr (.inr ⟨data,hstore⟩)
  · exact absurd rfl hreads

/-! ### Steps -/

/-- The session is in the map and its socket takes what is written. -/
def Open (s : PtyWorker) (c : ℕ) : Prop := s.sessions (sessionId c) = some c ∧ (s.connections c).accepts = true

instance (s : PtyWorker) (c : ℕ) : Decidable (s.Open c) := inferInstanceAs (Decidable (_ ∧ _))

def modify (s : PtyWorker) (c : ℕ) (f : Connection → Connection) : PtyWorker :=
  { s with connections := Function.update s.connections c (f (s.connections c)) }

/-- The bytes are due to every open session. -/
def credit (s : PtyWorker) (data : Bytes) : PtyWorker :=
  { s with connections := fun c =>
      if s.Open c then { s.connections c with due := (s.connections c).due ++ data } else s.connections c }

def insertSession (s : PtyWorker) (c : ℕ) : PtyWorker :=
  { s with sessions := Function.update s.sessions (sessionId c) (some c) }

def removeSession (s : PtyWorker) (c : ℕ) : PtyWorker :=
  { s with sessions := Function.update s.sessions (sessionId c) none }

/-- What arrives for a session is appended to the buffer of whoever has its id. -/
def storeData (s : PtyWorker) (c : ℕ) (data : Bytes) : PtyWorker :=
  match s.sessions (sessionId c) with
  | some session => s.modify session fun conn => { conn with dataBuffer := conn.dataBuffer ++ data }
  | none => s

/-- Conout returned end of file or an error. That is news only as long as it was not shut down. -/
def endConout (s : PtyWorker) : PtyWorker := { s with conoutEnded := s.conoutEnded || !s.conoutShut }

def shutConout (s : PtyWorker) : PtyWorker := { s with conoutShut := true }

/-- One step of one thread, for every outcome of the reads and writes. A lock that is released in
the same statement is taken and released in one step. -/
inductive Step : PtyWorker → WorkerAction → PtyWorker → Prop
  | acceptNext {s : PtyWorker} (hpc : s.acceptor = .listening) (hflag : s.shutdownFlag = false) : Step s .accept
      { s with acceptor := .inserting }
  | acceptStop {s : PtyWorker} (hpc : s.acceptor = .listening) (hflag : s.shutdownFlag = true) : Step s .accept
      { s with acceptor := .stopped }
  | insert {s : PtyWorker} (hpc : s.acceptor = .inserting) (hfree : s.Free .sessions) : Step s .insert
      { (s.modify s.sessionCounter fun _ => .opened).insertSession s.sessionCounter with acceptor := .spawning }
  | spawn {s : PtyWorker} (forConout forWorker : Bool) (hpc : s.acceptor = .spawning)
      (hclone : s.conoutSocket = false → forConout = false ∧ forWorker = false) : Step s (.spawn forConout forWorker)
      { s.modify s.sessionCounter (.spawned forConout forWorker) with
        acceptor := .listening
        sessionCounter := s.sessionCounter+1 }
  | conoutCheck {s : PtyWorker} {c : ℕ} (hpc : (s.connections c).conout = .check) : Step s (.conoutCheck c)
      (s.modify c fun conn => { conn with conout := if s.shutdownFlag then .close else .read })
  | conoutReadData {s : PtyWorker} {c : ℕ} {data : Bytes} (hpc : (s.connections c).conout = .read)
      (hdata : data ≠ [] ∧ data.length ≤ 4096) : Step s (.conoutRead c (.data data))
      ((s.credit data).modify c fun conn => { conn with conout := .lock data })
  | conoutReadNothing {s : PtyWorker} {c : ℕ} (hpc : (s.connections c).conout = .read) :
      Step s (.conoutRead c .wouldBlock) (s.modify c fun conn => { conn with conout := .check })
  | conoutReadEnd {s : PtyWorker} {c : ℕ} {result : ReadResult} (hpc : (s.connections c).conout = .read)
      (hresult : result = .closed ∨ result = .failed) : Step s (.conoutRead c result)
      (s.endConout.modify c fun conn => { conn with conout := .close })
  | conoutLock {s : PtyWorker} {c : ℕ} {data : Bytes} (hpc : (s.connections c).conout = .lock data)
      (hfree : s.Free (.workerSocket c)) : Step s (.conoutLock c)
      (s.modify c fun conn => { conn with conout := .write data })
  | conoutWritten {s : PtyWorker} {c : ℕ} {data : Bytes} (hpc : (s.connections c).conout = .write data)
      (haccepts : (s.connections c).accepts = true) : Step s (.conoutWritten c)
      (s.modify c fun conn => { conn with conout := .check,written := conn.written ++ data })
  | conoutWriteFailed {s : PtyWorker} {c : ℕ} {data : Bytes} (count : ℕ)
      (hpc : (s.connections c).conout = .write data) : Step s (.conoutWriteFailed c count)
      (s.modify c fun conn => { conn with
        conout := .relock,accepts := false,closed := true,written := conn.written ++ data.take count })
  | conoutRelock {s : PtyWorker} {c : ℕ} (hpc : (s.connections c).conout = .relock)
      (hfree : s.Free (.workerSocket c)) : Step s (.conoutRelock c)
      (s.modify c fun conn => { conn with conout := .remove,accepts := false })
  | conoutClose {s : PtyWorker} {c : ℕ} (hpc : (s.connections c).conout = .close)
      (hfree : s.Free (.workerSocket c)) : Step s (.conoutClose c)
      (s.modify c fun conn => { conn with conout := .remove,accepts := false })
  | conoutRemove {s : PtyWorker} {c : ℕ} (hpc : (s.connections c).conout = .remove) (hfree : s.Free .sessions) :
      Step s (.conoutRemove c) ((s.removeSession c).modify c fun conn => { conn with conout := .ended })
  | workerContinue {s : PtyWorker} {c : ℕ} (hpc : (s.connections c).worker = .check) (hflag : s.shutdownFlag = false) :
      Step s (.workerCheck c) (s.modify c fun conn => { conn with worker := .lock })
  | workerStop {s : PtyWorker} {c : ℕ} (hpc : (s.connections c).worker = .check) (hflag : s.shutdownFlag = true) :
      Step s (.workerCheck c) (s.shutConout.modify c fun conn => { conn with worker := .remove })
  | workerLock {s : PtyWorker} {c : ℕ} (hpc : (s.connections c).worker = .lock)
      (hfree : s.Free (.workerSocket c)) : Step s (.workerLock c)
      (s.modify c fun conn => { conn with worker := .read })
  | workerReadData {s : PtyWorker} {c : ℕ} {data : Bytes} (hpc : (s.connections c).worker = .read)
      (hdata : data ≠ [] ∧ data.length ≤ 4096) : Step s (.workerRead c (.data data))
      (s.modify c fun conn => { conn with worker := .send data })
  | workerReadNothing {s : PtyWorker} {c : ℕ} (hpc : (s.connections c).worker = .read) :
      Step s (.workerRead c .wouldBlock) (s.modify c fun conn => { conn with worker := .check })
  | workerReadEnd {s : PtyWorker} {c : ℕ} {result : ReadResult} (hpc : (s.connections c).worker = .read)
      (hresult : result = .closed ∨ result = .failed) : Step s (.workerRead c result)
      (s.shutConout.modify c fun conn => { conn with worker := .remove,closed := true })
  | workerSent {s : PtyWorker} {c : ℕ} {data : Bytes} (hpc : (s.connections c).worker = .send data) :
      Step s (.workerSent c) (s.modify c fun conn => { conn with worker := .store data })
  | workerSendFailed {s : PtyWorker} {c : ℕ} {data : Bytes} (hpc : (s.connections c).worker = .send data) :
      Step s (.workerSendFailed c) (s.endConout.shutConout.modify c fun conn => { conn with worker := .remove })
  | workerStore {s : PtyWorker} {c : ℕ} {data : Bytes} (hpc : (s.connections c).worker = .store data)
      (hfree : s.Free .sessions) : Step s (.workerStore c)
      ((s.storeData c data).modify c fun conn => { conn with worker := .check })
  | workerRemove {s : PtyWorker} {c : ℕ} (hpc : (s.connections c).worker = .remove) (hfree : s.Free .sessions) :
      Step s (.workerRemove c) ((s.removeSession c).modify c fun conn => { conn with worker := .ended })
  | setFlag {s : PtyWorker} (hpc : s.shutdown = .idle) : Step s .setFlag
      { s with shutdownFlag := true,shutdown := .closeConout }
  | closeConout {s : PtyWorker} (hpc : s.shutdown = .closeConout) : Step s .closeConout
      { s with conoutShut := s.conoutShut || s.conoutSocket,conoutSocket := false,shutdown := .lockSessions }
  | lockSessions {s : PtyWorker} {order : List ℕ} (hpc : s.shutdown = .lockSessions) (hfree : s.Free .sessions)
      (horder : order.Nodup ∧ ∀ c, c ∈ order ↔ ∃ id, s.sessions id = some c) : Step s (.lockSessions order)
      { s with shutdown := .closing order }
  | closeSocket {s : PtyWorker} {c : ℕ} {rest : List ℕ} (hpc : s.shutdown = .closing (c::rest))
      (hfree : s.Free (.workerSocket c)) : Step s .closeSocket
      { s.modify c fun conn => { conn with accepts := false } with shutdown := .closing rest }
  | unlockSessions {s : PtyWorker} (hpc : s.shutdown = .closing []) : Step s .unlockSessions
      { s with shutdown := .idle }

/-! ### What the updates leave alone -/

section Fields

variable (s : PtyWorker) (c c' : ℕ) (f : Connection → Connection) (data : Bytes)

theorem modify_connections :
    (s.modify c f).connections c' = if c' = c then f (s.connections c) else s.connections c' := by
  by_cases h : c' = c
  · subst h
    simp [modify]
  · simp [modify,h]

@[simp] theorem modify_self : (s.modify c f).connections c = f (s.connections c) := by simp [modify]

@[simp] theorem removeSession_connections : (s.removeSession c).connections = s.connections := rfl

@[simp] theorem endConout_connections : s.endConout.connections = s.connections := rfl

@[simp] theorem shutConout_connections : s.shutConout.connections = s.connections := rfl

@[simp] theorem credit_conout : ((s.credit data).connections c).conout = (s.connections c).conout := by
  rw [credit]
  dsimp only
  split <;> rfl

@[simp] theorem credit_worker : ((s.credit data).connections c).worker = (s.connections c).worker := by
  rw [credit]
  dsimp only
  split <;> rfl

/-- Storing data changes a buffer and nothing else. -/
theorem storeData_keeps {α : Type} (field : PtyWorker → α)
    (h : ∀ (s : PtyWorker) (session : ℕ) (buffer : Connection → Bytes),
      field (s.modify session fun conn => { conn with dataBuffer := buffer conn }) = field s) :
    field (s.storeData c data) = field s := by
  rw [storeData]
  split
  · exact h _ _ _
  · rfl

@[simp] theorem storeData_conout : ((s.storeData c data).connections c').conout = (s.connections c').conout := by
  refine storeData_keeps s c data (fun s => (s.connections c').conout) fun s session buffer => ?_
  rw [modify_connections]
  split
  · next h => rw [h]
  · rfl

@[simp] theorem storeData_worker : ((s.storeData c data).connections c').worker = (s.connections c').worker := by
  refine storeData_keeps s c data (fun s => (s.connections c').worker) fun s session buffer => ?_
  rw [modify_connections]
  split
  · next h => rw [h]
  · rfl

end Fields

/-! ### Threads that are not there yet -/

section Unborn

variable {s s' : PtyWorker} {action : WorkerAction} {c c' : ℕ}

/-- An update of one connection keeps what it keeps of that one. -/
theorem modify_keeps {P : Connection → Prop} {f : Connection → Connection} (h : P (s.connections c))
    (hf : P (s.connections c') → P (f (s.connections c'))) : P ((s.modify c' f).connections c) := by
  rw [modify_connections]
  split
  · next hc => exact hf (hc ▸ h)
  · exact h

theorem step_counter (hstep : Step s action s') :
    s'.sessionCounter = s.sessionCounter ∨
      s'.sessionCounter = s.sessionCounter+1 ∧ s.acceptor = .spawning := by
  cases hstep with
  | spawn forConout forWorker hpc => exact .inr ⟨rfl,hpc⟩
  | @workerStore c data =>
    exact .inl (storeData_keeps s c data PtyWorker.sessionCounter fun _ _ _ => rfl)
  | _ => exact .inl rfl

/-- The threads of a connection start when it is spawned. -/
theorem step_unborn (hstep : Step s action s') (hc : s'.sessionCounter ≤ c) :
    ((s.connections c).conout = .unborn → (s'.connections c).conout = .unborn) ∧
      ((s.connections c).worker = .unborn → (s'.connections c).worker = .unborn) := by
  let NoConout (conn : Connection) : Prop := conn.conout = .unborn
  let NoWorker (conn : Connection) : Prop := conn.worker = .unborn
  cases hstep with
  | acceptNext | acceptStop | setFlag | closeConout | lockSessions | unlockSessions => exact ⟨id,id⟩
  | insert =>
    let opened := s.modify s.sessionCounter fun _ => .opened
    have hconout (h : NoConout (s.connections c)) : NoConout (opened.connections c) := modify_keeps h fun _ => rfl
    have hworker (h : NoWorker (s.connections c)) : NoWorker (opened.connections c) := modify_keeps h fun _ => rfl
    exact ⟨hconout,hworker⟩
  | spawn forConout forWorker =>
    have hlt : s.sessionCounter < c := hc
    have hconnection : (s.modify s.sessionCounter (.spawned forConout forWorker)).connections c = s.connections c := by
      rw [modify_connections,if_neg (by omega)]
    exact ⟨(congrArg Connection.conout hconnection).trans,(congrArg Connection.worker hconnection).trans⟩
  | conoutCheck hpc | conoutReadNothing hpc | conoutReadEnd hpc | conoutLock hpc | conoutWritten hpc
  | conoutWriteFailed _ hpc | conoutRelock hpc | conoutClose hpc | conoutRemove hpc =>
    refine ⟨fun h => modify_keeps (P := NoConout) h fun hunborn => ?_,fun h => modify_keeps (P := NoWorker) h id⟩
    exact absurd (hunborn.symm.trans hpc) (by simp)
  | @conoutReadData c' data hpc =>
    refine ⟨fun h => modify_keeps (P := NoConout) ((credit_conout s c data).trans h) fun hunborn => ?_,
      fun h => modify_keeps (P := NoWorker) ((credit_worker s c data).trans h) id⟩
    have hconout := (credit_conout s c' data).symm.trans hunborn
    rw [hpc] at hconout
    cases hconout
  | workerContinue hpc | workerStop hpc | workerLock hpc | workerReadData hpc | workerReadNothing hpc
  | workerReadEnd hpc | workerSent hpc | workerSendFailed hpc | workerRemove hpc =>
    refine ⟨fun h => modify_keeps (P := NoConout) h id,fun h => modify_keeps (P := NoWorker) h fun hunborn => ?_⟩
    exact absurd (hunborn.symm.trans hpc) (by simp)
  | @workerStore c' data hpc =>
    refine ⟨fun h => modify_keeps (P := NoConout) ((storeData_conout s c' c data).trans h) id,
      fun h => modify_keeps (P := NoWorker) ((storeData_worker s c' c data).trans h) fun hunborn => ?_⟩
    have hworker := (storeData_worker s c' c' data).symm.trans hunborn
    rw [hpc] at hworker
    cases hworker
  | @closeSocket c' =>
    let closed := s.modify c' fun conn => { conn with accepts := false }
    have hconout (h : NoConout (s.connections c)) : NoConout (closed.connections c) := modify_keeps h id
    have hworker (h : NoWorker (s.connections c)) : NoWorker (closed.connections c) := modify_keeps h id
    exact ⟨hconout,hworker⟩

end Unborn

/-! ### Connections -/

/-- The worker with one more connection, whose threads have both been spawned. -/
def connect (s : PtyWorker) : PtyWorker :=
  { (s.modify s.sessionCounter fun _ => .spawned true true .opened).insertSession s.sessionCounter with
    acceptor := .listening
    sessionCounter := s.sessionCounter+1 }

variable {s : PtyWorker} {trace : List (PtyWorker × WorkerAction)}

theorem connect_connections (s : PtyWorker) (c : ℕ) : (connect s).connections c =
    if c = s.sessionCounter then .spawned true true .opened else s.connections c :=
  modify_connections s s.sessionCounter c fun _ => .spawned true true .opened

theorem connect_run (hrun : Run Step start trace s) (hlistening : s.acceptor = .listening)
    (hflag : s.shutdownFlag = false) (hidle : s.shutdown = .idle) (hconout : s.conoutSocket = true) :
    ∃ trace, Run Step start trace (connect s) := by
  let accepted : PtyWorker := { s with acceptor := .inserting }
  let inserted : PtyWorker := { (accepted.modify s.sessionCounter fun _ => .opened).insertSession s.sessionCounter with
    acceptor := .spawning }
  have haccept : Step s .accept accepted := .acceptNext hlistening hflag
  have hinsert : Step accepted .insert inserted := .insert rfl (free_sessions hidle)
  have hspawn : Step inserted (.spawn true true) { inserted.modify s.sessionCounter (.spawned true true) with
      acceptor := .listening
      sessionCounter := s.sessionCounter+1 } :=
    .spawn true true rfl fun hnone => absurd (hconout.symm.trans hnone) Bool.noConfusion
  have hsame : { inserted.modify s.sessionCounter (.spawned true true) with
      acceptor := .listening
      sessionCounter := s.sessionCounter+1 } = connect s := by
    simp [accepted,inserted,modify,insertSession,connect]
  rw [hsame] at hspawn
  exact ⟨_,((hrun.snoc haccept).snoc hinsert).snoc hspawn⟩

/-- One connection, and two of them. -/
theorem run_one : ∃ trace, Run Step start trace (connect start) := connect_run (.nil start) rfl rfl rfl rfl

theorem one_connection : (connect start).connections 0 = .spawned true true .opened := by
  rw [connect_connections]
  rfl

theorem two_connections {c : ℕ} (h : c < 2) :
    (connect (connect start)).connections c = .spawned true true .opened := by
  rw [connect_connections,connect_connections]
  interval_cases c <;> rfl

theorem run_two : ∃ trace, Run Step start trace (connect (connect start)) := by
  obtain ⟨trace,hrun⟩ := run_one
  exact connect_run hrun rfl rfl rfl rfl

/-! ### A run with data -/

/-- The first worker after a byte from conout was written to it and one of its own was sent to conout and
stored. -/
def piped : PtyWorker :=
  let s := (connect start).modify 0 fun conn => { conn with conout := .read }
  let s := (s.credit [65]).modify 0 fun conn => { conn with conout := .lock [65] }
  let s := s.modify 0 fun conn => { conn with conout := .write [65] }
  let s := s.modify 0 fun conn => { conn with conout := .check,written := conn.written ++ [65] }
  let s := s.modify 0 fun conn => { conn with worker := .lock }
  let s := s.modify 0 fun conn => { conn with worker := .read }
  let s := s.modify 0 fun conn => { conn with worker := .send [66] }
  let s := s.modify 0 fun conn => { conn with worker := .store [66] }
  (s.storeData 0 [66]).modify 0 fun conn => { conn with worker := .check }

theorem run_piped : ∃ trace, Run Step start trace piped := by
  obtain ⟨trace,hrun⟩ := run_one
  let reading := (connect start).modify 0 fun conn => { conn with conout := .read }
  let locking := (reading.credit [65]).modify 0 fun conn => { conn with conout := .lock [65] }
  let writing := locking.modify 0 fun conn => { conn with conout := .write [65] }
  let written := writing.modify 0 fun conn => { conn with conout := .check,written := conn.written ++ [65] }
  let waiting := written.modify 0 fun conn => { conn with worker := .lock }
  let receiving := waiting.modify 0 fun conn => { conn with worker := .read }
  let sending := receiving.modify 0 fun conn => { conn with worker := .send [66] }
  let storing := sending.modify 0 fun conn => { conn with worker := .store [66] }
  have hconout : ((connect start).connections 0).conout = .check := congrArg Connection.conout one_connection
  have hworker : ((connect start).connections 0).worker = .check := congrArg Connection.worker one_connection
  have haccepts : ((connect start).connections 0).accepts = true := congrArg Connection.accepts one_connection
  have hcreditedAccepts : ((reading.credit [65]).connections 0).accepts = true := by
    have hkeeps : ((reading.credit [65]).connections 0).accepts = (reading.connections 0).accepts := by
      rw [credit]
      dsimp only
      split <;> rfl
    rw [hkeeps,modify_self]
    exact haccepts
  have h₁ : Step (connect start) (.conoutCheck 0) reading := .conoutCheck hconout
  have h₂ : Step reading (.conoutRead 0 (.data [65])) locking := .conoutReadData (by simp [reading]) (by simp)
  have h₃ : Step locking (.conoutLock 0) writing := by
    refine .conoutLock (by simp [locking]) (free_workerSocket ?_ (by simp [locking]) (by simp [locking]))
    simp [locking,Connection.reads,reading,hworker]
  have h₄ : Step writing (.conoutWritten 0) written :=
    .conoutWritten (by simp [writing]) (by simpa [writing,locking] using hcreditedAccepts)
  have h₅ : Step written (.workerCheck 0) waiting :=
    .workerContinue (by simp [written,writing,locking,reading,hworker]) rfl
  have h₆ : Step waiting (.workerLock 0) receiving := by
    refine .workerLock (by simp [waiting]) (free_workerSocket ?_ (by simp [waiting,written]) (by simp [waiting,written]))
    simp [waiting,Connection.reads]
  have h₇ : Step receiving (.workerRead 0 (.data [66])) sending :=
    .workerReadData (by simp [receiving]) (by simp)
  have h₈ : Step sending (.workerSent 0) storing := .workerSent (by simp [sending])
  have h₉ : Step storing (.workerStore 0) piped := .workerStore (by simp [storing]) (free_sessions rfl)
  exact ⟨_,((((((((hrun.snoc h₁).snoc h₂).snoc h₃).snoc h₄).snoc h₅).snoc h₆).snoc h₇).snoc h₈).snoc h₉⟩

end PtyWorker
end NodeRustPty
