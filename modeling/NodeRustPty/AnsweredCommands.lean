import NodeRustPty.Panics
import NodeRustPty.ProcessRules

/-! Every run of the command loop, also one that a panic ends: the commands are answered as
long as no command meets an answer of the system that is fatal to it. -/
namespace NodeRustPty

def Call.InParent : (call : Call) → call.Res → Prop
  | .sys call,res => call.InParent res
  | _,_ => True

namespace CommandHandler

/-- The command at the head is handled until its result is sent, and one of those commands gets an
answer from the system that is fatal to it. -/
def MeetsFatal : List PtyCommand → Trace → Prop
  | [],_ => False
  | _::_,[] => False
  | _::commands,⟨.send _ _,_⟩::trace => MeetsFatal commands trace
  | command::commands,⟨.table _,_⟩::trace => MeetsFatal (command::commands) trace
  | command::commands,⟨.sys call,res⟩::trace => command.Fatal call res ∨ MeetsFatal (command::commands) trace

/-- The event is an answer that is fatal to the command. -/
def FatalTo (command : PtyCommand) : Prog.Event Call Call.Res → Prop
  | ⟨.sys call,res⟩ => command.Fatal call res
  | _ => False

/-- The loop has returned, with one reply for each command it serves, in order. -/
def Answered (multiplexer : Option PtyMultiplexer) (slot : Slot) (commands : List PtyCommand) (trace : Trace)
    (ending : Option Slot) : Prop :=
  ∃ slot', ending = some slot' ∧ (replies trace).map Prod.fst = (served commands).map PtyCommand.responder ∧
    ∃ steps, Serves multiplexer slot slot' commands trace steps

variable {multiplexer : Option PtyMultiplexer} {slot : Slot} {command : PtyCommand} {commands : List PtyCommand}
  {trace : Trace} {ending : Option Slot}

/-! ### The last thing that a handler does -/

def NotSend (call : Call) : Prop := ∀ responder result, call ≠ .send responder result

/-- The handler works without sending, and then sends one result. -/
def RepliesLast {α : Type} (responder : ℕ) (p : HandlerProg α) : Prop :=
  ∃ (β : Type) (work : HandlerProg β) (result : β → PtyResult) (after : β → α), work.Calls NotSend ∧
    p = work >>= fun b => send responder (result b) >>= fun _ => pure (after b)

section

variable {α β : Type} {responder : ℕ}

theorem repliesLast_send (responder : ℕ) (result : PtyResult) : RepliesLast responder (send responder result) :=
  ⟨Unit,pure (),fun _ => result,fun _ => (),trivial,rfl⟩

theorem RepliesLast.after {p : HandlerProg α} (hp : RepliesLast responder p) (f : α → β) :
    RepliesLast responder (p >>= fun a => pure (f a)) := by
  obtain ⟨γ,work,result,after,hwork,rfl⟩ := hp
  refine ⟨γ,work,result,fun c => f (after c),hwork,?_⟩
  simp only [bind_assoc,pure_bind]

/-- Work before a handler that sends what it is given. -/
theorem repliesLast_bind {work : HandlerProg β} (hwork : work.Calls NotSend) {f : β → HandlerProg α}
    (result : β → PtyResult) (after : β → α)
    (hf : ∀ b, f b = send responder (result b) >>= fun _ => pure (after b)) : RepliesLast responder (work >>= f) := by
  refine ⟨β,work,result,after,hwork,?_⟩
  rw [funext hf]

theorem calls_onSystem (p : SysProg α) : (onSystem p).Calls NotSend := by
  have hsys (call : Sys) : NotSend (.sys call) := fun responder result h => by cases h
  exact Prog.calls_hoist Call.sys (fun call (res : Call.Res (.sys call)) => res) hsys p

theorem calls_table (call : TableCall) : (table call).Calls NotSend :=
  ⟨fun responder result h => (by cases h),fun _ => trivial⟩

/-- The result that `answer` sends. -/
def answered (success : α → PtyResult) (failure : String → String) : Except IoError α → PtyResult
  | .ok a => success a
  | .error e => .failure (failure e.text)

/-- The result that `answerMultiplexer` sends for what a method returns. -/
def answeredMethod (success : α → String) (failure : String → String) : Except String α → PtyResult
  | .ok a => .success (success a)
  | .error reason => .failure (failure (napiError reason))

theorem answer_eq (slot : Slot) (responder : ℕ) (success : α → PtyResult) (failure : String → String)
    (result : Except IoError α) : answer slot responder success failure result =
      send responder (answered success failure result) >>= fun _ => pure slot := by
  cases result <;> rfl

theorem repliesLast_answer (slot : Slot) (responder : ℕ) (success : α → PtyResult) (failure : String → String)
    (result : Except IoError α) : RepliesLast responder (answer slot responder success failure result) := by
  rw [answer_eq]
  exact (repliesLast_send _ _).after fun _ => slot

theorem repliesLast_answerProcess (slot : Slot) (method : ProcessM α) (responder : ℕ)
    (success : α → PtyResult) (failure : String → String) :
    RepliesLast responder (answerProcess slot method responder success failure) := by
  cases slot with
  | none => exact repliesLast_answer none responder success failure (.error notInitialized)
  | some process =>
    exact repliesLast_bind (calls_onSystem (method process)) (fun result => answered success failure result.1)
      (fun result => some result.2) fun result => answer_eq _ _ _ _ _

theorem repliesLast_answerTaken (slot : Slot) (signal options : Int32) (absent : Except IoError Unit)
    (responder : ℕ) (success : String) (failure : String → String) :
    RepliesLast responder (answerTaken slot signal options absent responder success failure) := by
  cases slot with
  | none => exact repliesLast_answer _ _ _ _ _
  | some process =>
    exact repliesLast_bind (calls_onSystem (tearDown signal options process))
      (fun result => answered (fun _ => .success success) failure result.1) (fun _ => none) fun result => answer_eq _ _ _ _ _

theorem repliesLast_answerMultiplexer (multiplexer : Option PtyMultiplexer)
    {method : PtyMultiplexer → HandlerProg (Except String α)} (hmethod : ∀ m, (method m).Calls NotSend)
    (responder : ℕ) (success : α → String) (failure : String → String) (uninitialized : String) :
    RepliesLast responder (answerMultiplexer multiplexer method responder success failure uninitialized) := by
  cases multiplexer with
  | none => exact repliesLast_send _ _
  | some multiplexer =>
    refine repliesLast_bind (hmethod multiplexer) (answeredMethod success failure) (fun _ => ()) fun result => ?_
    cases result <;> rfl

theorem calls_writeProcess (multiplexer : PtyMultiplexer) (data : Bytes) : (writeProcess multiplexer data).Calls NotSend :=
  (calls_onSystem _).bind fun _ => trivial

theorem calls_sendToSession (sessionId : UInt32) (data : Bytes) (multiplexer : PtyMultiplexer) :
    (sendToSession sessionId data multiplexer).Calls NotSend := by
  refine (calls_table _).bind fun result => ?_
  cases result with
  | ok a => exact calls_writeProcess multiplexer data
  | error reason => trivial

theorem calls_broadcast (data : Bytes) (multiplexer : PtyMultiplexer) : (broadcast data multiplexer).Calls NotSend := by
  refine (calls_table _).bind fun result => ?_
  cases result with
  | ok a => exact calls_writeProcess multiplexer data
  | error reason => trivial

end

/-- Every handler sends its result at the end. -/
theorem repliesLast_handle (multiplexer : Option PtyMultiplexer) (slot : Slot) (command : PtyCommand) :
    RepliesLast command.responder (handle multiplexer slot command) := by
  cases command with
  | createSession responder | readAllSessions responder | listSessions responder
  | closeAllSessions responder | removeSession sessionId responder
  | readFromSession sessionId responder | splitSession sessionId responder
  | mergeSessions sessionIds responder =>
    exact (repliesLast_answerMultiplexer multiplexer (fun _ => calls_table _) _ _ _ _).after fun _ => slot
  | broadcast data responder =>
    exact (repliesLast_answerMultiplexer multiplexer (calls_broadcast data) _ _ _ _).after fun _ => slot
  | sendToSession sessionId data responder =>
    exact (repliesLast_answerMultiplexer multiplexer (calls_sendToSession sessionId data) _ _ _ _).after fun _ => slot
  | close responder | forceKill responder | shutdownPty responder => exact repliesLast_answerTaken slot _ _ _ _ _ _
  | _ => exact repliesLast_answerProcess slot _ _ _ _

/-- A handler has sent nothing when it panics, and its result last when it returns. -/
theorem RepliesLast.ends {α : Type} {responder : ℕ} {p : HandlerProg α} (hp : RepliesLast responder p)
    {ending : Option α} (h : p.Ends trace ending) :
    (ending = none ∧ ∀ event ∈ trace, NotSend event.1) ∨
      ∃ before result a, trace = before ++ [⟨.send responder result,()⟩] ∧ (∀ event ∈ before, NotSend event.1) ∧
        ending = some a := by
  obtain ⟨β,work,result,after,hwork,rfl⟩ := hp
  rcases Prog.ends_bind h with ⟨hpanic,rfl⟩ | ⟨first,b,second,rfl,hfirst,hsecond⟩
  · exact .inl ⟨rfl,hwork.ends hpanic⟩
  · cases hsecond with
    | call res h =>
      cases h
      exact .inr ⟨first,result b,after b,rfl,hwork.ends (Prog.ends_some.mpr hfirst),rfl⟩

/-! ### Fatal answers -/

/-- Watches whether there was an answer that is fatal to the command. -/
def fatalMonitor (command : PtyCommand) : Prog.Monitor Sys Sys.Res Prop :=
  .recorder (fun _ => True) fun seen event => seen ∨ command.Fatal event.1 event.2

section

open ProcessM PtyProcess

variable {α : Type}

/-- There was no fatal answer. -/
def Unharmed (seen : Prop) (_ : PtyProcess) : Prop := ¬seen

/-- A call none of whose answers is fatal. -/
theorem triple_unharmed {call : Sys} (hcall : ∀ res, ¬command.Fatal call res) :
    Triple (fatalMonitor command) Unharmed (sys call) fun _ => Unharmed := by
  refine triple_sys (fun _ _ _ => trivial) ?_
  rintro seen _ res _ hseen rfl
  exact fun h => h.elim hseen (hcall res)

theorem triple_check_unharmed {pre : Prop → PtyProcess → Prop} {ret : Ret} {bad : ℤ → Bool} :
    Triple (fatalMonitor command) pre (check ret bad) fun _ => pre :=
  triple_check (fun _ _ h _ => h) fun _ _ h _ => h

theorem triple_closeFd_unharmed (fd : ℤ) :
    Triple (fatalMonitor command) Unharmed (closeFd fd) fun _ => Unharmed := triple_unharmed fun _ h => h

/-- A method that makes such a call on the process and checks what it returns. -/
theorem triple_call_unharmed {call : PtyProcess → Sys} {f : (process : PtyProcess) → (call process).Res → ProcessM α}
    (hcall : ∀ process res, ¬command.Fatal (call process) res)
    (hf : ∀ process res, Triple (fatalMonitor command) Unharmed (f process res) fun _ => Unharmed) :
    Triple (fatalMonitor command) Unharmed (self >>= fun process => sys (call process) >>= f process)
      fun _ => Unharmed := by
  refine triple_self fun process => ?_
  refine ((triple_unharmed (hcall process)).bind (hf process) fun _ _ _ h => h).mono (fun _ _ h => h.1) ?_
  exact fun _ _ _ h => h

/-- A shell that is said to run may have been a fatal answer. -/
theorem triple_isRunning (key value : String) (responder : ℕ) :
    Triple (fatalMonitor (.setEnv key value responder)) Unharmed isRunning
      fun result seen _ => seen → result = .ok true := by
  refine triple_self fun process => ?_
  have hkill : Triple (fatalMonitor (.setEnv key value responder)) (fun seen p => Unharmed seen p ∧ p = process)
      (sys (.kill process.pid 0)) fun result seen _ => ∃ ret : Ret, result = .ok ret ∧ (seen → ret.value = 0) := by
    refine triple_sys (fun _ _ _ => trivial) ?_
    rintro seen _ (ret : Ret) _ ⟨hseen,rfl⟩ rfl
    refine ⟨ret,rfl,fun h => ?_⟩
    rcases h with h | hfatal
    · exact absurd h hseen
    · exact hfatal.2.1
  refine hkill.bind (fun ret => ?_) fun e seen p h => ?_
  · refine triple_ite (fun _ => triple_pure fun _ _ _ _ => rfl) fun hzero => ?_
    have hunharmed {seen : Prop} (h : ∃ ret' : Ret, Except.ok (ε := IoError) ret = .ok ret' ∧ (seen → ret'.value = 0)) :
        ¬seen := by
      obtain ⟨_,⟨⟩,h⟩ := h
      exact fun hseen => hzero (h hseen)
    refine triple_ite (fun _ => triple_ite (fun _ => ?_) fun _ => ?_) fun _ => ?_
    · exact triple_pure fun _ _ h hseen => absurd hseen (hunharmed h)
    · exact triple_fail fun _ _ h hseen => absurd hseen (hunharmed h)
    · exact triple_pure fun _ _ h hseen => absurd hseen (hunharmed h)
  · obtain ⟨_,h,-⟩ := h
    cases h

/-- Where the variable cannot be set, the method returns only for a shell that does not run. -/
theorem triple_setEnv {key value : String} (h : unsettable key value) (responder : ℕ) :
    Triple (fatalMonitor (.setEnv key value responder)) Unharmed (setEnv key value) fun _ => Unharmed := by
  refine (triple_isRunning key value responder).bind (fun running => ?_) fun _ _ _ h hseen => by cases h hseen
  cases running with
  | false => exact triple_fail fun _ _ h hseen => by cases h hseen
  | true =>
    have hset : setVar key value = abort "failed to set environment variable" := if_pos h
    show Triple _ _ (setVar key value >>= fun _ => discard (writeData _)) _
    rw [hset]
    have habort : Triple (fatalMonitor (.setEnv key value responder))
        (fun seen _ => seen → Except.ok (ε := IoError) true = .ok true)
        (abort "failed to set environment variable" : ProcessM Unit) fun _ _ _ => False := triple_abort
    exact habort.bind (fun _ _ _ h => h.elim) fun _ _ _ h => h.elim

variable {shellPath : String} {responder : ℕ}

theorem triple_failOpen_unharmed (masterFd : ℤ) (e : IoError) :
    Triple (fatalMonitor (.changeShell shellPath responder)) Unharmed (failOpen masterFd e)
      fun result seen _ => seen → ∃ fds, result = .ok fds :=
  (triple_closeFd_unharmed masterFd).bind (fun _ => triple_fail fun _ _ h hseen => absurd hseen h)
    fun _ _ _ h hseen => absurd hseen h

/-- Only a terminal that is open on both sides may have been a fatal answer. -/
theorem triple_openNewPty : Triple (fatalMonitor (.changeShell shellPath responder)) Unharmed openNewPty
    fun result seen _ => seen → ∃ fds, result = .ok fds := by
  have herror {α : Type} (e : IoError) (seen : Prop) (process : PtyProcess) (h : Unharmed seen process) :
      seen → ∃ a : α, Except.error e = .ok a := fun hseen => absurd hseen h
  have hspares (call : Sys) (hcall : ∀ res, ¬(PtyCommand.changeShell shellPath responder).Fatal call res) :
      Triple (fatalMonitor (.changeShell shellPath responder)) Unharmed (sys call) fun _ => Unharmed :=
    triple_unharmed hcall
  refine (hspares .posixOpenpt fun _ h => h).bind (fun opened => ?_) herror
  refine triple_check_unharmed.bind (fun _ => ?_) herror
  refine (hspares (.grantpt _) fun _ h => h).bind (fun granted => ?_) herror
  refine triple_ite (fun _ => triple_failOpen_unharmed _ _) fun _ => ?_
  refine (hspares (.unlockpt _) fun _ h => h).bind (fun unlocked => ?_) herror
  refine triple_ite (fun _ => triple_failOpen_unharmed _ _) fun _ => ?_
  refine (hspares (.ptsname _) fun _ h => h).bind (fun named => ?_) herror
  refine triple_ite (fun _ => triple_failOpen_unharmed _ _) fun _ => ?_
  obtain ⟨ret,slaveName⟩ := named
  cases slaveName with
  | none => exact triple_fail fun _ _ h hseen => absurd hseen h
  | some slaveName =>
    have hslave : Triple (fatalMonitor (.changeShell shellPath responder)) Unharmed (sys (.openSlave slaveName))
        fun result seen _ => ∃ slave : Ret, result = .ok slave ∧ (seen → 0 ≤ slave.value) := by
      refine triple_sys (fun _ _ _ => trivial) ?_
      rintro seen _ (slave : Ret) _ hseen rfl
      refine ⟨slave,rfl,fun h => ?_⟩
      rcases h with h | hfatal
      · exact absurd h hseen
      · exact hfatal.1
    refine hslave.bind (fun slave => ?_) fun e seen p h => ?_
    · refine triple_ite (fun hbad => ?_) fun _ => triple_pure fun _ _ _ _ => ⟨_,rfl⟩
      refine (triple_failOpen_unharmed _ _).mono ?_ fun _ _ _ h => h
      rintro seen process ⟨_,⟨⟩,h⟩ hseen
      exact absurd (h hseen) (not_le.mpr hbad)
    · obtain ⟨_,h,-⟩ := h
      cases h

/-- Where the path is no C string, the method returns only without a new terminal. -/
theorem triple_changeShell (h : '\x00' ∈ shellPath.toList) :
    Triple (fatalMonitor (.changeShell shellPath responder)) Unharmed (changeShell shellPath) fun _ => Unharmed := by
  have hkill : Triple (fatalMonitor (.changeShell shellPath responder)) Unharmed (killProcess sigterm)
      fun _ => Unharmed :=
    triple_call_unharmed (fun _ _ hfatal => by simp [PtyCommand.Fatal] at hfatal) fun _ _ => triple_check_unharmed
  have hwait : Triple (fatalMonitor (.changeShell shellPath responder)) Unharmed (waitpid 0) fun _ => Unharmed :=
    triple_call_unharmed (fun _ _ hfatal => hfatal) fun _ _ =>
      triple_check_unharmed.bind (fun _ => triple_pure fun _ _ h => h) fun _ _ _ h => h
  have hclose : Triple (fatalMonitor (.changeShell shellPath responder)) Unharmed closeMasterFd fun _ => Unharmed :=
    triple_call_unharmed (fun _ _ hfatal => hfatal) fun _ _ => triple_check_unharmed
  refine hkill.bind (fun _ => ?_) fun _ _ _ h => h
  refine hwait.attempt.bind (fun _ => ?_) fun _ _ _ h => h
  refine hclose.bind (fun _ => ?_) fun _ _ _ h => h
  refine triple_openNewPty.bind (fun fds => ?_) fun e _ _ h hseen => ?_
  · have hmodify : Triple (fatalMonitor (.changeShell shellPath responder))
        (fun seen _ => seen → ∃ fds', Except.ok (ε := IoError) fds = .ok fds')
        (modify fun process => { process with masterFd := fds.1 }) fun result _ _ => ∃ a, result = .ok a :=
      triple_modify fun _ _ _ => ⟨(),rfl⟩
    refine hmodify.bind (fun _ => ?_) fun e _ _ h => ?_
    · exact triple_ite (fun _ => triple_abort) fun hnot => absurd h hnot
    · obtain ⟨_,h⟩ := h
      cases h
  · obtain ⟨_,h⟩ := h hseen
    cases h

end

/-- The same watch over all that a handler calls. -/
def handlerMonitor (command : PtyCommand) : Prog.Monitor Call Call.Res Prop :=
  .recorder (fun _ => True) fun seen event => seen ∨ FatalTo command event

/-- On every path that returns there was no fatal answer. -/
def Spares {α : Type} (command : PtyCommand) (p : HandlerProg α) : Prop :=
  ∀ seen, ¬seen → p.Respects (handlerMonitor command) (fun seen' _ => ¬seen') seen

theorem spares_of_never {α : Type} (h : ∀ call res, ¬command.Fatal call res) (p : HandlerProg α) :
    Spares command p := by
  intro seen hseen
  refine (Prog.Respects.of_idle (fun op => ⟨trivial,?_⟩) p).mono fun seen' _ hsame => by rwa [hsame]
  rintro res _ rfl
  cases op with
  | sys call => exact propext ⟨fun hor => hor.elim id fun hfatal => absurd hfatal (h call res),.inl⟩
  | table call => exact propext ⟨fun hor => hor.elim id fun hfatal => hfatal.elim,.inl⟩
  | send responder result => exact propext ⟨fun hor => hor.elim id fun hfatal => hfatal.elim,.inl⟩

theorem spares_send {responder : ℕ} {result : PtyResult} : Spares command (send responder result) := by
  intro seen hseen
  refine ⟨trivial,?_⟩
  rintro res _ rfl
  exact fun hor => hor.elim hseen fun hfatal => hfatal

theorem Spares.bind {α β : Type} {p : HandlerProg α} {f : α → HandlerProg β} (hp : Spares command p)
    (hf : ∀ a, Spares command (f a)) : Spares command (p >>= f) := fun seen hseen =>
  (hp seen hseen).bind fun seen' a hseen' => hf a seen' hseen'

theorem spares_answer {α : Type} {slot : Slot} {responder : ℕ} {success : α → PtyResult}
    {failure : String → String} (result : Except IoError α) :
    Spares command (answer slot responder success failure result) := by
  rw [answer_eq]
  exact spares_send.bind fun _ seen hseen => hseen

theorem spares_answerProcess {α : Type} {method : ProcessM α}
    (hmethod : ProcessM.Triple (fatalMonitor command) Unharmed method fun _ => Unharmed) (slot : Slot)
    (responder : ℕ) (success : α → PtyResult) (failure : String → String) :
    Spares command (answerProcess slot method responder success failure) := by
  cases slot with
  | none =>
    show Spares command (answer none responder success failure (.error notInitialized))
    exact spares_answer _
  | some process =>
    refine Spares.bind (fun seen hseen => ?_) fun result => spares_answer result.1
    exact (hmethod seen process hseen).hoist (fun _ _ _ => trivial) fun _ _ _ _ h => h

/-- A handler that returns has met no fatal answer. -/
theorem spares_handle (multiplexer : Option PtyMultiplexer) (slot : Slot) (command : PtyCommand) :
    Spares command (handle multiplexer slot command) := by
  by_cases h : ∀ call res, ¬command.Fatal call res
  · exact spares_of_never h _
  push Not at h
  obtain ⟨call,res,hfatal⟩ := h
  cases call with
  | kill pid signal =>
    obtain ⟨-,-,key,value,responder,rfl,hunsettable⟩ := hfatal
    exact spares_answerProcess (triple_setEnv hunsettable responder) slot _ _ _
  | openSlave name =>
    obtain ⟨-,shellPath,responder,rfl,hzero⟩ := hfatal
    exact spares_answerProcess (triple_changeShell hzero) slot _ _ _
  | _ => exact hfatal.elim

/-! ### One command, and all of them -/

theorem Spares.traces {α : Type} {p : HandlerProg α} (hp : Spares command p) {a : α} (h : p.Traces trace a) :
    ∀ event ∈ trace, ¬FatalTo command event := by
  have hnone := (Prog.Respects.recorded (hp False not_false) h).2
  have hfold (seen : Prop) : trace.foldl (fun seen event => seen ∨ FatalTo command event) seen ↔
      seen ∨ ∃ event ∈ trace, FatalTo command event := by
    clear hnone h
    induction trace generalizing seen with
    | nil => simp
    | cons event trace ih =>
      rw [List.foldl_cons,ih]
      simp [or_assoc]
  rw [hfold] at hnone
  exact fun event hevent hfatal => hnone (.inr ⟨event,hevent,hfatal⟩)

/-- Handling a command ends in a panic exactly when an answer is fatal to it. -/
theorem handle_panics_iff (h : (handle multiplexer slot command).Ends trace ending)
    (hparent : ∀ event ∈ trace, event.1.InParent event.2) : ending = none ↔ ∃ event ∈ trace, FatalTo command event := by
  constructor
  · rintro rfl
    by_contra hnone
    push Not at hnone
    have hharmless : ∀ event ∈ trace, Harmless command event.1 event.2 := by
      rintro ⟨call,res⟩ hevent
      cases call with
      | sys call => exact ⟨hparent _ hevent,hnone _ hevent⟩
      | table call => trivial
      | send responder result => trivial
    obtain ⟨a,hending,-⟩ := (handle_returns multiplexer slot command).ends h hharmless
    exact absurd hending (Option.some_ne_none a).symm
  · rintro ⟨event,hevent,hfatal⟩
    cases ending with
    | none => rfl
    | some a => exact absurd hfatal ((spares_handle multiplexer slot command).traces (Prog.ends_some.mp h) event hevent)

/-- Up to the next result, what is met is met by the command at the head. -/
theorem meetsFatal_append {before : Trace} (hbefore : ∀ event ∈ before, NotSend event.1) :
    MeetsFatal (command::commands) (before ++ trace) ↔
      (∃ event ∈ before, FatalTo command event) ∨ MeetsFatal (command::commands) trace := by
  induction before with
  | nil => simp
  | cons event before ih =>
    obtain ⟨hevent,hrest⟩ := List.forall_mem_cons.mp hbefore
    obtain ⟨call,res⟩ := event
    cases call with
    | sys call =>
      show command.Fatal call res ∨ MeetsFatal (command::commands) (before ++ trace) ↔ _
      rw [ih hrest,List.exists_mem_cons_iff,or_assoc]
      rfl
    | table call =>
      show MeetsFatal (command::commands) (before ++ trace) ↔ _
      rw [ih hrest,List.exists_mem_cons_iff]
      simp [FatalTo]
    | send responder result => exact absurd rfl (hevent responder result)

theorem meetsFatal_nil : ¬MeetsFatal commands [] := by
  cases commands <;> exact id

/-- The handling of the command at the head, and what comes after it. -/
theorem meetsFatal_handled {first : Trace} {slot' : Slot} (h : (handle multiplexer slot command).Traces first slot') :
    MeetsFatal (command::commands) (first ++ trace) ↔ MeetsFatal commands trace := by
  have hspared := (spares_handle multiplexer slot command).traces h
  rcases (repliesLast_handle multiplexer slot command).ends (Prog.ends_some.mpr h) with
    ⟨hending,-⟩ | ⟨before,result,a,rfl,hbefore,-⟩
  · exact absurd hending (Option.some_ne_none slot')
  · rw [List.append_assoc,meetsFatal_append hbefore]
    refine or_iff_right ?_
    rintro ⟨event,hevent,hfatal⟩
    exact hspared event (List.mem_append_left _ hevent) hfatal

/-- Handling a command that panics has not come to the next one. -/
theorem meetsFatal_panicked (h : (handle multiplexer slot command).Ends trace none)
    (hparent : ∀ event ∈ trace, event.1.InParent event.2) : MeetsFatal (command::commands) trace := by
  have hfatal := (handle_panics_iff h hparent).mp rfl
  rcases (repliesLast_handle multiplexer slot command).ends h with ⟨-,hquiet⟩ | ⟨before,result,a,-,-,hending⟩
  · rw [← List.append_nil trace,meetsFatal_append hquiet]
    exact .inl hfatal
  · exact absurd hending.symm (Option.some_ne_none a)

/-- The loop ends in a panic exactly when a command meets an answer that is fatal to it. -/
theorem handleCommands_panics_iff (h : (handleCommands multiplexer slot commands).Ends trace ending)
    (hparent : ∀ event ∈ trace, event.1.InParent event.2) : ending = none ↔ MeetsFatal commands trace := by
  induction commands generalizing slot trace with
  | nil =>
    cases h
    exact ⟨fun hending => absurd hending (Option.some_ne_none slot),fun hmeets => absurd hmeets meetsFatal_nil⟩
  | cons command commands ih =>
    have hreturned {first : Trace} {slot' : Slot} (hfirst : (handle multiplexer slot command).Traces first slot') :
        ¬MeetsFatal (command::commands) first := by
      rw [← List.append_nil first,meetsFatal_handled hfirst]
      exact meetsFatal_nil
    cases hcommand : command.isShutdown with
    | true =>
      rw [handleCommands_cons_shutdown hcommand] at h
      cases ending with
      | none => exact iff_of_true rfl (meetsFatal_panicked h hparent)
      | some slot' =>
        exact iff_of_false (Option.some_ne_none slot') (hreturned (Prog.ends_some.mp h))
    | false =>
      rw [handleCommands_cons hcommand] at h
      rcases Prog.ends_bind h with ⟨hpanic,rfl⟩ | ⟨first,slot',second,rfl,hfirst,hsecond⟩
      · exact iff_of_true rfl (meetsFatal_panicked hpanic hparent)
      · rw [meetsFatal_handled hfirst]
        exact ih hsecond fun event hevent => hparent event (List.mem_append_right _ hevent)

/-- In every run of the loop all commands are answered as they should be exactly when no command
meets an answer that is fatal to it. -/
theorem handleCommands_answered_iff (h : (handleCommands multiplexer slot commands).Ends trace ending)
    (hparent : ∀ event ∈ trace, event.1.InParent event.2) :
    Answered multiplexer slot commands trace ending ↔ ¬MeetsFatal commands trace := by
  rw [← handleCommands_panics_iff h hparent]
  constructor
  · rintro ⟨slot',rfl,-⟩
    exact Option.some_ne_none slot'
  · intro hending
    obtain ⟨slot',rfl⟩ := Option.ne_none_iff_exists'.mp hending
    exact ⟨slot',rfl,handleCommands_serves multiplexer slot slot' commands trace (Prog.ends_some.mp h)⟩

theorem handleCommands_answered_close :
    let commands : List PtyCommand := [.close 0,.write [] 1,.shutdownPty 2,.status 3]
    let zero : Ret := ⟨0,⟨none,""⟩⟩
    let trace : Trace := [⟨.sys (.kill 42 sigterm),zero⟩,⟨.sys (.waitpid 42 wnohang),zero⟩,
      ⟨.sys (.close 5),zero⟩,⟨.send 0 (.success "PTY closed successfully"),()⟩,
      ⟨.send 1 (.failure "Write error: PTY process not initialized"),()⟩,
      ⟨.send 2 (.success "PTY shutdown successfully"),()⟩]
    Answered none (some ⟨5,42,"sh"⟩) commands trace (some none) ↔ ¬MeetsFatal commands trace := by
  intro commands zero trace
  have hends : (handleCommands none (some ⟨5,42,"sh"⟩) commands).Ends trace (some none) :=
    .call _ (.call _ (.call _ (.call _ (.call _ (.call _ (.pure _))))))
  have hparent : ∀ event ∈ trace, event.1.InParent event.2 := by simp [trace,Call.InParent,Sys.InParent]
  exact handleCommands_answered_iff hends hparent

/-- A path with a zero byte: every call returns, the new terminal is open, and the handler panics
before it sends anything. -/
theorem handleCommands_unanswered : ¬∀ (multiplexer : Option PtyMultiplexer) (slot : Slot)
    (commands : List PtyCommand) (trace : Trace) (ending : Option Slot),
    (handleCommands multiplexer slot commands).Ends trace ending →
    (∀ event ∈ trace, event.1.InParent event.2) → Answered multiplexer slot commands trace ending := by
  intro h
  let ret (value : ℤ) : Ret := ⟨value,⟨none,""⟩⟩
  let trace : Trace := [⟨.sys (.kill 42 sigterm),ret 0⟩,⟨.sys (.waitpid 42 0),ret 42⟩,⟨.sys (.close 5),ret 0⟩,
    ⟨.sys .posixOpenpt,ret 7⟩,⟨.sys (.grantpt 7),ret 0⟩,⟨.sys (.unlockpt 7),ret 0⟩,
    ⟨.sys (.ptsname 7),(ret 1,some "/dev/pts/1")⟩,⟨.sys (.openSlave "/dev/pts/1"),ret 8⟩]
  have hends : (handleCommands none (some ⟨5,42,"sh"⟩) [.changeShell "sh\x00" 0]).Ends trace none :=
    .call _ (.call _ (.call _ (.call _ (.call _ (.call _ (.call _ (.call _ (.panic _))))))))
  have hparent : ∀ event ∈ trace, event.1.InParent event.2 := by simp [trace,Call.InParent,Sys.InParent]
  obtain ⟨slot',hending,-⟩ := h none (some ⟨5,42,"sh"⟩) _ trace none hends hparent
  exact absurd hending (Option.some_ne_none slot').symm

end CommandHandler
end NodeRustPty
