import NodeRustPty.CommandLoop

/-! When the thread of the command handler panics: on a variable that no environment can
hold, and on the path of a shell that is no C string. No other command makes it panic. -/
namespace NodeRustPty

namespace ProcessM

variable {α β : Type} {allowed : (call : Sys) → call.Res → Prop}

/-- As long as all answers are allowed ones the method returns, and `post` holds of its result. -/
def Completes (allowed : (call : Sys) → call.Res → Prop) (m : ProcessM α) (post : Except IoError α → Prop) :
    Prop := ∀ process, (m process).Completes allowed fun result => post result.1

/-- The method returns, whatever its result is. -/
abbrev Returns (allowed : (call : Sys) → call.Res → Prop) (m : ProcessM α) : Prop :=
  Completes allowed m fun _ => True

variable {middle post : Except IoError α → Prop} {final : Except IoError β → Prop}

theorem Completes.bind {m : ProcessM α} {f : α → ProcessM β} (hm : Completes allowed m middle)
    (hok : ∀ a, middle (.ok a) → Completes allowed (f a) final)
    (herror : ∀ e, middle (.error e) → final (.error e)) : Completes allowed (m >>= f) final := by
  intro process
  refine Prog.Completes.bind (hm process) ?_
  rintro ⟨result,after⟩ hresult
  cases result with
  | ok a => exact hok a hresult after
  | error e => exact herror e hresult

theorem Returns.bind {m : ProcessM α} {f : α → ProcessM β} (hm : Returns allowed m)
    (hf : ∀ a, Returns allowed (f a)) : Returns allowed (m >>= f) :=
  Completes.bind hm (fun a _ => hf a) fun _ _ => trivial

theorem completes_pure {a : α} (h : post (.ok a)) : Completes allowed (pure a) post := fun _ => h

theorem completes_fail {e : IoError} (h : post (.error e)) : Completes allowed (fail e) post := fun _ => h

theorem completes_self {f : PtyProcess → ProcessM α} (h : ∀ process, Completes allowed (f process) post) :
    Completes allowed (self >>= f) post := fun process => h process process

theorem completes_modify {f : PtyProcess → PtyProcess} : Returns allowed (modify f) := fun _ => trivial

theorem completes_sys {call : Sys} {post : Except IoError call.Res → Prop}
    (h : ∀ res, allowed call res → post (.ok res)) : Completes allowed (sys call) post := fun _ => h

theorem returns_sys (call : Sys) : Returns allowed (sys call) := completes_sys fun _ _ => trivial

/-- What follows a call only has to deal with the allowed answers. -/
theorem Completes.bind_sys {call : Sys} {f : call.Res → ProcessM β}
    (h : ∀ res, allowed call res → Completes allowed (f res) final) : Completes allowed (sys call >>= f) final :=
  fun process res hres => h res hres process

/-- A failure of a method whose result is only looked at is no failure. -/
theorem completes_attempt {m : ProcessM α} (hm : Returns allowed m) : Returns allowed (attempt m) :=
  fun process => Prog.Completes.bind (hm process) fun _ _ => trivial

theorem completes_check {ret : Ret} {bad : ℤ → Bool} {post : Except IoError Unit → Prop}
    (hbad : bad ret.value = true → post (.error ret.error)) (hgood : bad ret.value = false → post (.ok ())) :
    Completes allowed (PtyProcess.check ret bad) post := by
  cases h : bad ret.value with
  | true =>
    rw [PtyProcess.check_bad h]
    exact completes_fail (hbad h)
  | false =>
    rw [PtyProcess.check_good h]
    exact completes_pure (hgood h)

theorem returns_check (ret : Ret) (bad : ℤ → Bool) : Returns allowed (PtyProcess.check ret bad) :=
  completes_check (fun _ => trivial) fun _ => trivial

end ProcessM

namespace PtyProcess

open ProcessM

variable {allowed : (call : Sys) → call.Res → Prop}

/-! ### Methods that always return -/

theorem writeData_returns (data : Bytes) : Returns allowed (writeData data) :=
  completes_self fun _ => (returns_sys _).bind fun (_ : Ret) => (returns_check _ _).bind fun _ =>
    completes_pure trivial

theorem readData_returns (length : ℕ) : Returns allowed (readData length) :=
  completes_self fun _ => (returns_sys _).bind fun (_ : Ret × Bytes) => (returns_check _ _).bind fun _ =>
    completes_pure trivial

theorem resize_returns (cols rows : UInt16) : Returns allowed (resize cols rows) :=
  completes_self fun _ => (returns_sys _).bind fun (_ : Ret) => returns_check _ _

theorem killProcess_returns (signal : Int32) : Returns allowed (killProcess signal) :=
  completes_self fun _ => (returns_sys _).bind fun (_ : Ret) => returns_check _ _

theorem waitpid_returns (options : Int32) : Returns allowed (waitpid options) :=
  completes_self fun _ => (returns_sys _).bind fun (_ : Ret) => (returns_check _ _).bind fun _ =>
    completes_pure trivial

theorem closeMasterFd_returns : Returns allowed closeMasterFd :=
  completes_self fun _ => (returns_sys _).bind fun (_ : Ret) => returns_check _ _

theorem status_returns : Returns allowed status := by
  refine completes_self fun _ => (returns_sys _).bind fun (ret : Ret) => ?_
  split
  · exact completes_pure trivial
  · split
    · split
      · exact completes_pure trivial
      · exact completes_fail trivial
    · exact completes_pure trivial

theorem setLogLevel_returns (level : String) : Returns allowed (setLogLevel level) := returns_sys _

/-! ### Variables -/

/-- The shell runs only if the signal with number zero reaches it. -/
theorem isRunning_completes : Completes allowed isRunning fun result =>
    result = .ok true → ∃ pid ret, allowed (.kill pid 0) ret ∧ ret.value = 0 := by
  refine completes_self fun process => ?_
  refine Completes.bind_sys fun (ret : Ret) hret => ?_
  split
  · next hzero => exact completes_pure fun _ => ⟨process.pid,ret,hret,hzero⟩
  · split
    · split
      · exact completes_pure fun h => by cases h
      · exact completes_fail fun h => by cases h
    · exact completes_pure fun h => by cases h

/-- A variable that can be set, or a shell that is not running. -/
theorem setEnv_returns {key value : String}
    (h : unsettable key value → ∀ pid ret, allowed (.kill pid 0) ret → ret.value ≠ 0) :
    Returns allowed (setEnv key value) := by
  refine Completes.bind isRunning_completes (fun running hrunning => ?_) fun _ _ => trivial
  cases running with
  | false => exact completes_fail trivial
  | true =>
    obtain ⟨pid,ret,hallowed,hzero⟩ := hrunning rfl
    have hsettable : ¬unsettable key value := fun hkey => h hkey pid ret hallowed hzero
    have hset : setVar key value = sys (.setVar key value) := if_neg hsettable
    have hwrite (data : Bytes) : Returns allowed (writeData data) := writeData_returns data
    show Returns allowed (setVar key value >>= fun _ => discard (writeData _))
    rw [hset]
    exact (returns_sys _).bind fun _ => (hwrite _).bind fun _ => completes_pure trivial

/-! ### Shells -/

theorem failOpen_completes (masterFd : ℤ) (e : IoError) :
    Completes allowed (failOpen masterFd e) fun result => ∀ fds, result ≠ .ok fds := by
  refine Completes.bind_sys fun (ret : Ret) _ => ?_
  exact completes_fail fun fds h => by cases h

/-- The new terminal is there only if its other end could be opened. -/
theorem openNewPty_completes : Completes allowed openNewPty fun result =>
    ∀ fds, result = .ok fds → ∃ name ret, allowed (.openSlave name) ret ∧ 0 ≤ ret.value := by
  have hfail (masterFd : ℤ) (e : IoError) : Completes allowed (failOpen masterFd e) fun result =>
      ∀ fds, result = .ok fds → ∃ name ret, allowed (.openSlave name) ret ∧ 0 ≤ ret.value := fun process =>
    (failOpen_completes masterFd e process).mono fun result hresult fds h => absurd h (hresult fds)
  have herror (e : IoError) : ∀ fds : ℤ × ℤ, .error e = Except.ok fds →
      ∃ name ret, allowed (.openSlave name) ret ∧ 0 ≤ ret.value := fun fds h => by cases h
  refine Completes.bind_sys fun (opened : Ret) _ => ?_
  refine Completes.bind (returns_check _ _) (fun _ _ => ?_) fun e _ => herror e
  refine Completes.bind_sys fun (granted : Ret) _ => ?_
  split
  · exact hfail _ _
  refine Completes.bind_sys fun (unlocked : Ret) _ => ?_
  split
  · exact hfail _ _
  refine Completes.bind_sys fun (named : Ret × Option String) _ => ?_
  split
  · exact hfail _ _
  split
  · exact completes_fail fun fds h => by cases h
  · next slaveName _ =>
    refine Completes.bind_sys fun (slave : Ret) hslave => ?_
    split
    · exact hfail _ _
    · next hgood => exact completes_pure fun _ _ => ⟨slaveName,slave,hslave,not_lt.mp hgood⟩

theorem cleanupFd_returns (masterFd slaveFd : ℤ) : Returns allowed (cleanupFd masterFd slaveFd) :=
  (returns_sys _).bind fun _ => returns_sys _

/-- A path without zero bytes, or no terminal to run the shell in. The thread is the
parent of the fork. -/
theorem spawnNewShell_returns {shellPath : String}
    (h : '\x00' ∈ shellPath.toList → ∀ name ret, allowed (.openSlave name) ret → ret.value < 0)
    (hfork : ∀ ret, allowed .fork ret → ret.value ≠ 0) : Returns allowed (spawnNewShell shellPath) := by
  refine closeMasterFd_returns.bind fun _ => ?_
  refine Completes.bind openNewPty_completes (fun fds hfds => ?_) fun _ _ => trivial
  obtain ⟨name,ret,hallowed,hgood⟩ := hfds fds rfl
  have hpath : '\x00' ∉ shellPath.toList := fun hzero => absurd (h hzero name ret hallowed) (not_lt.mpr hgood)
  refine completes_modify.bind fun _ => ?_
  rw [if_neg hpath]
  refine Completes.bind_sys fun (forked : Ret) hforked => ?_
  split
  · exact (cleanupFd_returns _ _).bind fun _ => completes_fail trivial
  · rw [if_neg (hfork forked hforked)]
    exact (returns_sys _).bind fun _ => completes_modify

theorem changeShell_returns {shellPath : String}
    (h : '\x00' ∈ shellPath.toList → ∀ name ret, allowed (.openSlave name) ret → ret.value < 0)
    (hfork : ∀ ret, allowed .fork ret → ret.value ≠ 0) : Returns allowed (changeShell shellPath) :=
  (killProcess_returns sigterm).bind fun _ => (completes_attempt (waitpid_returns 0)).bind fun _ =>
    spawnNewShell_returns h hfork

end PtyProcess

/-! ### Handlers -/

/-- The thread of the handler is the parent of every fork. -/
def Sys.InParent : (call : Sys) → call.Res → Prop
  | .fork,ret => ret.value ≠ 0
  | _,_ => True

/-- The answers after which the handler of the command panics: the shell lives and the
variable cannot be set, or the new terminal is open and the path of the shell is no C string. -/
def PtyCommand.Fatal (command : PtyCommand) : (call : Sys) → call.Res → Prop
  | .kill _ signal,ret => signal = 0 ∧ ret.value = 0 ∧
    ∃ key value responder, command = .setEnv key value responder ∧ PtyProcess.unsettable key value
  | .openSlave _,ret => 0 ≤ ret.value ∧
    ∃ shellPath responder, command = .changeShell shellPath responder ∧ '\x00' ∈ shellPath.toList
  | _,_ => False

namespace CommandHandler

/-- The answers that the handler of a command comes back from. -/
def Harmless (command : PtyCommand) : (call : Call) → call.Res → Prop
  | .sys call,res => call.InParent res ∧ ¬command.Fatal call res
  | .table _,_ => True
  | .send _ _,_ => True

variable {command : PtyCommand} {responder : ℕ} {slot : Slot}

theorem answer_completes {α : Type} (slot : Slot) (responder : ℕ) (success : α → PtyResult)
    (failure : String → String) (result : Except IoError α) :
    (answer slot responder success failure result).Completes (Harmless command) fun slot' => slot' = slot := by
  cases result with
  | ok a => exact fun _ _ => rfl
  | error e => exact fun _ _ => rfl

theorem onSystem_completes {α : Type} {m : ProcessM α}
    (hm : m.Returns fun call res => call.InParent res ∧ ¬command.Fatal call res) (process : PtyProcess) :
    (onSystem (m process)).Completes (Harmless command) fun _ => True :=
  (hm process).hoist _ _ fun _ _ hres => hres

/-- A handler that uses the process leaves the slot as full as it was. -/
theorem answerProcess_completes {α : Type} {method : ProcessM α}
    (hm : method.Returns fun call res => call.InParent res ∧ ¬command.Fatal call res) (slot : Slot)
    (responder : ℕ) (success : α → PtyResult) (failure : String → String) :
    (answerProcess slot method responder success failure).Completes (Harmless command)
      fun slot' => slot'.isSome = slot.isSome := by
  have hanswer (slot : Slot) (result : Except IoError α) :
      (answer slot responder success failure result).Completes (Harmless command)
        fun slot' => slot'.isSome = slot.isSome :=
    (answer_completes slot responder success failure result).mono fun slot' hslot => congrArg Option.isSome hslot
  cases slot with
  | none => exact hanswer none (.error notInitialized)
  | some process =>
    refine (onSystem_completes hm process).bind fun result _ => ?_
    exact hanswer (some result.2) result.1

theorem answerMultiplexer_completes {α : Type} (multiplexer : Option PtyMultiplexer)
    {method : PtyMultiplexer → HandlerProg (Except String α)}
    (hm : ∀ m, (method m).Completes (Harmless command) fun _ => True) (responder : ℕ) (success : α → String)
    (failure : String → String) (uninitialized : String) :
    (answerMultiplexer multiplexer method responder success failure uninitialized).Completes
      (Harmless command) fun _ => True := by
  cases multiplexer with
  | none => exact fun _ _ => trivial
  | some multiplexer =>
    refine (hm multiplexer).bind fun result _ => ?_
    cases result with
    | ok a => exact fun _ _ => trivial
    | error reason => exact fun _ _ => trivial

theorem keeping_completes {handler : HandlerProg Unit} (h : handler.Completes (Harmless command) fun _ => True)
    (slot : Slot) : (keeping slot handler).Completes (Harmless command) fun slot' => slot'.isSome = slot.isSome :=
  h.bind fun _ _ => rfl

theorem table_completes (call : TableCall) : (table call).Completes (Harmless command) fun _ => True :=
  fun _ _ => trivial

theorem writeProcess_completes (multiplexer : PtyMultiplexer) (data : Bytes) :
    (writeProcess multiplexer data).Completes (Harmless command) fun _ => True :=
  (onSystem_completes (PtyProcess.writeData_returns data) multiplexer.ptyProcess).bind fun _ _ => trivial

theorem sendToSession_completes (sessionId : UInt32) (data : Bytes) (multiplexer : PtyMultiplexer) :
    (sendToSession sessionId data multiplexer).Completes (Harmless command) fun _ => True := by
  refine (table_completes _).bind fun result _ => ?_
  cases result with
  | ok a => exact writeProcess_completes multiplexer data
  | error reason => trivial

theorem broadcast_completes (data : Bytes) (multiplexer : PtyMultiplexer) :
    (broadcast data multiplexer).Completes (Harmless command) fun _ => True := by
  refine (table_completes _).bind fun result _ => ?_
  cases result with
  | ok a => exact writeProcess_completes multiplexer data
  | error reason => trivial

/-- Every command that does not take the process leaves the slot as full as it was, and its
handler comes back unless an answer is fatal. -/
theorem handle_completes (multiplexer : Option PtyMultiplexer) (slot : Slot) (command : PtyCommand)
    (hcommand : command.takesProcess = false) :
    (handle multiplexer slot command).Completes (Harmless command) fun slot' => slot'.isSome = slot.isSome := by
  cases command with
  | createSession responder | readAllSessions responder | listSessions responder
  | closeAllSessions responder | removeSession sessionId responder
  | readFromSession sessionId responder | splitSession sessionId responder
  | mergeSessions sessionIds responder =>
    exact keeping_completes
      (answerMultiplexer_completes multiplexer (fun _ => table_completes _) _ _ _ _) slot
  | broadcast data responder =>
    exact keeping_completes
      (answerMultiplexer_completes multiplexer (broadcast_completes data) _ _ _ _) slot
  | sendToSession sessionId data responder =>
    exact keeping_completes
      (answerMultiplexer_completes multiplexer (sendToSession_completes sessionId data) _ _ _ _) slot
  | close responder | forceKill responder | shutdownPty responder => cases hcommand
  | write data responder | execute command responder =>
    exact answerProcess_completes (PtyProcess.writeData_returns _) slot _ _ _
  | read responder | readAll responder =>
    exact answerProcess_completes (PtyProcess.readData_returns _) slot _ _ _
  | resize cols rows responder =>
    exact answerProcess_completes (PtyProcess.resize_returns _ _) slot _ _ _
  | killProcess signal responder =>
    exact answerProcess_completes (PtyProcess.killProcess_returns _) slot _ _ _
  | waitPid options responder =>
    exact answerProcess_completes (PtyProcess.waitpid_returns _) slot _ _ _
  | closeMasterFd responder =>
    exact answerProcess_completes PtyProcess.closeMasterFd_returns slot _ _ _
  | status responder => exact answerProcess_completes PtyProcess.status_returns slot _ _ _
  | setLogLevel level responder =>
    exact answerProcess_completes (PtyProcess.setLogLevel_returns level) slot _ _ _
  | setEnv key value responder =>
    refine answerProcess_completes (PtyProcess.setEnv_returns fun hkey pid ret hallowed hzero => ?_) slot _ _ _
    exact hallowed.2 ⟨rfl,hzero,key,value,responder,rfl,hkey⟩
  | changeShell shellPath responder =>
    have hpath (hzero : '\x00' ∈ shellPath.toList) (name : String) (ret : Ret)
        (hallowed : (Sys.openSlave name).InParent ret ∧
          ¬(PtyCommand.changeShell shellPath responder).Fatal (.openSlave name) ret) : ret.value < 0 := by
      by_contra hgood
      exact hallowed.2 ⟨not_lt.mp hgood,shellPath,responder,rfl,hzero⟩
    exact answerProcess_completes
      (PtyProcess.changeShell_returns hpath fun ret hallowed => hallowed.1) slot _ _ _

theorem tearDown_returns {allowed : (call : Sys) → call.Res → Prop} (signal options : Int32) :
    (tearDown signal options).Returns allowed :=
  (ProcessM.completes_attempt (PtyProcess.killProcess_returns signal)).bind fun _ =>
    (ProcessM.completes_attempt (PtyProcess.waitpid_returns options)).bind fun _ => PtyProcess.closeMasterFd_returns

theorem answerTaken_completes (slot : Slot) (signal options : Int32) (absent : Except IoError Unit)
    (responder : ℕ) (success : String) (failure : String → String) :
    (answerTaken slot signal options absent responder success failure).Completes (Harmless command) fun _ => True := by
  cases slot with
  | none => exact (answer_completes none responder _ failure absent).mono fun _ _ => trivial
  | some process =>
    refine (onSystem_completes (tearDown_returns signal options) process).bind fun result _ => ?_
    exact (answer_completes none responder _ failure result.1).mono fun _ _ => trivial

/-- Every handler comes back unless an answer is fatal. -/
theorem handle_returns (multiplexer : Option PtyMultiplexer) (slot : Slot) (command : PtyCommand) :
    (handle multiplexer slot command).Completes (Harmless command) fun _ => True := by
  by_cases hcommand : command.takesProcess = true
  · cases command with
    | close responder | forceKill responder | shutdownPty responder => exact answerTaken_completes slot _ _ _ _ _ _
    | _ => simp [PtyCommand.takesProcess] at hcommand
  · exact (handle_completes multiplexer slot command (by simpa using hcommand)).mono fun _ _ => trivial

/-- Such a handler can only return with a process in the slot. -/
theorem handle_leaves {multiplexer : Option PtyMultiplexer} {process : PtyProcess} {command : PtyCommand}
    (hcommand : command.takesProcess = false) {trace : Trace} {slot' : Slot}
    (h : (handle multiplexer (some process) command).Traces trace slot') : slot'.isSome = true := by
  have hprocess {α : Type} {method : ProcessM α} {responder : ℕ} {success : α → PtyResult}
      {failure : String → String}
      (h : (answerProcess (some process) method responder success failure).Traces trace slot') :
      slot'.isSome = true := by
    obtain ⟨first,result,second,-,-,hsecond⟩ := Prog.traces_bind.mp h
    rw [answer_slot hsecond]
    rfl
  cases command with
  | createSession _ | readAllSessions _ | listSessions _ | closeAllSessions _ | removeSession _ _
  | readFromSession _ _ | splitSession _ _ | mergeSessions _ _ | broadcast _ _
  | sendToSession _ _ _ =>
    rw [keeping_slot h]
    rfl
  | close _ | forceKill _ | shutdownPty _ => cases hcommand
  | _ => exact hprocess h

end CommandHandler
end NodeRustPty
