import NodeRustPty.CommandLoop
import NodeRustPty.ProcessRules

/-! The process value of the command handler and the multiplexer's copy of it. The two are
equal when the handle is built; `ChangeShell` changes the one in the slot only.
Descriptors are numbers here, which the system may give out again. -/
namespace NodeRustPty
namespace ShellChange

open CommandHandler ProcessM PtyProcess

abbrev SysEvent := Prog.Event Sys Sys.Res

/-- What a path has made: the descriptor of the last `posix_openpt`, the last terminal whose
slave was opened as well, and the last shell that was forked. -/
structure Made where
  opened : Option ℤ
  terminal : Option ℤ
  shell : Option ℤ
  deriving DecidableEq

def Made.nothing : Made := ⟨none,none,none⟩

def Made.record (made : Made) : SysEvent → Made
  | ⟨.posixOpenpt,ret⟩ => { made with opened := some ret.value }
  | ⟨.openSlave _,ret⟩ => if ret.value < 0 then made else { made with terminal := made.opened }
  | ⟨.fork,ret⟩ => if ret.value = -1 ∨ ret.value = 0 then made else { made with shell := some ret.value }
  | _ => made

def Made.recordCall (made : Made) : Prog.Event Call Call.Res → Made
  | ⟨.sys call,res⟩ => made.record ⟨call,res⟩
  | _ => made

def made (trace : Trace) : Made := trace.foldl Made.recordCall .nothing

/-- Watches that a method of this process writes to its terminal only. -/
def monitor (process : PtyProcess) : Prog.Monitor Sys Sys.Res Made :=
  .recorder (fun op => ∀ fd data, op = .write fd data → fd = process.masterFd) Made.record

/-- Nothing has been made, and the process is as it was. -/
def Kept (process : PtyProcess) (made : Made) (now : PtyProcess) : Prop := made = .nothing ∧ now = process

/-- The process has what was made last, or what it had. -/
def Tracks (process : PtyProcess) (made : Made) (now : PtyProcess) : Prop :=
  now.masterFd = made.terminal.getD process.masterFd ∧ now.pid = made.shell.getD process.pid

theorem Kept.tracks {process now : PtyProcess} {made : Made} (h : Kept process made now) :
    Tracks process made now := by
  obtain ⟨rfl,rfl⟩ := h
  exact ⟨rfl,rfl⟩

section Methods

variable {process : PtyProcess} {pre : Made → PtyProcess → Prop}

/-- A call that makes nothing. -/
theorem triple_plain {call : Sys} (hrecord : ∀ (made : Made) res, made.record ⟨call,res⟩ = made)
    (hwrite : ∀ fd data, call = .write fd data → fd = process.masterFd) :
    Triple (monitor process) pre (sys call) fun _ => pre := by
  refine triple_sys (fun _ _ _ => hwrite) ?_
  rintro made now res _ hp rfl
  rwa [hrecord]

theorem triple_check_any {ret : Ret} {bad : ℤ → Bool} :
    Triple (monitor process) pre (check ret bad) fun _ => pre :=
  triple_check (fun _ _ hp _ => hp) fun _ _ hp _ => hp

/-- A method that starts from the process it is called on. -/
theorem triple_self_kept {β : Type} {f : PtyProcess → ProcessM β}
    {final : Except IoError β → Made → PtyProcess → Prop}
    (h : Triple (monitor process) (Kept process) (f process) final) :
    Triple (monitor process) (Kept process) (self >>= f) final := by
  refine triple_self fun now => ?_
  intro made p ⟨hkept,hnow⟩
  obtain rfl : now = process := hnow.symm.trans hkept.2
  exact h made p hkept

/-- One plain call and a look at its answer. -/
theorem triple_call {α : Type} {call : Sys} {rest : call.Res → ProcessM α}
    (hrecord : ∀ (made : Made) res, made.record ⟨call,res⟩ = made)
    (hwrite : ∀ fd data, call = .write fd data → fd = process.masterFd)
    (hrest : ∀ res, Triple (monitor process) pre (rest res) fun _ => pre) :
    Triple (monitor process) pre (sys call >>= rest) fun _ => pre :=
  (triple_plain hrecord hwrite).bind hrest fun _ _ _ h => h

theorem triple_check_pure {α : Type} {ret : Ret} {bad : ℤ → Bool} {a : α} :
    Triple (monitor process) pre (check ret bad >>= fun _ => (pure a : ProcessM α)) fun _ => pre :=
  triple_check_any.bind (fun _ => triple_pure fun _ _ h => h) fun _ _ _ h => h

theorem triple_writeData (data : Bytes) :
    Triple (monitor process) (Kept process) (writeData data) fun _ => Kept process :=
  triple_self_kept (triple_call (fun _ _ => rfl) (by rintro fd _ ⟨⟩; rfl) fun _ => triple_check_pure)

theorem triple_readData (length : ℕ) :
    Triple (monitor process) (Kept process) (readData length) fun _ => Kept process :=
  triple_self_kept (triple_call (fun _ _ => rfl) (by rintro fd _ ⟨⟩) fun _ => triple_check_pure)

theorem triple_resize (cols rows : UInt16) :
    Triple (monitor process) (Kept process) (resize cols rows) fun _ => Kept process :=
  triple_self_kept (triple_call (fun _ _ => rfl) (by rintro fd _ ⟨⟩) fun _ => triple_check_any)

theorem triple_killProcess (signal : Int32) :
    Triple (monitor process) (Kept process) (killProcess signal) fun _ => Kept process :=
  triple_self_kept (triple_call (fun _ _ => rfl) (by rintro fd _ ⟨⟩) fun _ => triple_check_any)

theorem triple_waitpid (options : Int32) :
    Triple (monitor process) (Kept process) (waitpid options) fun _ => Kept process :=
  triple_self_kept (triple_call (fun _ _ => rfl) (by rintro fd _ ⟨⟩) fun _ => triple_check_pure)

theorem triple_closeFd (fd : ℤ) : Triple (monitor process) pre (closeFd fd) fun _ => pre :=
  triple_plain (fun _ _ => rfl) (by rintro fd _ ⟨⟩)

theorem triple_closeMasterFd :
    Triple (monitor process) (Kept process) closeMasterFd fun _ => Kept process :=
  triple_self_kept ((triple_closeFd _).bind (fun _ => triple_check_any) fun _ _ _ h => h)

theorem triple_isRunning : Triple (monitor process) (Kept process) isRunning fun _ => Kept process := by
  refine triple_self_kept (triple_call (fun _ _ => rfl) (by rintro fd _ ⟨⟩) fun _ => ?_)
  refine triple_ite (fun _ => triple_pure fun _ _ h => h) fun _ => triple_ite (fun _ => ?_) fun _ =>
    triple_pure fun _ _ h => h
  exact triple_ite (fun _ => triple_pure fun _ _ h => h) fun _ => triple_fail fun _ _ h => h

theorem triple_status : Triple (monitor process) (Kept process) status fun _ => Kept process := by
  refine triple_self_kept (triple_call (fun _ _ => rfl) (by rintro fd _ ⟨⟩) fun _ => ?_)
  refine triple_ite (fun _ => triple_pure fun _ _ h => h) fun _ => triple_ite (fun _ => ?_) fun _ =>
    triple_pure fun _ _ h => h
  exact triple_ite (fun _ => triple_pure fun _ _ h => h) fun _ => triple_fail fun _ _ h => h

theorem triple_setEnv (key value : String) :
    Triple (monitor process) (Kept process) (setEnv key value) fun _ => Kept process := by
  refine triple_isRunning.bind (fun running => ?_) fun _ _ _ h => h
  refine triple_ite (fun _ => ?_) fun _ => triple_fail fun _ _ h => h
  have hset : Triple (monitor process) (Kept process) (setVar key value) fun _ => Kept process :=
    triple_ite (fun _ => triple_abort) fun _ => triple_plain (fun _ _ => rfl) (by rintro fd _ ⟨⟩)
  exact hset.bind (fun _ => (triple_writeData _).bind (fun _ => triple_pure fun _ _ h => h)
    fun _ _ _ h => h) fun _ _ _ h => h

theorem triple_setLogLevel (level : String) :
    Triple (monitor process) (Kept process) (setLogLevel level) fun _ => Kept process :=
  triple_plain (fun _ _ => rfl) (by rintro fd _ ⟨⟩)

/-! ### A new terminal and a new shell -/

/-- The master of a terminal that is not finished. -/
def Opening (process : PtyProcess) (masterFd : ℤ) (made : Made) (now : PtyProcess) : Prop :=
  made = ⟨some masterFd,none,none⟩ ∧ now = process

/-- What `open_new_pty` has made. -/
structure OpenedPty (process : PtyProcess) (result : Except IoError (ℤ × ℤ)) (made : Made)
    (now : PtyProcess) : Prop where
  process : now = process
  shell : made.shell = none
  ok : ∀ fds, result = .ok fds → made.terminal = some fds.1
  error : ∀ e, result = .error e → made.terminal = none

theorem openedPty_error (e : IoError) {masterFd : ℤ} {made : Made} {now : PtyProcess}
    (h : Opening process masterFd made now) : OpenedPty process (.error e) made now := by
  obtain ⟨rfl,rfl⟩ := h
  exact ⟨rfl,rfl,by rintro _ ⟨⟩,fun _ _ => rfl⟩

theorem triple_failOpen {masterFd fd : ℤ} {e : IoError} :
    Triple (monitor process) (Opening process masterFd) (failOpen fd e) (OpenedPty process) :=
  (triple_closeFd fd).bind (fun _ => triple_fail fun _ _ h => openedPty_error _ h)
    fun _ _ _ h => openedPty_error _ h

/-- A call that makes something, and what follows it. -/
theorem triple_make {β : Type} {call : Sys} (middle : call.Res → Made → PtyProcess → Prop) {f : call.Res → ProcessM β}
    {final : Except IoError β → Made → PtyProcess → Prop} (hwrite : ∀ fd data, call ≠ .write fd data)
    (hmake : ∀ made now res, pre made now → middle res (made.record ⟨call,res⟩) now)
    (hf : ∀ res, Triple (monitor process) (middle res) (f res) final) :
    Triple (monitor process) pre (sys call >>= f) final := by
  intro made now hp
  refine ⟨fun fd data h => absurd h (hwrite fd data),?_⟩
  rintro res _ rfl
  exact hf res _ now (hmake made now res hp)

theorem triple_openNewPty :
    Triple (monitor process) (Kept process) openNewPty (OpenedPty process) := by
  unfold openNewPty
  refine triple_make (fun (opened : Ret) => Opening process opened.value) (by rintro _ _ ⟨⟩)
    (by rintro _ _ ret ⟨rfl,rfl⟩; exact ⟨rfl,rfl⟩) fun (opened : Ret) => ?_
  have hplain {β : Type} {call : Sys} {f : call.Res → ProcessM β} {final : Except IoError β → Made → PtyProcess → Prop}
      (hrecord : ∀ (made : Made) res, made.record ⟨call,res⟩ = made) (hwrite : ∀ fd data, call ≠ .write fd data)
      (hf : ∀ res, Triple (monitor process) (Opening process opened.value) (f res) final) :
      Triple (monitor process) (Opening process opened.value) (sys call >>= f) final :=
    triple_make _ hwrite (fun made now res h => by rwa [hrecord]) hf
  refine triple_check_any.bind (fun _ => ?_) fun _ _ _ h => openedPty_error _ h
  refine hplain (fun _ _ => rfl) (by rintro _ _ ⟨⟩) fun granted => triple_ite (fun _ => triple_failOpen) fun _ => ?_
  refine hplain (fun _ _ => rfl) (by rintro _ _ ⟨⟩) fun unlocked => triple_ite (fun _ => triple_failOpen) fun _ => ?_
  refine hplain (fun _ _ => rfl) (by rintro _ _ ⟨⟩) fun named => triple_ite (fun _ => triple_failOpen) fun _ => ?_
  obtain ⟨ret,slaveName⟩ := named
  cases slaveName with
  | none => exact triple_fail fun _ _ h => openedPty_error _ h
  | some slaveName =>
    -- the terminal is finished when its slave is open
    refine triple_make (fun (slave : Ret) made now => if slave.value < 0 then Opening process opened.value made now
      else OpenedPty process (.ok (opened.value,slave.value)) made now) (by rintro _ _ ⟨⟩) ?_ fun (slave : Ret) => ?_
    · rintro _ _ (slave : Ret) ⟨rfl,rfl⟩
      by_cases hslave : slave.value < 0
      · simp only [hslave,if_true,Made.record]
        exact ⟨rfl,rfl⟩
      · simp only [hslave,if_false,Made.record]
        exact ⟨rfl,rfl,by rintro _ ⟨⟩; rfl,by rintro _ ⟨⟩⟩
    · refine triple_ite (fun hslave => ?_) fun hslave => ?_
      · exact triple_failOpen.mono (fun _ _ h => by simpa [hslave] using h) fun _ _ _ h => h
      · exact triple_pure fun _ _ h => by simpa [hslave] using h

/-- The process after a change of the shell, whether or not it was completed. -/
def Changed (process : PtyProcess) (result : Except IoError Unit) (made : Made) (now : PtyProcess) : Prop :=
  Tracks process made now ∧ (result = .ok () → made.terminal.isSome = true ∧ made.shell.isSome = true)

theorem Kept.changed {e : IoError} {made : Made} {now : PtyProcess} (h : Kept process made now) :
    Changed process (.error e) made now := ⟨h.tracks,by rintro ⟨⟩⟩

/-- The new terminal is the process's, the new shell not yet. -/
def Moved (process : PtyProcess) (masterFd : ℤ) (made : Made) (now : PtyProcess) : Prop :=
  made.terminal = some masterFd ∧ made.shell = none ∧ now = { process with masterFd := masterFd }

/-- The new shell runs, and the process is about to have its pid. -/
def Spawned (process : PtyProcess) (masterFd pid : ℤ) (made : Made) (now : PtyProcess) : Prop :=
  made.terminal = some masterFd ∧ made.shell = some pid ∧ now = { process with masterFd := masterFd }

theorem Moved.changed {masterFd : ℤ} {e : IoError} {made : Made} {now : PtyProcess}
    (h : Moved process masterFd made now) : Changed process (.error e) made now := by
  obtain ⟨hterminal,hshell,rfl⟩ := h
  exact ⟨⟨by simp [hterminal],by simp [hshell]⟩,by rintro ⟨⟩⟩

theorem triple_spawnNewShell (shellPath : String) :
    Triple (monitor process) (Kept process) (spawnNewShell shellPath) (Changed process) := by
  refine triple_closeMasterFd.bind (fun _ => ?_) fun _ _ _ h => h.changed
  refine triple_openNewPty.bind (fun fds => ?_) ?_
  · obtain ⟨newMasterFd,newSlaveFd⟩ := fds
    have hmove : Triple (monitor process) (OpenedPty process (.ok (newMasterFd,newSlaveFd)))
        (modify fun process => { process with masterFd := newMasterFd })
        fun _ => Moved process newMasterFd :=
      triple_modify fun made now h => ⟨h.ok _ rfl,h.shell,by rw [h.process]⟩
    refine hmove.bind (fun _ => ?_) fun _ _ _ h => h.changed
    refine triple_ite (fun _ => triple_abort) fun _ => ?_
    refine triple_make (fun (forked : Ret) made now => if forked.value = -1 ∨ forked.value = 0
      then Moved process newMasterFd made now else Spawned process newMasterFd forked.value made now) (by rintro _ _ ⟨⟩) ?_ fun (forked : Ret) => ?_
    · rintro made now (forked : Ret) ⟨hterminal,hshell,rfl⟩
      by_cases hforked : forked.value = -1 ∨ forked.value = 0
      · simp only [hforked,if_true,Made.record]
        exact ⟨hterminal,hshell,rfl⟩
      · simp only [hforked,if_false,Made.record]
        exact ⟨hterminal,rfl,rfl⟩
    · refine triple_ite (fun hfailed => ?_) fun hfailed => triple_ite (fun _ => triple_abort) fun hchild => ?_
      · have hcleanup : Triple (monitor process) (Moved process newMasterFd) (cleanupFd newMasterFd newSlaveFd)
            fun _ => Moved process newMasterFd :=
          (triple_closeFd _).bind (fun _ => triple_closeFd _) fun _ _ _ h => h
        refine (hcleanup.bind (fun last => ?_) fun _ _ _ h => h.changed).mono
          (fun _ _ h => by simpa [hfailed] using h) fun _ _ _ h => h
        exact triple_fail fun _ _ h => h.changed
      · have hpid : Triple (monitor process) (Spawned process newMasterFd forked.value)
            (closeFd newSlaveFd >>= fun _ => modify fun process => { process with pid := forked.value, command := shellPath })
            (Changed process) := by
          refine triple_make (fun _ => Spawned process newMasterFd forked.value) (by rintro _ _ ⟨⟩)
            (fun _ _ _ h => h) fun _ => triple_modify ?_
          rintro made now ⟨hterminal,hshell,rfl⟩
          exact ⟨⟨by simp [hterminal],by simp [hshell]⟩,fun _ => by simp [hterminal,hshell]⟩
        exact hpid.mono (fun _ _ h => by simpa [hfailed,hchild] using h) fun _ _ _ h => h
  · rintro e made now ⟨rfl,hshell,-,hterminal⟩
    exact ⟨⟨by simp [hterminal e rfl],by simp [hshell]⟩,by rintro ⟨⟩⟩

theorem triple_changeShell (shellPath : String) :
    Triple (monitor process) (Kept process) (changeShell shellPath) (Changed process) := by
  refine (triple_killProcess sigterm).bind (fun _ => ?_) fun _ _ _ h => h.changed
  refine (triple_waitpid 0).attempt.bind (fun _ => triple_spawnNewShell shellPath) fun _ _ _ h => h.changed

end Methods

/-! ### The handlers -/

section Handlers

variable {process : PtyProcess} {multiplexer : PtyMultiplexer} {trace : Trace} {slot : Slot}

/-- A path only writes to the terminals of the process in the slot and of the multiplexer. -/
def WritesTo (process : PtyProcess) (multiplexer : PtyMultiplexer) (trace : Trace) : Prop :=
  ∀ event ∈ trace, ∀ fd data, event.1 = .sys (.write fd data) →
    fd = process.masterFd ∨ fd = multiplexer.ptyProcess.masterFd

/-- The same for the handlers. -/
def handlerMonitor (process : PtyProcess) (multiplexer : PtyMultiplexer) : Prog.Monitor Call Call.Res Made :=
  .recorder (fun op => ∀ fd data, op = .sys (.write fd data) →
    fd = process.masterFd ∨ fd = multiplexer.ptyProcess.masterFd) Made.recordCall

theorem respects_onSystem {α : Type} {method : ProcessM α} {own : PtyProcess}
    (hown : own.masterFd = process.masterFd ∨ own.masterFd = multiplexer.ptyProcess.masterFd)
    {post : Except IoError α → Made → PtyProcess → Prop} (h : Triple (monitor own) (Kept own) method post) :
    (onSystem (method own)).Respects (handlerMonitor process multiplexer)
      (fun made result => post result.1 made result.2) .nothing := by
  refine (h .nothing own ⟨rfl,rfl⟩).hoist ?_ fun _ _ _ _ hanswers => hanswers
  rintro _ op hallows fd data hop
  obtain rfl := hallows fd data (Call.sys.inj hop)
  exact hown

/-- What the handler of a command does to the process in the slot. -/
structure StepSpec (process : PtyProcess) (multiplexer : PtyMultiplexer) (trace : Trace) (slot : Slot) : Prop where
  writes : WritesTo process multiplexer trace
  slot : ∃ now, slot = some now ∧ Tracks process (made trace) now

theorem made_send (trace : Trace) (responder : ℕ) (result : PtyResult) :
    made (trace ++ [⟨.send responder result,()⟩]) = made trace := by
  simp [made,Made.recordCall]

/-- A handler of the process: its method's postcondition, and what a success means. -/
theorem answerProcess_spec {α : Type} {method : ProcessM α} {post : Except IoError α → Made → PtyProcess → Prop}
    {responder : ℕ} {success : α → PtyResult} {failure : String → String}
    (hmethod : Triple (monitor process) (Kept process) method post)
    (htracks : ∀ result made now, post result made now → Tracks process made now)
    (h : (answerProcess (some process) method responder success failure).Traces trace slot) :
    StepSpec process multiplexer trace slot ∧
      ∀ message, (responder,.success message) ∈ replies trace → ∃ a now, post (.ok a) (made trace) now := by
  obtain ⟨first,⟨result,now⟩,second,rfl,hfirst,hsecond⟩ := Prog.traces_bind.mp h
  have hrespects : (onSystem (method process)).Respects (handlerMonitor process multiplexer)
      (fun made result => post result.1 made result.2) .nothing := respects_onSystem (.inl rfl) hmethod
  obtain ⟨hwrites,hpost⟩ := hrespects.recorded hfirst
  have hsilent : Quiet responder (onSystem (method process)) := quiet_onSystem _
  have hquiet : replies first = [] := by
    have hlength := (replies_of_respects (hsilent 0) hfirst).1
    exact List.length_eq_zero_iff.mp (by omega)
  have hspec {answer : PtyResult} (hsend : second = [⟨.send responder answer,()⟩] ∧ slot = some now) :
      StepSpec process multiplexer (first ++ second) slot ∧ made (first ++ second) = made first ∧
        replies (first ++ second) = [(responder,answer)] := by
    obtain ⟨rfl,rfl⟩ := hsend
    refine ⟨⟨?_,now,rfl,?_⟩,made_send _ _ _,?_⟩
    · intro event hevent
      rcases List.mem_append.mp hevent with hevent | hevent
      · exact hwrites event hevent
      · obtain rfl := List.mem_singleton.mp hevent
        rintro fd data ⟨⟩
    · rw [made_send]
      exact htracks _ _ _ hpost
    · rw [replies_append,hquiet]
      rfl
  cases result with
  | ok a =>
    obtain ⟨hstep,hmade,-⟩ := hspec (traces_send hsecond)
    exact ⟨hstep,fun _ _ => ⟨a,now,by rw [hmade]; exact hpost⟩⟩
  | error e =>
    obtain ⟨hstep,-,hreplies⟩ := hspec (traces_send hsecond)
    refine ⟨hstep,fun message hmessage => ?_⟩
    rw [hreplies] at hmessage
    simp at hmessage

/-- A program that makes nothing and writes to the multiplexer's terminal only. -/
def Aside {α : Type} (process : PtyProcess) (multiplexer : PtyMultiplexer) (p : HandlerProg α) : Prop :=
  p.Respects (handlerMonitor process multiplexer) (fun made _ => made = .nothing) .nothing

theorem Aside.bind {α β : Type} {p : HandlerProg α} {f : α → HandlerProg β} (hp : Aside process multiplexer p)
    (hf : ∀ a, Aside process multiplexer (f a)) : Aside process multiplexer (p >>= f) := by
  refine Prog.Respects.bind hp ?_
  rintro _ a rfl
  exact hf a

theorem aside_pure {α : Type} (a : α) : Aside process multiplexer (pure a : HandlerProg α) := rfl

theorem aside_send (responder : ℕ) (result : PtyResult) : Aside process multiplexer (send responder result) :=
  ⟨by rintro _ _ ⟨⟩,by rintro _ _ rfl; rfl⟩

theorem aside_table (call : TableCall) : Aside process multiplexer (table call) :=
  ⟨by rintro _ _ ⟨⟩,by rintro _ _ rfl; rfl⟩

theorem aside_writeProcess (data : Bytes) : Aside process multiplexer (writeProcess multiplexer data) := by
  refine Aside.bind ?_ fun _ => aside_pure _
  exact (respects_onSystem (.inr rfl) (triple_writeData data)).mono fun _ _ h => h.1

theorem aside_sendToSession (sessionId : UInt32) (data : Bytes) :
    Aside process multiplexer (sendToSession sessionId data multiplexer) := by
  refine (aside_table _).bind fun result => ?_
  cases result with
  | ok a => exact aside_writeProcess data
  | error reason => exact aside_pure _

theorem aside_broadcast (data : Bytes) : Aside process multiplexer (broadcast data multiplexer) := by
  refine (aside_table _).bind fun result => ?_
  cases result with
  | ok a => exact aside_writeProcess data
  | error reason => exact aside_pure _

theorem aside_answerMultiplexer {α : Type} {method : PtyMultiplexer → HandlerProg (Except String α)}
    {responder : ℕ} {success : α → String} {failure : String → String} {uninitialized : String}
    (h : Aside process multiplexer (method multiplexer)) :
    Aside process multiplexer
      (answerMultiplexer (some multiplexer) method responder success failure uninitialized) := by
  refine h.bind fun result => ?_
  cases result with
  | ok a => exact aside_send _ _
  | error reason => exact aside_send _ _

theorem keeping_spec {handler : HandlerProg Unit} (haside : Aside process multiplexer handler)
    (h : (keeping (some process) handler).Traces trace slot) : StepSpec process multiplexer trace slot := by
  obtain ⟨hwrites,hmade⟩ := (haside.bind fun _ => aside_pure (some process)).recorded h
  exact ⟨hwrites,process,keeping_slot h,Kept.tracks ⟨hmade,rfl⟩⟩

/-- A handler that does not take the process leaves one that has what was made last. -/
theorem handle_spec {command : PtyCommand} (hcommand : command.takesProcess = false)
    (h : (handle (some multiplexer) (some process) command).Traces trace slot) :
    StepSpec process multiplexer trace slot := by
  have hkept {α : Type} {method : ProcessM α} {responder : ℕ} {success : α → PtyResult} {failure : String → String}
      (hmethod : Triple (monitor process) (Kept process) method fun _ => Kept process)
      (h : (answerProcess (some process) method responder success failure).Traces trace slot) :
      StepSpec process multiplexer trace slot := (answerProcess_spec hmethod (fun _ _ _ h => h.tracks) h).1
  cases command with
  | createSession responder | readAllSessions responder | listSessions responder
  | closeAllSessions responder | removeSession sessionId responder | readFromSession sessionId responder
  | splitSession sessionId responder | mergeSessions sessionIds responder =>
    exact keeping_spec (aside_answerMultiplexer (aside_table _)) h
  | broadcast data responder => exact keeping_spec (aside_answerMultiplexer (aside_broadcast data)) h
  | sendToSession sessionId data responder =>
    exact keeping_spec (aside_answerMultiplexer (aside_sendToSession sessionId data)) h
  | write data responder => exact hkept (triple_writeData _) h
  | execute command responder => exact hkept (triple_writeData _) h
  | read responder => exact hkept (triple_readData _) h
  | readAll responder => exact hkept (triple_readData _) h
  | resize cols rows responder => exact hkept (triple_resize _ _) h
  | killProcess signal responder => exact hkept (triple_killProcess _) h
  | waitPid options responder => exact hkept (triple_waitpid _) h
  | closeMasterFd responder => exact hkept triple_closeMasterFd h
  | setEnv key value responder => exact hkept (triple_setEnv _ _) h
  | status responder => exact hkept triple_status h
  | setLogLevel level responder => exact hkept (triple_setLogLevel _) h
  | changeShell shellPath responder => exact (answerProcess_spec (triple_changeShell _) (fun _ _ _ h => h.1) h).1
  | close responder | forceKill responder | shutdownPty responder => simp [PtyCommand.takesProcess] at hcommand

/-- A successful `ChangeShell` has opened a terminal and started a shell. -/
theorem handle_changeShell {shellPath message : String} {responder : ℕ}
    (h : (handle (some multiplexer) (some process) (.changeShell shellPath responder)).Traces trace slot)
    (hsuccess : (responder,.success message) ∈ replies trace) :
    (made trace).terminal.isSome = true ∧ (made trace).shell.isSome = true := by
  have hspec : StepSpec process multiplexer trace slot ∧ ∀ message, (responder,.success message) ∈ replies trace →
      ∃ a now, _ := answerProcess_spec (triple_changeShell shellPath) (fun _ _ _ h => h.1) h
  obtain ⟨a,now,hpost⟩ := hspec.2 message hsuccess
  exact hpost.2 rfl

end Handlers

/-! ### Runs -/

variable {multiplexer : PtyMultiplexer} {process : PtyProcess} {slot : Slot} {steps : List Step}

/-- The process in the slot and the multiplexer's value have one descriptor and one pid.
`Write` and `Execute` write to the one, `SendToSession`, `Broadcast` and the background
reads use the other. -/
def Agrees (multiplexer : PtyMultiplexer) (slot : Slot) : Prop :=
  ∃ process, slot = some process ∧ process.masterFd = multiplexer.ptyProcess.masterFd ∧
    process.pid = multiplexer.ptyProcess.pid

/-- The system gave the path's terminal the multiplexer's descriptor, and its shell the
multiplexer's pid. -/
def MadeAlike (multiplexer : PtyMultiplexer) (trace : Trace) : Prop :=
  (∀ fd, (made trace).terminal = some fd → fd = multiplexer.ptyProcess.masterFd) ∧
    ∀ pid, (made trace).shell = some pid → pid = multiplexer.ptyProcess.pid

theorem getD_eq_iff {value : Option ℤ} {old expected : ℤ} (h : value.isSome = true ∨ old = expected) :
    value.getD old = expected ↔ ∀ new, value = some new → new = expected := by
  cases value with
  | none => simpa using h
  | some new => simp

/-- Agreement after a step that has made everything anew, or from agreement before. -/
theorem StepSpec.agrees_iff {trace : Trace} (h : StepSpec process multiplexer trace slot)
    (hterminal : (made trace).terminal.isSome = true ∨ process.masterFd = multiplexer.ptyProcess.masterFd)
    (hshell : (made trace).shell.isSome = true ∨ process.pid = multiplexer.ptyProcess.pid) :
    Agrees multiplexer slot ↔ MadeAlike multiplexer trace := by
  obtain ⟨-,now,rfl,hmaster,hpid⟩ := h
  rw [MadeAlike,← getD_eq_iff hterminal,← getD_eq_iff hshell,← hmaster,← hpid]
  constructor
  · rintro ⟨_,⟨⟩,hfd,hpid⟩
    exact ⟨hfd,hpid⟩
  · rintro ⟨hfd,hpid⟩
    exact ⟨now,rfl,hfd,hpid⟩

theorem slotAfter_append (slot : Slot) (steps more : List Step) :
    slotAfter slot (steps ++ more) = slotAfter (slotAfter slot steps) more := List.foldl_append

theorem runsFrom_append {multiplexer : Option PtyMultiplexer} {more : List Step} :
    RunsFrom multiplexer slot (steps ++ more) →
      RunsFrom multiplexer (slotAfter slot steps) more := by
  induction steps generalizing slot with
  | nil => exact id
  | cons step steps ih => exact fun h => ih h.2

/-- From agreement on, the two values agree after every step of a run exactly when
everything that is made has the old numbers. -/
theorem run_agrees_iff (hruns : RunsFrom (some multiplexer) slot steps)
    (hopen : ∀ step ∈ steps, step.command.takesProcess = false) (hagrees : Agrees multiplexer slot) :
    (∀ mid rest, steps = mid ++ rest → Agrees multiplexer (slotAfter slot mid)) ↔
      ∀ step ∈ steps, MadeAlike multiplexer step.trace := by
  induction steps generalizing slot with
  | nil =>
    refine ⟨fun _ => by simp,fun _ mid rest hsplit => ?_⟩
    obtain ⟨rfl,-⟩ := List.append_eq_nil_iff.mp hsplit.symm
    exact hagrees
  | cons step steps ih =>
    obtain ⟨process,rfl,hmaster,hpid⟩ := hagrees
    have hspec := handle_spec (hopen step List.mem_cons_self) hruns.1
    have hstep := hspec.agrees_iff (.inr hmaster) (.inr hpid)
    have hlater := fun hagrees => ih hruns.2 (fun later hl => hopen later (List.mem_cons_of_mem _ hl)) hagrees
    rw [List.forall_mem_cons]
    constructor
    · intro h
      have hnext := h [step] steps rfl
      exact ⟨hstep.mp hnext,(hlater hnext).mp fun mid rest hsplit => h (step::mid) rest (by rw [hsplit]; rfl)⟩
    · rintro ⟨hmade,hrest⟩ mid rest hsplit
      have hnext := hstep.mpr hmade
      cases mid with
      | nil => exact ⟨process,rfl,hmaster,hpid⟩
      | cons first mid =>
        obtain ⟨rfl,htail⟩ := List.cons.inj hsplit
        exact (hlater hnext).mpr hrest mid rest htail

/-- As long as the values agree, all writes are to the one terminal. -/
theorem run_writes (hruns : RunsFrom (some multiplexer) slot steps)
    (hopen : ∀ step ∈ steps, step.command.takesProcess = false)
    (hagrees : ∀ mid rest, steps = mid ++ rest → Agrees multiplexer (slotAfter slot mid)) :
    ∀ step ∈ steps, ∀ event ∈ step.trace, ∀ fd data, event.1 = .sys (.write fd data) →
      fd = multiplexer.ptyProcess.masterFd := by
  induction steps generalizing slot with
  | nil => simp
  | cons step steps ih =>
    obtain ⟨process,rfl,hmaster,-⟩ := hagrees [] (step::steps) rfl
    have hspec := handle_spec (hopen step List.mem_cons_self) hruns.1
    refine List.forall_mem_cons.mpr ⟨fun event hevent fd data hwrite => ?_,?_⟩
    · rcases hspec.writes event hevent fd data hwrite with hown | hother
      · exact hown.trans hmaster
      · exact hother
    · exact ih hruns.2 (fun later hl => hopen later (List.mem_cons_of_mem _ hl))
        fun mid rest hsplit => hagrees (step::mid) rest (by rw [hsplit]; rfl)

/-- After a successful `ChangeShell` and as long as no command takes the process, the two
values agree and all writes are to one terminal exactly when the system gives every new
terminal the old descriptor and every new shell the old pid. -/
theorem changed_shell_agrees_iff {before after : List Step} {change : Step} {shellPath message : String}
    {responder : ℕ} (hruns : RunsFrom (some multiplexer) (some multiplexer.ptyProcess) (before ++ change::after))
    (hchange : change.command = .changeShell shellPath responder)
    (hsuccess : (responder,.success message) ∈ replies change.trace)
    (hopen : ∀ step ∈ after, step.command.takesProcess = false) :
    ((∀ mid rest, after = mid ++ rest →
        Agrees multiplexer (slotAfter (some multiplexer.ptyProcess) (before ++ change::mid))) ∧
      ∀ step ∈ after, ∀ event ∈ step.trace, ∀ fd data, event.1 = .sys (.write fd data) →
        fd = multiplexer.ptyProcess.masterFd) ↔
    ∀ step ∈ change::after, MadeAlike multiplexer step.trace := by
  obtain ⟨hhandle,hafter⟩ := runsFrom_append hruns
  rw [hchange] at hhandle
  have hslot (mid : List Step) : slotAfter (some multiplexer.ptyProcess) (before ++ change::mid) =
      slotAfter change.slot mid := slotAfter_append _ _ _
  simp only [hslot,List.forall_mem_cons]
  cases hstart : slotAfter (some multiplexer.ptyProcess) before with
  | none =>
    rw [hstart] at hhandle
    obtain ⟨⟨failure,htrace⟩,-⟩ := handle_none_of_needsProcess rfl hhandle
    rw [htrace] at hsuccess
    simp [replies] at hsuccess
  | some process =>
    rw [hstart] at hhandle
    obtain ⟨hterminal,hshell⟩ := handle_changeShell hhandle hsuccess
    have hstep := (handle_spec rfl hhandle).agrees_iff (.inl hterminal) (.inl hshell)
    constructor
    · rintro ⟨hagrees,-⟩
      have hnext := hagrees [] after rfl
      exact ⟨hstep.mp hnext,(run_agrees_iff hafter hopen hnext).mp hagrees⟩
    · rintro ⟨hmade,hrest⟩
      have hagrees := (run_agrees_iff hafter hopen (hstep.mpr hmade)).mpr hrest
      exact ⟨hagrees,run_writes hafter hopen hagrees⟩

/-- The path of a `ChangeShell` to `zsh` where the freed descriptor is given out again. -/
def changeTrace (pid : ℤ) : Trace :=
  let ret (value : ℤ) : Ret := ⟨value,⟨none,""⟩⟩
  [⟨.sys (.kill 42 sigterm),ret 0⟩,⟨.sys (.waitpid 42 0),ret 42⟩,⟨.sys (.close 5),ret 0⟩,
    ⟨.sys .posixOpenpt,ret 5⟩,⟨.sys (.grantpt 5),ret 0⟩,⟨.sys (.unlockpt 5),ret 0⟩,
    ⟨.sys (.ptsname 5),(ret 1,some "/dev/pts/1")⟩,⟨.sys (.openSlave "/dev/pts/1"),ret 6⟩,
    ⟨.sys .fork,ret pid⟩,⟨.sys (.close 6),ret 0⟩,⟨.send 0 (.success "Shell changed successfully"),()⟩]

def changeStep (pid : ℤ) : Step := ⟨.changeShell "zsh" 0,changeTrace pid,some ⟨5,pid,"zsh"⟩⟩

/-- Input for the process, and input for a session. -/
def writeStep : Step := ⟨.write [108,115] 1,
  [⟨.sys (.write 5 [108,115]),⟨2,⟨none,""⟩⟩⟩,⟨.send 1 (.success "Wrote 2 bytes"),()⟩],some ⟨5,42,"zsh"⟩⟩

def sendStep : Step := ⟨.sendToSession 1 [108,115] 2,
  [⟨.table (.sendToSession 1 [108,115]),.ok ()⟩,⟨.sys (.write 5 [108,115]),⟨2,⟨none,""⟩⟩⟩,
    ⟨.send 2 (.success "Data sent to session 1"),()⟩],some ⟨5,42,"zsh"⟩⟩

/-- Even the pid is given out again, and both inputs go to the new terminal. -/
theorem changed_shell_agrees_same_pid :
    RunsFrom (some ⟨⟨5,42,"sh"⟩⟩) (some ⟨5,42,"sh"⟩) [changeStep 42,writeStep,sendStep] ∧
    Agrees ⟨⟨5,42,"sh"⟩⟩ (slotAfter (some ⟨5,42,"sh"⟩) [changeStep 42,writeStep,sendStep]) ∧
    ∀ step ∈ [writeStep,sendStep], ∀ event ∈ step.trace, ∀ fd data, event.1 = .sys (.write fd data) → fd = 5 := by
  have hwritten : (handle (some ⟨⟨5,42,"sh"⟩⟩) (some ⟨5,42,"zsh"⟩) writeStep.command).Traces writeStep.trace
      writeStep.slot := .call _ (.call _ (.pure _))
  have hsent : (handle (some ⟨⟨5,42,"sh"⟩⟩) (some ⟨5,42,"zsh"⟩) sendStep.command).Traces sendStep.trace
      sendStep.slot := .call _ (.call _ (.call _ (.pure _)))
  have hruns : RunsFrom (some ⟨⟨5,42,"sh"⟩⟩) (some ⟨5,42,"sh"⟩) ([] ++ changeStep 42::[writeStep,sendStep]) :=
    ⟨.call _ (.call _ (.call _ (.call _ (.call _ (.call _ (.call _ (.call _ (.call _ (.call _
      (.call _ (.pure _))))))))))),hwritten,hsent,trivial⟩
  have hsuccess : (0,.success "Shell changed successfully") ∈ replies (changeStep 42).trace := by decide
  have hmade : ∀ step ∈ [changeStep 42,writeStep,sendStep], MadeAlike ⟨⟨5,42,"sh"⟩⟩ step.trace := by
    intro step hstep
    simp only [List.mem_cons,List.not_mem_nil,or_false] at hstep
    rcases hstep with rfl | rfl | rfl
    · exact ⟨fun fd h => (Option.some.inj h).symm,fun pid h => (Option.some.inj h).symm⟩
    · have hnothing : (made writeStep.trace) = .nothing := rfl
      simp [MadeAlike,hnothing,Made.nothing]
    · have hnothing : (made sendStep.trace) = .nothing := rfl
      simp [MadeAlike,hnothing,Made.nothing]
  have hopen : ∀ step ∈ [writeStep,sendStep], step.command.takesProcess = false := by decide
  obtain ⟨hagrees,hwrites⟩ := (changed_shell_agrees_iff hruns rfl hsuccess hopen).mpr hmade
  exact ⟨hruns,hagrees [writeStep,sendStep] [] rfl,hwrites⟩

/-- The new shell has a pid of its own, which the multiplexer does not know. -/
theorem changed_shell_disagrees : ¬ ∀ (multiplexer : PtyMultiplexer) (before after : List Step) (change : Step)
    (shellPath message : String) (responder : ℕ),
    RunsFrom (some multiplexer) (some multiplexer.ptyProcess) (before ++ change::after) →
    change.command = .changeShell shellPath responder →
    (responder,.success message) ∈ replies change.trace →
    (∀ step ∈ after, step.command.takesProcess = false) →
    ∀ mid rest, after = mid ++ rest →
      Agrees multiplexer (slotAfter (some multiplexer.ptyProcess) (before ++ change::mid)) := by
  intro h
  have hruns : RunsFrom (some ⟨⟨5,42,"sh"⟩⟩) (some ⟨5,42,"sh"⟩) ([] ++ changeStep 43::[]) :=
    ⟨.call _ (.call _ (.call _ (.call _ (.call _ (.call _ (.call _ (.call _ (.call _ (.call _
      (.call _ (.pure _))))))))))),trivial⟩
  have hsuccess : (0,.success "Shell changed successfully") ∈ replies (changeStep 43).trace := by decide
  obtain ⟨process,hslot,-,hpid⟩ := h ⟨⟨5,42,"sh"⟩⟩ [] [] (changeStep 43) "zsh" _ 0 hruns rfl hsuccess (by simp) [] [] rfl
  obtain rfl : _ = process := Option.some.inj hslot
  exact absurd hpid (by decide)

end ShellChange
end NodeRustPty
