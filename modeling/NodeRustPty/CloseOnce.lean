import NodeRustPty.TearDown

/-! `PtyProcess::shutdown_pty` beside the handlers that tear a process down, and how often
each of them closes the descriptor. -/
namespace NodeRustPty

namespace PtyProcess

open ProcessM

def forceKill : ProcessM Unit := killProcess sigkill

/-- The method of both platforms. -/
def shutdownPty : ProcessM Unit := do
  killProcess sigterm
  match ← attempt (waitpid 0) with
  | .ok _ => closeMasterFd
  | .error e => do
    forceKill
    closeMasterFd
    fail e

/-- What comes after a method of one call. -/
theorem bind_checked {α β : Type} {m : ProcessM α} {f : α → ProcessM β} {process : PtyProcess} {call : Sys}
    {bad : call.Res → Prop} [DecidablePred bad] {error : call.Res → IoError} {value : call.Res → α}
    (h : m process = .call call fun ret => .pure (if bad ret then .error (error ret) else .ok (value ret),process)) :
    (m >>= f) process = .call call fun ret =>
      if bad ret then .pure (.error (error ret),process) else f (value ret) process := by
  change (m process >>= _) = _
  rw [h,Prog.call_bind]
  refine congrArg _ (funext fun ret => ?_)
  by_cases hbad : bad ret
  · simp only [if_pos hbad]
    rfl
  · simp only [if_neg hbad]
    rfl

theorem closeMasterFd_fail (process : PtyProcess) (e : IoError) : (do closeMasterFd; fail e : ProcessM Unit) process =
    .call (.close process.masterFd) fun (closed : Ret) =>
      .pure (.error (if closed.value ≠ 0 then closed.error else e),process) := by
  refine (bind_checked (closeMasterFd_eq process)).trans ?_
  refine congrArg _ (funext fun (closed : Ret) => ?_)
  split <;> rfl

/-- Two failures end it before the close. -/
theorem shutdownPty_eq (process : PtyProcess) :
    shutdownPty process = .call (.kill process.pid sigterm) fun (killed : Ret) =>
      if killed.value ≠ 0 then .pure (.error killed.error,process)
      else .call (.waitpid process.pid 0) fun (waited : Ret) =>
        if waited.value = -1 then .call (.kill process.pid sigkill) fun (forced : Ret) =>
          if forced.value ≠ 0 then .pure (.error forced.error,process)
          else .call (.close process.masterFd) fun (closed : Ret) =>
            .pure (.error (if closed.value ≠ 0 then closed.error else waited.error),process)
        else .call (.close process.masterFd) fun (closed : Ret) =>
          .pure (if closed.value ≠ 0 then .error closed.error else .ok (),process) := by
  have hwait : attempt (waitpid 0) process = .call (.waitpid process.pid 0) fun (ret : Ret) =>
      .pure (.ok (if ret.value = -1 then .error ret.error else .ok ret.value),process) := by
    unfold attempt
    rw [waitpid_eq]
    rfl
  have hforce (e : IoError) : (do forceKill; closeMasterFd; fail e : ProcessM Unit) process =
      .call (.kill process.pid sigkill) fun (forced : Ret) =>
        if forced.value ≠ 0 then .pure (.error forced.error,process)
        else (do closeMasterFd; fail e : ProcessM Unit) process :=
    bind_checked (killProcess_eq process sigkill)
  refine (bind_checked (killProcess_eq process sigterm)).trans ?_
  refine congrArg _ (funext fun (killed : Ret) => ?_)
  refine if_congr Iff.rfl rfl ?_
  change (attempt (waitpid 0) process >>= _) = _
  rw [hwait]
  refine congrArg _ (funext fun (waited : Ret) => ?_)
  by_cases hwaited : waited.value = -1
  · simp only [if_pos hwaited]
    refine (hforce waited.error).trans ?_
    refine congrArg _ (funext fun (forced : Ret) => ?_)
    exact if_congr Iff.rfl rfl (closeMasterFd_fail process waited.error)
  · simp only [if_neg hwaited]
    exact closeMasterFd_eq process

end PtyProcess

namespace CommandHandler

/-- The paths of `shutdown_pty`. -/
inductive ShutdownTrace (process : PtyProcess) : Trace → Prop
  | notSignalled {killed : Ret} (hkilled : killed.value ≠ 0) :
      ShutdownTrace process [⟨.sys (.kill process.pid sigterm),killed⟩]
  | waited {killed waited closed : Ret} (hkilled : killed.value = 0) (hwaited : waited.value ≠ -1) :
      ShutdownTrace process [⟨.sys (.kill process.pid sigterm),killed⟩,⟨.sys (.waitpid process.pid 0),waited⟩,
        ⟨.sys (.close process.masterFd),closed⟩]
  | notForced {killed waited forced : Ret} (hkilled : killed.value = 0) (hwaited : waited.value = -1)
      (hforced : forced.value ≠ 0) :
      ShutdownTrace process [⟨.sys (.kill process.pid sigterm),killed⟩,⟨.sys (.waitpid process.pid 0),waited⟩,
        ⟨.sys (.kill process.pid sigkill),forced⟩]
  | forced {killed waited forced closed : Ret} (hkilled : killed.value = 0) (hwaited : waited.value = -1)
      (hforced : forced.value = 0) :
      ShutdownTrace process [⟨.sys (.kill process.pid sigterm),killed⟩,⟨.sys (.waitpid process.pid 0),waited⟩,
        ⟨.sys (.kill process.pid sigkill),forced⟩,⟨.sys (.close process.masterFd),closed⟩]

theorem shutdownPty_traces {process : PtyProcess} {trace : Trace} {result : Except IoError Unit × PtyProcess}
    (h : (onSystem (PtyProcess.shutdownPty process)).Traces trace result) : ShutdownTrace process trace := by
  rw [PtyProcess.shutdownPty_eq] at h
  obtain ⟨(killed : Ret),afterKill,rfl,hkill⟩ := Prog.traces_call.mp h
  by_cases hkilled : killed.value ≠ 0
  · simp only [if_pos hkilled] at hkill
    obtain ⟨rfl,-⟩ := Prog.traces_pure.mp hkill
    exact .notSignalled hkilled
  · simp only [if_neg hkilled] at hkill
    obtain ⟨(waited : Ret),afterWait,rfl,hwait⟩ := Prog.traces_call.mp hkill
    by_cases hwaited : waited.value = -1
    · simp only [if_pos hwaited] at hwait
      obtain ⟨(forced : Ret),afterForce,rfl,hforce⟩ := Prog.traces_call.mp hwait
      by_cases hforced : forced.value ≠ 0
      · simp only [if_pos hforced] at hforce
        obtain ⟨rfl,-⟩ := Prog.traces_pure.mp hforce
        exact .notForced (not_not.mp hkilled) hwaited hforced
      · simp only [if_neg hforced] at hforce
        obtain ⟨closed,afterClose,rfl,hclose⟩ := Prog.traces_call.mp hforce
        obtain ⟨rfl,-⟩ := Prog.traces_pure.mp hclose
        exact .forced (not_not.mp hkilled) hwaited (not_not.mp hforced)
    · simp only [if_neg hwaited] at hwait
      obtain ⟨closed,afterClose,rfl,hclose⟩ := Prog.traces_call.mp hwait
      obtain ⟨rfl,-⟩ := Prog.traces_pure.mp hclose
      exact .waited (not_not.mp hkilled) hwaited

/-! ### The four routines -/

inductive Routine
  | close | forceKill | shutdownPty | method
  deriving DecidableEq

/-- A handler finds the process in its slot; the method keeps its process. -/
def Routine.run (process : PtyProcess) (responder : ℕ) : Routine → HandlerProg Slot
  | .close => handleClose (some process) responder
  | .forceKill => handleForceKill (some process) responder
  | .shutdownPty => handleShutdownPty (some process) responder
  | .method => do
    let (_,process) ← onSystem (PtyProcess.shutdownPty process)
    pure (some process)

/-- How often a descriptor is closed. -/
def closes (fd : ℤ) (trace : Trace) : ℕ := trace.countP fun event => event.1 = .sys (.close fd)

/-- The signal was sent, and then the wait succeeded or the child was killed. -/
structure Ended (process : PtyProcess) (trace : Trace) : Prop where
  signalled : ∃ ret : Ret, ⟨.sys (.kill process.pid sigterm),ret⟩ ∈ trace ∧ ret.value = 0
  gone : (∃ ret : Ret, ⟨.sys (.waitpid process.pid 0),ret⟩ ∈ trace ∧ ret.value ≠ -1) ∨
    ∃ ret : Ret, ⟨.sys (.kill process.pid sigkill),ret⟩ ∈ trace ∧ ret.value = 0

variable {process : PtyProcess} {trace : Trace}

theorem closes_tearDownTrace (process : PtyProcess) (signal options : Int32) (killed waited closed : Ret)
    (responder : ℕ) (result : PtyResult) :
    closes process.masterFd (tearDownTrace process signal options killed waited closed responder result) = 1 := by
  simp [closes,tearDownTrace]

theorem ShutdownTrace.closes_iff (h : ShutdownTrace process trace) :
    closes process.masterFd trace = 1 ↔ Ended process trace := by
  have hsignals : sigterm ≠ sigkill := by decide
  cases h with
  | notSignalled hkilled =>
    constructor
    · intro hcloses
      exact absurd hcloses (by simp [closes])
    · rintro ⟨⟨ret,hmem,hret⟩,-⟩
      obtain rfl : ret = _ := by simpa using hmem
      exact absurd hret hkilled
  | waited hkilled hwaited =>
    constructor
    · intro _
      exact ⟨⟨_,by simp,hkilled⟩,.inl ⟨_,by simp,hwaited⟩⟩
    · intro _
      simp [closes]
  | notForced hkilled hwaited hforced =>
    constructor
    · intro hcloses
      exact absurd hcloses (by simp [closes])
    · rintro ⟨-,⟨ret,hmem,hret⟩ | ⟨ret,hmem,hret⟩⟩
      · obtain rfl : ret = _ := by simpa using hmem
        exact absurd hwaited hret
      · obtain rfl : ret = _ := by simpa [hsignals.symm] using hmem
        exact absurd hret hforced
  | forced hkilled hwaited hforced =>
    constructor
    · intro _
      exact ⟨⟨_,by simp,hkilled⟩,.inr ⟨_,by simp,hforced⟩⟩
    · intro _
      simp [closes]

/-- Every handler closes the descriptor once, whatever fails. The method does so only when
the signal is sent and the wait succeeds, or else the kill after it. -/
theorem closes_once_iff (routine : Routine) (process : PtyProcess) (responder : ℕ) (trace : Trace) (slot' : Slot)
    (h : (routine.run process responder).Traces trace slot') :
    closes process.masterFd trace = 1 ↔ routine ≠ .method ∨ Ended process trace := by
  have htaken {signal options : Int32} (absent : Except IoError Unit) {success : String} {failure : String → String}
      (h : (answerTaken (some process) signal options absent responder success failure).Traces trace slot') :
      closes process.masterFd trace = 1 := by
    obtain ⟨killed,waited,closed,rfl⟩ := answerTaken_traces h
    exact closes_tearDownTrace ..
  cases routine with
  | close => exact ⟨fun _ => .inl nofun,fun _ => htaken (.ok ()) h⟩
  | forceKill => exact ⟨fun _ => .inl nofun,fun _ => htaken (.error notInitialized) h⟩
  | shutdownPty => exact ⟨fun _ => .inl nofun,fun _ => htaken (.ok ()) h⟩
  | method =>
    obtain ⟨first,result,second,rfl,hmethod,hrest⟩ := Prog.traces_bind.mp h
    obtain ⟨rfl,-⟩ := Prog.traces_pure.mp hrest
    rw [List.append_nil,(shutdownPty_traces hmethod).closes_iff]
    exact (or_iff_right (not_not.mpr rfl)).symm

/-- The child has ended and has been reaped, and there is nobody to signal. -/
def noProcess : Ret := ⟨-1,⟨some esrch,"No such process (os error 3)"⟩⟩

theorem shutdownPty_traces_noProcess (process : PtyProcess) (responder : ℕ) :
    (Routine.run process responder .method).Traces [⟨.sys (.kill process.pid sigterm),noProcess⟩] (some process) := by
  rw [Routine.run,PtyProcess.shutdownPty_eq]
  change (Prog.call (Call.sys (.kill process.pid sigterm)) _).Traces _ _
  refine Prog.traces_call.mpr ⟨noProcess,[],rfl,?_⟩
  exact .pure _

theorem closes_once_live : (Routine.run ⟨5,42,"sh"⟩ 0 .close).Traces
      (tearDownTrace ⟨5,42,"sh"⟩ sigterm wnohang zero zero zero 0 (.success "PTY closed successfully")) none ∧
    closes 5 (tearDownTrace ⟨5,42,"sh"⟩ sigterm wnohang zero zero zero 0 (.success "PTY closed successfully")) = 1 := by
  have h : (Routine.run ⟨5,42,"sh"⟩ 0 .close).Traces
      (tearDownTrace ⟨5,42,"sh"⟩ sigterm wnohang zero zero zero 0 (.success "PTY closed successfully")) none :=
    .call _ (.call _ (.call _ (.call _ (.pure _))))
  exact ⟨h,(closes_once_iff .close ⟨5,42,"sh"⟩ 0 _ none h).mpr (.inl nofun)⟩

/-- `shutdown_pty` of a process that is gone leaves the descriptor open. -/
theorem closes_not_once : ¬∀ (routine : Routine) (process : PtyProcess) (responder : ℕ) (trace : Trace) (slot' : Slot),
    (routine.run process responder).Traces trace slot' → closes process.masterFd trace = 1 := by
  intro h
  have hcloses := h .method ⟨5,42,"sh"⟩ 0 _ _ (shutdownPty_traces_noProcess ⟨5,42,"sh"⟩ 0)
  exact absurd hcloses (by simp [closes])

end CommandHandler
end NodeRustPty
