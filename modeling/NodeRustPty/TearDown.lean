import NodeRustPty.CommandLoop

/-! What a `Close` or `ShutdownPty` that is answered with success has done to the child and
to the descriptor. The signal and the wait may fail, and the wait does not block. -/
namespace NodeRustPty

namespace PtyProcess

theorem check_eq (ret : Ret) (bad : ℤ → Bool) (process : PtyProcess) :
    check ret bad process = .pure (if bad ret.value then .error ret.error else .ok (),process) := by
  unfold check
  split <;> rfl

/-- A call whose only good answer is 0. -/
theorem check_nonzero (ret : Ret) (process : PtyProcess) :
    check ret (· ≠ 0) process = .pure (if ret.value ≠ 0 then .error ret.error else .ok (),process) := by
  rw [check_eq]
  simp only [decide_eq_true_eq]

theorem resize_eq (process : PtyProcess) (cols rows : UInt16) :
    resize cols rows process = .call (.setWinsize process.masterFd cols rows) fun (ret : Ret) =>
      .pure (if ret.value ≠ 0 then .error ret.error else .ok (),process) :=
  congrArg _ (funext fun (ret : Ret) => check_nonzero ret process)

theorem killProcess_eq (process : PtyProcess) (signal : Int32) :
    killProcess signal process = .call (.kill process.pid signal) fun (ret : Ret) =>
      .pure (if ret.value ≠ 0 then .error ret.error else .ok (),process) :=
  congrArg _ (funext fun (ret : Ret) => check_nonzero ret process)

theorem closeMasterFd_eq (process : PtyProcess) :
    closeMasterFd process = .call (.close process.masterFd) fun (ret : Ret) =>
      .pure (if ret.value ≠ 0 then .error ret.error else .ok (),process) :=
  congrArg _ (funext fun (ret : Ret) => check_nonzero ret process)

end PtyProcess

namespace CommandHandler

open PtyProcess

/-- The three calls are made whatever they answer, and only the last answer counts. -/
theorem tearDown_eq (process : PtyProcess) (signal options : Int32) :
    tearDown signal options process = .call (.kill process.pid signal) fun (_ : Ret) =>
      .call (.waitpid process.pid options) fun (_ : Ret) =>
      .call (.close process.masterFd) fun (ret : Ret) =>
      .pure (if ret.value ≠ 0 then .error ret.error else .ok (),process) := by
  have hkill : ProcessM.attempt (killProcess signal) process = .call (.kill process.pid signal) fun (ret : Ret) =>
      .pure (.ok (if ret.value ≠ 0 then .error ret.error else .ok ()),process) := by
    unfold ProcessM.attempt
    rw [killProcess_eq]
    rfl
  have hwait : ProcessM.attempt (waitpid options) process = .call (.waitpid process.pid options) fun (ret : Ret) =>
      .pure (.ok (if ret.value = -1 then .error ret.error else .ok ret.value),process) := by
    unfold ProcessM.attempt
    rw [waitpid_eq]
    rfl
  change (ProcessM.attempt (killProcess signal) process >>= _) = _
  rw [hkill]
  refine congrArg _ (funext fun (_ : Ret) => ?_)
  change (ProcessM.attempt (waitpid options) process >>= _) = _
  rw [hwait]
  refine congrArg _ (funext fun (_ : Ret) => ?_)
  exact closeMasterFd_eq process

/-- The path of a handler that tears its process down and answers. -/
def tearDownTrace (process : PtyProcess) (signal options : Int32) (killed waited closed : Ret)
    (responder : ℕ) (result : PtyResult) : Trace :=
  [⟨.sys (.kill process.pid signal),killed⟩,⟨.sys (.waitpid process.pid options),waited⟩,
    ⟨.sys (.close process.masterFd),closed⟩,⟨.send responder result,()⟩]

theorem answerTaken_traces {process : PtyProcess} {signal options : Int32} {absent : Except IoError Unit}
    {responder : ℕ} {success : String} {failure : String → String} {trace : Trace} {slot' : Slot}
    (h : (answerTaken (some process) signal options absent responder success failure).Traces trace slot') :
    ∃ killed waited closed : Ret, trace = tearDownTrace process signal options killed waited closed responder
      (if closed.value ≠ 0 then .failure (failure closed.error.text) else .success success) := by
  change (onSystem (tearDown signal options process) >>= _).Traces trace slot' at h
  rw [tearDown_eq] at h
  obtain ⟨killed,rest1,rfl,h1⟩ := Prog.traces_call.mp h
  obtain ⟨waited,rest2,rfl,h2⟩ := Prog.traces_call.mp h1
  obtain ⟨closed,rest3,rfl,h3⟩ := Prog.traces_call.mp h2
  refine ⟨killed,waited,closed,?_⟩
  have hanswer : (answer none responder (fun _ => .success success) failure
      (if (closed : Ret).value ≠ 0 then .error (closed : Ret).error else .ok ())).Traces rest3 slot' := h3
  split at hanswer
  · next hbad =>
    obtain ⟨rfl,-⟩ := traces_send hanswer
    rw [tearDownTrace,if_pos hbad]
  · next hgood =>
    obtain ⟨rfl,-⟩ := traces_send hanswer
    rw [tearDownTrace,if_neg hgood]

theorem handle_of_closesGently {multiplexer : Option PtyMultiplexer} {process : PtyProcess} {command : PtyCommand}
    (hcommand : command.closesGently = true) {trace : Trace} {slot' : Slot}
    (h : (handle multiplexer (some process) command).Traces trace slot') :
    ∃ (killed waited closed : Ret) (success : String) (failure : String → String),
    trace = tearDownTrace process sigterm wnohang killed waited closed command.responder
      (if closed.value ≠ 0 then .failure (failure closed.error.text) else .success success) := by
  cases command with
  | close responder =>
    rw [handle,handleClose] at h
    obtain ⟨killed,waited,closed,htrace⟩ := answerTaken_traces h
    exact ⟨killed,waited,closed,_,_,htrace⟩
  | shutdownPty responder =>
    rw [handle,handleShutdownPty] at h
    obtain ⟨killed,waited,closed,htrace⟩ := answerTaken_traces h
    exact ⟨killed,waited,closed,_,_,htrace⟩
  | _ => simp [PtyCommand.closesGently] at hcommand

/-- A wait for the child has returned its pid. -/
def Reaped (pid : ℤ) (trace : Trace) : Prop :=
  ∃ (options : Int32) (ret : Ret), ⟨.sys (.waitpid pid options),ret⟩ ∈ trace ∧ ret.value = pid

/-- The command signalled the child and closed its descriptor, and the child has been reaped, in
the command or by the calls before it. -/
structure TornDown (process : PtyProcess) (past trace : Trace) : Prop where
  signalled : ∃ ret : Ret, ⟨.sys (.kill process.pid sigterm),ret⟩ ∈ trace ∧ ret.value = 0
  reaped : Reaped process.pid (past ++ trace)
  closed : ∃ ret : Ret, ⟨.sys (.close process.masterFd),ret⟩ ∈ trace ∧ ret.value = 0

/-- The command is answered with a success. -/
def Succeeds (command : PtyCommand) (trace : Trace) : Prop :=
  ∃ message, (command.responder,.success message) ∈ replies trace

section

variable {process : PtyProcess} {signal options : Int32} {killed waited closed : Ret} {responder : ℕ}
  {result : PtyResult}

theorem mem_kill {ret : Ret} : (⟨.sys (.kill process.pid signal),ret⟩ : Prog.Event Call Call.Res) ∈
    tearDownTrace process signal options killed waited closed responder result ↔ ret = killed := by
  simp [tearDownTrace]

theorem mem_close {fd : ℤ} {ret : Ret} : (⟨.sys (.close fd),ret⟩ : Prog.Event Call Call.Res) ∈
    tearDownTrace process signal options killed waited closed responder result ↔
      fd = process.masterFd ∧ ret = closed := by
  constructor
  · intro h
    simp only [tearDownTrace,List.mem_cons,List.not_mem_nil,or_false,Sigma.mk.injEq] at h
    simp at h
    exact h
  · rintro ⟨rfl,rfl⟩
    simp [tearDownTrace]

theorem replies_tearDownTrace :
    replies (tearDownTrace process signal options killed waited closed responder result) = [(responder,result)] := rfl

theorem mem_waitpid {other : Int32} {ret : Ret} :
    (⟨.sys (.waitpid process.pid other),ret⟩ : Prog.Event Call Call.Res) ∈
    tearDownTrace process signal options killed waited closed responder result ↔ other = options ∧ ret = waited := by
  constructor
  · intro h
    simp only [tearDownTrace,List.mem_cons,List.not_mem_nil,or_false,Sigma.mk.injEq] at h
    simp at h
    exact h
  · rintro ⟨rfl,rfl⟩
    simp [tearDownTrace]

theorem reaped_tearDown (past : Trace) :
    Reaped process.pid (past ++ tearDownTrace process signal options killed waited closed responder result) ↔
      waited.value = process.pid ∨ Reaped process.pid past := by
  constructor
  · rintro ⟨other,ret,hmem,hpid⟩
    rcases List.mem_append.mp hmem with hmem | hmem
    · exact .inr ⟨other,ret,hmem,hpid⟩
    · rw [(mem_waitpid.mp hmem).2] at hpid
      exact .inl hpid
  · rintro (hpid | ⟨other,ret,hmem,hpid⟩)
    · exact ⟨options,waited,List.mem_append_right _ (mem_waitpid.mpr ⟨rfl,rfl⟩),hpid⟩
    · exact ⟨other,ret,List.mem_append_left _ hmem,hpid⟩

theorem tornDown_iff (past : Trace) :
    TornDown process past (tearDownTrace process sigterm options killed waited closed responder result) ↔
      killed.value = 0 ∧ (waited.value = process.pid ∨ Reaped process.pid past) ∧ closed.value = 0 := by
  constructor
  · rintro ⟨⟨ret,hkill,hsignalled⟩,hreaped,⟨ret',hclose,hclosed⟩⟩
    rw [mem_kill.mp hkill] at hsignalled
    rw [(mem_close.mp hclose).2] at hclosed
    exact ⟨hsignalled,(reaped_tearDown past).mp hreaped,hclosed⟩
  · rintro ⟨hsignalled,hreaped,hclosed⟩
    exact ⟨⟨killed,mem_kill.mpr rfl,hsignalled⟩,(reaped_tearDown past).mpr hreaped,⟨closed,mem_close.mpr ⟨rfl,rfl⟩,hclosed⟩⟩

end

/-- A `Close` or `ShutdownPty` that finds a process makes three calls. Its success means what
it says exactly when the close fails, so that there is no success, or the signal was sent and the
child was reaped at once or before. -/
theorem close_tornDown_iff (multiplexer : Option PtyMultiplexer) (process : PtyProcess) (command : PtyCommand)
    (past trace : Trace) (slot' : Slot) (hcommand : command.closesGently = true)
    (h : (handle multiplexer (some process) command).Traces trace slot') :
    ∃ (killed waited closed : Ret) (result : PtyResult),
      trace = tearDownTrace process sigterm wnohang killed waited closed command.responder result ∧
      ((Succeeds command trace → TornDown process past trace) ↔
        closed.value ≠ 0 ∨ killed.value = 0 ∧ (waited.value = process.pid ∨ Reaped process.pid past)) := by
  obtain ⟨killed,waited,closed,success,failure,htrace⟩ := handle_of_closesGently hcommand h
  refine ⟨killed,waited,closed,_,htrace,?_⟩
  have hsucceeds : Succeeds command trace ↔ closed.value = 0 := by
    by_cases hgood : closed.value = 0
    · simp [Succeeds,htrace,tearDownTrace,replies,hgood]
    · simp [Succeeds,htrace,tearDownTrace,replies,hgood]
  rw [hsucceeds,htrace,tornDown_iff]
  tauto

def zero : Ret := ⟨0,⟨none,""⟩⟩

/-- The child exits at once and the wait of the command reaps it. -/
theorem close_tornDown_reaped : TornDown ⟨5,42,"sh"⟩ []
    (tearDownTrace ⟨5,42,"sh"⟩ sigterm wnohang zero ⟨42,⟨none,""⟩⟩ zero 0 (.success "PTY closed successfully")) := by
  obtain ⟨killed,waited,closed,result,htrace,hiff⟩ := close_tornDown_iff none ⟨5,42,"sh"⟩ (.close 0) []
    (tearDownTrace ⟨5,42,"sh"⟩ sigterm wnohang zero ⟨42,⟨none,""⟩⟩ zero 0 (.success "PTY closed successfully"))
    none rfl (.call _ (.call _ (.call _ (.call _ (.pure _)))))
  simp only [tearDownTrace,List.cons.injEq,Sigma.mk.injEq,heq_eq_eq,true_and,and_true] at htrace
  obtain ⟨hkilled,hwaited,-,-⟩ := htrace
  refine hiff.mpr (.inr ⟨?_,.inl ?_⟩) ⟨"PTY closed successfully",?_⟩
  · rw [← hkilled]
    rfl
  · rw [← hwaited]
  · simp [tearDownTrace,replies,PtyCommand.responder]

/-- The child does not exit on the signal: the wait answers 0, and still the command is a success. -/
theorem close_not_tornDown : ∃ trace slot', (handle none (some ⟨5,42,"sh"⟩) (.close 0)).Traces trace slot' ∧
    Succeeds (.close 0) trace ∧ ¬TornDown ⟨5,42,"sh"⟩ [] trace := by
  refine ⟨tearDownTrace ⟨5,42,"sh"⟩ sigterm wnohang zero zero zero 0 (.success "PTY closed successfully"),none,
    .call _ (.call _ (.call _ (.call _ (.pure _)))),⟨"PTY closed successfully",?_⟩,?_⟩
  · simp [tearDownTrace,replies,PtyCommand.responder]
  · rw [tornDown_iff]
    simp [zero,Reaped]

end CommandHandler
end NodeRustPty
