import NodeRustPty.PtyHandle
import NodeRustPty.TearDown

/-! `close` of `pty/handle.rs`. When the reply is a failure or late it goes on with `force_kill`,
and the `ForceKill` finds the slot that the `Close` before it has emptied. -/
namespace NodeRustPty
namespace PtyHandle

open CommandHandler

/-- A command with its responder, and how long the client waits for the reply. -/
structure Request where
  command : PtyCommand
  timeoutMs : ℕ

/-- A method as a program over its requests, each of which ends in some way. -/
abbrev ClientProg := Prog Request fun _ => Ending

abbrev ClientTrace := List (Prog.Event Request fun _ => Ending)

def request (command : PtyCommand) (timeoutMs : ℕ) : ClientProg Ending := Prog.perform ⟨command,timeoutMs⟩

def forceKill (forceTimeoutMs responder : ℕ) : ClientProg (Except NapiError Unit) := do
  let ending ← request (.forceKill responder) forceTimeoutMs
  pure (settle {
    unsent := s!"Failed to send force kill command: {sendError}"
    data := "Force kill operation returned unexpected result"
    dropped := "Force kill operation receiver dropped"
    timedOut := "Force kill operation timed out" }
    (fun _ => .ok ()) ending)

/-- A failure and a timeout are meant to escalate to a kill. -/
def close : ClientProg (Except NapiError Unit) := do
  match ← request (.close 0) 10000 with
  | .unsent => pure (.error ⟨.genericFailure,s!"Failed to send close command: {sendError}"⟩)
  | .reply (.success _) => pure (.ok ())
  | .reply (.failure _) => forceKill 5000 1
  | .reply (.data _) => pure (.error ⟨.unknown,"Close operation returned unexpected result"⟩)
  | .dropped => pure (.error ⟨.unknown,"Close operation receiver dropped"⟩)
  | .timedOut => forceKill 5000 1

/-- How a request can end that was handled with this trace: with its reply, or too late for it. -/
def Answered (command : PtyCommand) (trace : Trace) (ending : Ending) : Prop :=
  ending = .timedOut ∨ ∃ result, ending = .reply result ∧ (command.responder,result) ∈ replies trace

/-- The call went on to `force_kill`. -/
def FallsBack (requests : ClientTrace) : Prop := ∃ ending, ⟨⟨.forceKill 1,5000⟩,ending⟩ ∈ requests

/-- The child was sent `SIGKILL`. -/
def Delivers (pid : ℤ) (trace : Trace) : Prop := ∃ ret : Ret, ⟨.sys (.kill pid sigkill),ret⟩ ∈ trace ∧ ret.value = 0

/-- A call that falls back kills the child in this handling of its `ForceKill`, unless the child
was reaped before. -/
def Escalates (pid : ℤ) (requests : ClientTrace) (past killing : Trace) : Prop :=
  FallsBack requests → Delivers pid killing ∨ Reaped pid past

/-- What `Close` does to a process, and the empty slot it leaves. -/
theorem handle_close_traces {multiplexer : Option PtyMultiplexer} {process : PtyProcess} {responder : ℕ}
    {trace : Trace} {slot : Slot} (h : (handle multiplexer (some process) (.close responder)).Traces trace slot) :
    (∃ (killed waited closed : Ret) (success failure : String),
      trace = tearDownTrace process sigterm wnohang killed waited closed responder
        (if closed.value ≠ 0 then .failure failure else .success success)) ∧ slot = none := by
  obtain ⟨killed,waited,closed,success,failure,htrace⟩ := handle_of_closesGently rfl h
  exact ⟨⟨killed,waited,closed,success,failure closed.error.text,htrace⟩,handle_of_takesProcess rfl h⟩

/-- After a command has emptied the slot no `ForceKill` signals, whatever is handled in between. -/
theorem not_delivers {multiplexer : Option PtyMultiplexer} {between : List Step} {killing : Step} {responder : ℕ}
    (h : RunsFrom multiplexer none (between ++ [killing])) (hkilling : killing.command = .forceKill responder)
    (pid : ℤ) : ¬Delivers pid killing.trace := by
  have hidle := h.idle killing (by simp)
  obtain ⟨message,htrace⟩ := hidle.failure (by rw [hkilling]; rfl)
  rintro ⟨ret,hmem,-⟩
  rw [htrace] at hmem
  simp at hmem

/-- The call falls back exactly when the descriptor was not closed or the reply is late. -/
theorem fallsBack_iff {ending : Ending} {rest : ClientTrace} {result : Except NapiError Unit} {process : PtyProcess}
    {signal options : Int32} {killed waited closed : Ret} {success failure : String}
    (hclient : close.Traces (⟨⟨.close 0,10000⟩,ending⟩::rest) result)
    (hanswered : Answered (.close 0) (tearDownTrace process signal options killed waited closed 0
      (if closed.value ≠ 0 then .failure failure else .success success)) ending) :
    FallsBack (⟨⟨.close 0,10000⟩,ending⟩::rest) ↔ ¬(closed.value = 0 ∧ ending ≠ .timedOut) := by
  obtain ⟨ending',rest',heq,hrest⟩ := Prog.traces_call.mp hclient
  cases heq
  have hforced (h : (forceKill 5000 1).Traces rest result) : FallsBack (⟨⟨.close 0,10000⟩,ending⟩::rest) := by
    obtain ⟨forced,later,rfl,-⟩ := Prog.traces_call.mp h
    exact ⟨forced,by simp⟩
  rcases hanswered with rfl | ⟨reply,rfl,hmem⟩
  · exact iff_of_true (hforced hrest) (by simp)
  rw [replies_tearDownTrace,List.mem_singleton,Prod.mk.injEq] at hmem
  obtain rfl := hmem.2
  by_cases hgood : closed.value = 0
  · rw [if_neg (not_not_intro hgood)] at hrest ⊢
    obtain ⟨rfl,-⟩ := Prog.traces_pure.mp hrest
    refine iff_of_false ?_ (by simp [hgood])
    rintro ⟨forced,hforced⟩
    simp at hforced
  · rw [if_pos hgood] at hrest hforced ⊢
    exact iff_of_true (hforced hrest) fun h => hgood h.1

/-- A `close` that falls back after its `Close` was handled never kills. What it is meant to do
holds exactly when it does not fall back, the descriptor being closed and the reply in time, or when
there is no child left to kill. -/
theorem close_escalates_iff (multiplexer : Option PtyMultiplexer) (process : PtyProcess) (past : Trace)
    (closing : Step) (between : List Step) (killing : Step) (ending : Ending) (rest : ClientTrace)
    (result : Except NapiError Unit) (hclient : close.Traces (⟨⟨.close 0,10000⟩,ending⟩::rest) result)
    (hclosing : closing.command = .close 0) (hkilling : killing.command = .forceKill 1)
    (hruns : RunsFrom multiplexer (some process) (closing::(between ++ [killing])))
    (hanswered : Answered (.close 0) closing.trace ending) :
    ∃ (killed waited closed : Ret) (reply : PtyResult),
      closing.trace = tearDownTrace process sigterm wnohang killed waited closed 0 reply ∧
      (Escalates process.pid (⟨⟨.close 0,10000⟩,ending⟩::rest)
          (past ++ closing.trace ++ between.flatMap Step.trace) killing.trace ↔
        (closed.value = 0 ∧ ending ≠ .timedOut) ∨
          Reaped process.pid (past ++ closing.trace ++ between.flatMap Step.trace)) := by
  obtain ⟨hclose,hlater⟩ := hruns
  rw [hclosing] at hclose
  obtain ⟨⟨killed,waited,closed,success,failure,htrace⟩,hslot⟩ := handle_close_traces hclose
  refine ⟨killed,waited,closed,_,htrace,?_⟩
  rw [hslot] at hlater
  rw [htrace] at hanswered
  have hnot := not_delivers hlater hkilling process.pid
  rw [Escalates,fallsBack_iff hclient hanswered,or_iff_right hnot,← or_iff_not_imp_left]

def shell : PtyProcess := ⟨5,42,"sh"⟩

def notClosed : PtyResult := .failure "Close error: EIO"

def absent : PtyResult := .failure "Force kill error: PTY process not initialized"

def eio : Ret := ⟨-1,⟨some 5,"EIO"⟩⟩

/-- The handling of a `Close` whose `waitpid` and `close` answer with these. -/
def closeStep (waited closed : Ret) (reply : PtyResult) : Step :=
  ⟨.close 0,tearDownTrace shell sigterm wnohang zero waited closed 0 reply,none⟩

/-- A `ForceKill` that finds no process. -/
def absentStep : Step := ⟨.forceKill 1,[⟨.send 1 absent,()⟩],none⟩

theorem absent_requests : close.Traces
    [⟨⟨.close 0,10000⟩,.reply notClosed⟩,⟨⟨.forceKill 1,5000⟩,.reply absent⟩]
    (.error ⟨.unknown,"Force kill error: PTY process not initialized"⟩) := .call _ (.call _ (.pure _))

theorem absent_runs (waited : Ret) :
    RunsFrom none (some shell) (closeStep waited eio notClosed::([] ++ [absentStep])) := by
  refine ⟨?_,.call _ (.pure _),trivial⟩
  change (onSystem (tearDown sigterm wnohang shell) >>= _).Traces _ none
  rw [tearDown_eq]
  exact .call _ (.call _ (.call _ (.call _ (.pure _))))

/-- The child exits at once and the wait of the `Close` reaps it. -/
theorem close_escalates_reaped : Escalates 42
    [⟨⟨.close 0,10000⟩,.reply notClosed⟩,⟨⟨.forceKill 1,5000⟩,.reply absent⟩]
    ([] ++ (closeStep ⟨42,⟨none,""⟩⟩ eio notClosed).trace ++ [].flatMap Step.trace) absentStep.trace := by
  obtain ⟨killed,waited,closed,reply,-,hiff⟩ := close_escalates_iff none shell []
    (closeStep ⟨42,⟨none,""⟩⟩ eio notClosed) [] absentStep (.reply notClosed) _ _ absent_requests rfl rfl
    (absent_runs _) (.inr ⟨notClosed,rfl,List.mem_singleton.mpr rfl⟩)
  refine hiff.mpr (.inr ⟨wnohang,⟨42,⟨none,""⟩⟩,?_,rfl⟩)
  rw [List.nil_append,List.flatMap_nil,List.append_nil]
  exact mem_waitpid.mpr ⟨rfl,rfl⟩

/-- The child goes on, its descriptor is not closed, and the `ForceKill` does nothing. -/
theorem close_not_escalates : ∃ requests closing killing result, close.Traces requests result ∧
    RunsFrom none (some shell) [closing,killing] ∧ closing.command = .close 0 ∧ killing.command = .forceKill 1 ∧
    ¬Escalates shell.pid requests closing.trace killing.trace := by
  refine ⟨_,closeStep zero eio notClosed,absentStep,_,absent_requests,absent_runs zero,rfl,rfl,fun h => ?_⟩
  rcases h ⟨.reply absent,by simp⟩ with ⟨ret,hmem,-⟩ | ⟨options,ret,hmem,hpid⟩
  · simp [absentStep] at hmem
  · rw [(mem_waitpid.mp hmem).2] at hpid
    exact absurd hpid (by decide)

end PtyHandle
end NodeRustPty
