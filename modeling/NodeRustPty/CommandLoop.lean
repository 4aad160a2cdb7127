import NodeRustPty.CommandHandler

/-! Runs of the command loop: one reply for each command it serves, and nothing but
replies once the process has been taken out of the slot. -/
namespace NodeRustPty

def PtyCommand.responder : PtyCommand → ℕ
  | .write _ responder => responder
  | .read responder => responder
  | .resize _ _ responder => responder
  | .execute _ responder => responder
  | .close responder => responder
  | .forceKill responder => responder
  | .killProcess _ responder => responder
  | .waitPid _ responder => responder
  | .closeMasterFd responder => responder
  | .broadcast _ responder => responder
  | .readAll responder => responder
  | .readFromSession _ responder => responder
  | .readAllSessions responder => responder
  | .mergeSessions _ responder => responder
  | .splitSession _ responder => responder
  | .listSessions responder => responder
  | .setEnv _ _ responder => responder
  | .changeShell _ responder => responder
  | .status responder => responder
  | .setLogLevel _ responder => responder
  | .shutdownPty responder => responder
  | .createSession responder => responder
  | .removeSession _ responder => responder
  | .closeAllSessions responder => responder
  | .sendToSession _ _ responder => responder

def PtyCommand.isShutdown : PtyCommand → Bool
  | .shutdownPty _ => true
  | _ => false

/-- The commands that take the process out of the slot. -/
def PtyCommand.takesProcess : PtyCommand → Bool
  | .close _ => true
  | .forceKill _ => true
  | .shutdownPty _ => true
  | _ => false

/-- The commands that are a failure without a process. -/
def PtyCommand.needsProcess : PtyCommand → Bool
  | .write _ _ => true
  | .read _ => true
  | .readAll _ => true
  | .resize _ _ _ => true
  | .execute _ _ => true
  | .forceKill _ => true
  | .killProcess _ _ => true
  | .waitPid _ _ => true
  | .closeMasterFd _ => true
  | .setEnv _ _ _ => true
  | .changeShell _ _ => true
  | .status _ => true
  | .setLogLevel _ _ => true
  | _ => false

/-- The commands that are a success without a process. -/
def PtyCommand.closesGently : PtyCommand → Bool
  | .close _ => true
  | .shutdownPty _ => true
  | _ => false

namespace CommandHandler

abbrev Trace := List (Prog.Event Call Call.Res)

/-- What a trace sends, on which responder. -/
def replies (trace : Trace) : List (ℕ × PtyResult) :=
  trace.filterMap fun event => match event.1 with
    | .send responder result => some (responder,result)
    | _ => none

theorem replies_append (first second : Trace) :
    replies (first ++ second) = replies first ++ replies second := List.filterMap_append

/-! ### One reply for each command -/

/-- Watches that results are sent on one responder only, and counts them. -/
def replyMonitor (responder : ℕ) : Prog.Monitor Call Call.Res ℕ where
  allows _
    | .send other _ => other = responder
    | _ => True
  answers sent
    | .send _ _,_,sent' => sent' = sent+1
    | _,_,sent' => sent' = sent

/-- The program sends nothing. -/
def Quiet {α : Type} (responder : ℕ) (p : HandlerProg α) : Prop :=
  ∀ sent, p.Respects (replyMonitor responder) (fun sent' _ => sent' = sent) sent

/-- The program sends one result, on this responder. -/
def RepliesOnce {α : Type} (responder : ℕ) (p : HandlerProg α) : Prop :=
  p.Respects (replyMonitor responder) (fun sent _ => sent = 1) 0

section

variable {α β : Type} {responder : ℕ}

theorem replies_of_respects {p : HandlerProg α} {sent sent' : ℕ} {trace : Trace} {a : α}
    (h : p.Respects (replyMonitor responder) (fun s _ => s = sent') sent) (ht : p.Traces trace a) :
    sent+(replies trace).length = sent' ∧ ∀ reply ∈ replies trace, reply.1 = responder := by
  induction ht generalizing sent with
  | pure a => exact ⟨h,by simp [replies]⟩
  | @call op next trace a res ht ih =>
    obtain ⟨hallowed,hnext⟩ := h
    cases op with
    | sys call => exact ih (hnext res sent rfl)
    | table call => exact ih (hnext res sent rfl)
    | send other result =>
      obtain ⟨hlength,hall⟩ := ih (hnext res (sent+1) rfl)
      have hcons : replies (⟨.send other result,res⟩::trace) = (other,result)::replies trace := rfl
      rw [hcons,List.length_cons]
      refine ⟨by omega,?_⟩
      rintro reply hreply
      rcases List.mem_cons.mp hreply with rfl | hreply
      · exact hallowed
      · exact hall reply hreply

theorem RepliesOnce.exists_reply {p : HandlerProg α} (h : RepliesOnce responder p) {trace : Trace} {a : α}
    (ht : p.Traces trace a) : ∃ result, replies trace = [(responder,result)] := by
  obtain ⟨hlength,hall⟩ := replies_of_respects h ht
  have hone : (replies trace).length = 1 := by omega
  obtain ⟨⟨other,result⟩,hreply⟩ := List.length_eq_one_iff.mp hone
  obtain rfl : other = responder := hall (other,result) (by simp [hreply])
  exact ⟨result,hreply⟩

/-- A monitor of system calls that allows all of them and stays where it is. -/
def idleMonitor : Prog.Monitor Sys Sys.Res ℕ where
  allows _ _ := True
  answers sent _ _ sent' := sent' = sent

theorem quiet_onSystem (p : SysProg α) : Quiet responder (onSystem p) := by
  intro sent
  have hp : p.Respects idleMonitor (fun sent' _ => sent' = sent) sent :=
    Prog.Respects.of_idle (fun _ => ⟨trivial,fun _ _ hsent => hsent⟩) p
  exact hp.hoist (fun _ _ _ => trivial) fun _ _ _ _ hsent => hsent

theorem quiet_table (call : TableCall) : Quiet responder (table call) :=
  fun _ => ⟨trivial,fun _ _ hsent => hsent⟩

theorem quiet_pure (a : α) : Quiet responder (Prog.pure a : HandlerProg α) := fun _ => rfl

theorem Quiet.bind {p : HandlerProg α} {f : α → HandlerProg β} (hp : Quiet responder p)
    (hf : ∀ a, Quiet responder (f a)) : Quiet responder (p >>= f) := by
  intro sent
  refine (hp sent).bind ?_
  rintro _ a rfl
  exact hf a _

theorem repliesOnce_send (responder : ℕ) (result : PtyResult) :
    RepliesOnce responder (send responder result) :=
  ⟨rfl,fun _ _ hsent => hsent⟩

theorem Quiet.repliesOnce {p : HandlerProg α} {f : α → HandlerProg β}
    (hp : Quiet responder p) (hf : ∀ a, RepliesOnce responder (f a)) : RepliesOnce responder (p >>= f) := by
  refine (hp 0).bind ?_
  rintro _ a rfl
  exact hf a

theorem RepliesOnce.quiet {p : HandlerProg α} {f : α → HandlerProg β}
    (hp : RepliesOnce responder p) (hf : ∀ a, Quiet responder (f a)) : RepliesOnce responder (p >>= f) := by
  refine Prog.Respects.bind hp ?_
  rintro _ a rfl
  exact hf a 1

end

theorem repliesOnce_answer {α : Type} (slot : Slot) (responder : ℕ) (success : α → PtyResult)
    (failure : String → String) (result : Except IoError α) :
    RepliesOnce responder (answer slot responder success failure result) := by
  cases result with
  | ok a => exact (repliesOnce_send _ _).quiet fun _ => quiet_pure _
  | error e => exact (repliesOnce_send _ _).quiet fun _ => quiet_pure _

theorem repliesOnce_answerProcess {α : Type} (slot : Slot) (method : ProcessM α) (responder : ℕ)
    (success : α → PtyResult) (failure : String → String) :
    RepliesOnce responder (answerProcess slot method responder success failure) := by
  cases slot with
  | none => exact repliesOnce_answer none responder success failure (.error notInitialized)
  | some process => exact (quiet_onSystem _).repliesOnce fun _ => repliesOnce_answer _ _ _ _ _

theorem repliesOnce_answerTaken (slot : Slot) (signal options : Int32) (absent : Except IoError Unit)
    (responder : ℕ) (success : String) (failure : String → String) :
    RepliesOnce responder (answerTaken slot signal options absent responder success failure) := by
  cases slot with
  | none => exact repliesOnce_answer _ _ _ _ _
  | some process => exact (quiet_onSystem _).repliesOnce fun _ => repliesOnce_answer _ _ _ _ _

theorem repliesOnce_answerMultiplexer {α : Type} (multiplexer : Option PtyMultiplexer)
    {method : PtyMultiplexer → HandlerProg (Except String α)} (responder : ℕ)
    (hmethod : ∀ m, Quiet responder (method m)) (success : α → String) (failure : String → String) (uninitialized : String) :
    RepliesOnce responder
      (answerMultiplexer multiplexer method responder success failure uninitialized) := by
  cases multiplexer with
  | none => exact repliesOnce_send _ _
  | some multiplexer =>
    refine (hmethod multiplexer).repliesOnce ?_
    intro result
    cases result with
    | ok a => exact repliesOnce_send _ _
    | error reason => exact repliesOnce_send _ _

theorem quiet_writeProcess {responder : ℕ} (multiplexer : PtyMultiplexer) (data : Bytes) :
    Quiet responder (writeProcess multiplexer data) := (quiet_onSystem _).bind fun _ => quiet_pure _

theorem quiet_sendToSession {responder : ℕ} (sessionId : UInt32) (data : Bytes) (multiplexer : PtyMultiplexer) :
    Quiet responder (sendToSession sessionId data multiplexer) := by
  refine (quiet_table _).bind fun result => ?_
  cases result with
  | ok a => exact quiet_writeProcess multiplexer data
  | error reason => exact quiet_pure _

theorem quiet_broadcast {responder : ℕ} (data : Bytes) (multiplexer : PtyMultiplexer) :
    Quiet responder (broadcast data multiplexer) := by
  refine (quiet_table _).bind fun result => ?_
  cases result with
  | ok a => exact quiet_writeProcess multiplexer data
  | error reason => exact quiet_pure _

theorem repliesOnce_keeping {responder : ℕ} {handler : HandlerProg Unit} (slot : Slot)
    (h : RepliesOnce responder handler) : RepliesOnce responder (keeping slot handler) :=
  h.quiet fun _ => quiet_pure _

variable (multiplexer : Option PtyMultiplexer)

/-- Every handler sends one result on the responder of its command. -/
theorem repliesOnce_handle (slot : Slot) (command : PtyCommand) :
    RepliesOnce command.responder (handle multiplexer slot command) := by
  cases command with
  | createSession responder | readAllSessions responder | listSessions responder
  | closeAllSessions responder | removeSession sessionId responder
  | readFromSession sessionId responder | splitSession sessionId responder
  | mergeSessions sessionIds responder =>
    exact repliesOnce_keeping slot
      (repliesOnce_answerMultiplexer multiplexer _ (fun _ => quiet_table _) _ _ _)
  | broadcast data responder =>
    exact repliesOnce_keeping slot
      (repliesOnce_answerMultiplexer multiplexer _ (quiet_broadcast data) _ _ _)
  | sendToSession sessionId data responder =>
    exact repliesOnce_keeping slot
      (repliesOnce_answerMultiplexer multiplexer _ (quiet_sendToSession sessionId data) _ _ _)
  | close responder | forceKill responder | shutdownPty responder =>
    exact repliesOnce_answerTaken slot _ _ _ _ _ _
  | _ => exact repliesOnce_answerProcess slot _ _ _ _

/-! ### An empty slot -/

theorem traces_send {slot slot' : Slot} {responder : ℕ} {result : PtyResult} {trace : Trace}
    (h : (send responder result >>= fun _ => (pure slot : HandlerProg Slot)).Traces trace slot') :
    trace = [⟨Call.send responder result,()⟩] ∧ slot' = slot := by
  obtain ⟨res,rest,rfl,hrest⟩ := Prog.traces_call.mp h
  obtain ⟨rfl,rfl⟩ := Prog.traces_pure.mp hrest
  exact ⟨rfl,rfl⟩

variable {multiplexer} {slot slot' : Slot} {trace : Trace} {command : PtyCommand}

/-- Without a process these commands only send a failure. -/
theorem handle_none_of_needsProcess (hcommand : command.needsProcess = true)
    (h : (handle multiplexer none command).Traces trace slot') :
    (∃ message, trace = [⟨Call.send command.responder (.failure message),()⟩]) ∧ slot' = none := by
  cases command with
  | forceKill responder =>
    obtain ⟨htrace,hslot⟩ := traces_send h
    exact ⟨⟨_,htrace⟩,hslot⟩
  | write _ _ | read _ | readAll _ | resize _ _ _ | execute _ _ | killProcess _ _ | waitPid _ _
  | closeMasterFd _ | setEnv _ _ _ | changeShell _ _ | status _ | setLogLevel _ _ =>
    obtain ⟨htrace,hslot⟩ := traces_send h
    exact ⟨⟨_,htrace⟩,hslot⟩
  | _ => simp [PtyCommand.needsProcess] at hcommand

/-- Without a process these commands only send a success. -/
theorem handle_none_of_closesGently (hcommand : command.closesGently = true)
    (h : (handle multiplexer none command).Traces trace slot') :
    (∃ message, trace = [⟨Call.send command.responder (.success message),()⟩]) ∧ slot' = none := by
  cases command with
  | close _ | shutdownPty _ =>
    obtain ⟨htrace,hslot⟩ := traces_send h
    exact ⟨⟨_,htrace⟩,hslot⟩
  | _ => simp [PtyCommand.closesGently] at hcommand

theorem keeping_slot {handler : HandlerProg Unit} (h : (keeping slot handler).Traces trace slot') :
    slot' = slot := by
  obtain ⟨first,a,second,rfl,-,hsecond⟩ := Prog.traces_bind.mp h
  exact (Prog.traces_pure.mp hsecond).2.symm

/-- No handler puts a process into an empty slot. -/
theorem handle_none (h : (handle multiplexer none command).Traces trace slot') : slot' = none := by
  by_cases hneeds : command.needsProcess = true
  · exact (handle_none_of_needsProcess hneeds h).2
  by_cases hgently : command.closesGently = true
  · exact (handle_none_of_closesGently hgently h).2
  cases command with
  | createSession _ | readAllSessions _ | listSessions _ | closeAllSessions _ | removeSession _ _
  | readFromSession _ _ | splitSession _ _ | mergeSessions _ _ | broadcast _ _
  | sendToSession _ _ _ => exact keeping_slot h
  | close _ | shutdownPty _ => exact absurd rfl hgently
  | _ => exact absurd rfl hneeds

theorem answer_slot {α : Type} {responder : ℕ} {success : α → PtyResult}
    {failure : String → String} {result : Except IoError α}
    (h : (answer slot responder success failure result).Traces trace slot') : slot' = slot := by
  cases result with
  | ok a => exact (traces_send h).2
  | error e => exact (traces_send h).2

theorem answerTaken_slot {signal options : Int32} {absent : Except IoError Unit} {responder : ℕ}
    {success : String} {failure : String → String}
    (h : (answerTaken slot signal options absent responder success failure).Traces trace slot') :
    slot' = none := by
  cases slot with
  | none => exact answer_slot h
  | some process =>
    obtain ⟨first,result,second,rfl,-,hsecond⟩ := Prog.traces_bind.mp h
    exact answer_slot hsecond

theorem handle_of_takesProcess (hcommand : command.takesProcess = true)
    (h : (handle multiplexer slot command).Traces trace slot') : slot' = none := by
  cases command with
  | close _ | forceKill _ | shutdownPty _ => exact answerTaken_slot h
  | _ => simp [PtyCommand.takesProcess] at hcommand

/-! ### Runs -/

/-- The handling of one command: its path and the slot it leaves. -/
structure Step where
  command : PtyCommand
  trace : Trace
  slot : Slot

/-- The commands up to and including the first shutdown. -/
def served (commands : List PtyCommand) : List PtyCommand :=
  commands.takeWhile (fun command => !command.isShutdown) ++
    (commands.find? PtyCommand.isShutdown).toList

variable (multiplexer)

/-- Each handler runs on the slot that the one before it left. -/
def RunsFrom (slot : Slot) : List Step → Prop
  | [] => True
  | step::rest =>
    (handle multiplexer slot step.command).Traces step.trace step.slot ∧ RunsFrom step.slot rest

/-- The slot after a list of steps. -/
def slotAfter (slot : Slot) (steps : List Step) : Slot :=
  steps.foldl (fun _ step => step.slot) slot

variable {multiplexer} {commands : List PtyCommand}

theorem served_cons_shutdown (hcommand : command.isShutdown = true) :
    served (command::commands) = [command] := by
  simp [served,hcommand]

theorem served_cons (hcommand : command.isShutdown = false) :
    served (command::commands) = command::served commands := by
  simp [served,hcommand]

theorem handleCommands_cons_shutdown (hcommand : command.isShutdown = true) :
    handleCommands multiplexer slot (command::commands) = handle multiplexer slot command := by
  cases command <;> first | rfl | simp [PtyCommand.isShutdown] at hcommand

theorem handleCommands_cons (hcommand : command.isShutdown = false) :
    handleCommands multiplexer slot (command::commands) = (do
      let slot ← handle multiplexer slot command
      handleCommands multiplexer slot commands) := by
  cases command <;> first | rfl | simp [PtyCommand.isShutdown] at hcommand

/-- A run of the loop is one step for each command it serves. -/
theorem handleCommands_steps (h : (handleCommands multiplexer slot commands).Traces trace slot') :
    ∃ steps : List Step, steps.map Step.command = served commands ∧
      trace = steps.flatMap Step.trace ∧ RunsFrom multiplexer slot steps ∧
      slotAfter slot steps = slot' := by
  induction commands generalizing slot trace with
  | nil =>
    obtain ⟨rfl,rfl⟩ := Prog.traces_pure.mp h
    exact ⟨[],rfl,rfl,trivial,rfl⟩
  | cons command commands ih =>
    cases hcommand : command.isShutdown with
    | true =>
      rw [handleCommands_cons_shutdown hcommand] at h
      rw [served_cons_shutdown hcommand]
      exact ⟨[⟨command,trace,slot'⟩],rfl,by simp,⟨h,trivial⟩,rfl⟩
    | false =>
      rw [handleCommands_cons hcommand] at h
      obtain ⟨first,between,second,rfl,hfirst,hsecond⟩ := Prog.traces_bind.mp h
      obtain ⟨steps,hcommands,rfl,hruns,hslot⟩ := ih hsecond
      rw [served_cons hcommand]
      exact ⟨⟨command,first,between⟩::steps,by simp [hcommands],rfl,⟨hfirst,hruns⟩,hslot⟩

/-- From an empty slot every step leaves it empty and answers without the process. -/
structure Step.Idle (step : Step) : Prop where
  slot : step.slot = none
  failure : step.command.needsProcess = true →
    ∃ message, step.trace = [⟨Call.send step.command.responder (.failure message),()⟩]
  success : step.command.closesGently = true →
    ∃ message, step.trace = [⟨Call.send step.command.responder (.success message),()⟩]

theorem RunsFrom.idle {steps : List Step} (h : RunsFrom multiplexer none steps) :
    ∀ step ∈ steps, step.Idle := by
  induction steps with
  | nil => simp
  | cons step steps ih =>
    have hslot := handle_none h.1
    intro later hlater
    rcases List.mem_cons.mp hlater with rfl | hlater
    · exact ⟨hslot,fun hc => (handle_none_of_needsProcess hc h.1).1,
        fun hc => (handle_none_of_closesGently hc h.1).1⟩
    · exact ih (hslot ▸ h.2) later hlater

theorem RunsFrom.reply {steps : List Step} (h : RunsFrom multiplexer slot steps) :
    ∀ step ∈ steps, ∃ result, replies step.trace = [(step.command.responder,result)] := by
  induction steps generalizing slot with
  | nil => simp
  | cons step steps ih =>
    intro later hlater
    rcases List.mem_cons.mp hlater with rfl | hlater
    · exact (repliesOnce_handle multiplexer slot _).exists_reply h.1
    · exact ih h.2 later hlater

theorem RunsFrom.taken {steps : List Step} (h : RunsFrom multiplexer slot steps) :
    (∀ step ∈ steps, step.command.takesProcess = true → step.slot = none) ∧
      steps.Pairwise fun earlier later => earlier.command.takesProcess = true → later.Idle := by
  induction steps generalizing slot with
  | nil => simp
  | cons step steps ih =>
    obtain ⟨htaken,hpairs⟩ := ih h.2
    have hstep (hc : step.command.takesProcess = true) : step.slot = none :=
      handle_of_takesProcess hc h.1
    refine ⟨?_,List.pairwise_cons.mpr ⟨?_,hpairs⟩⟩
    · rintro later hlater
      rcases List.mem_cons.mp hlater with rfl | hlater
      · exact hstep
      · exact htaken later hlater
    · intro later hlater hc
      have hruns := h.2
      rw [hstep hc] at hruns
      exact hruns.idle later hlater

theorem replies_flatMap {steps : List Step}
    (h : ∀ step ∈ steps, ∃ result, replies step.trace = [(step.command.responder,result)]) :
    (replies (steps.flatMap Step.trace)).map Prod.fst =
      (steps.map Step.command).map PtyCommand.responder := by
  induction steps with
  | nil => rfl
  | cons step steps ih =>
    obtain ⟨result,hresult⟩ := h step (List.mem_cons_self ..)
    have hrest := ih fun later hlater => h later (List.mem_cons_of_mem _ hlater)
    rw [List.flatMap_cons,replies_append,hresult,List.map_append,hrest]
    rfl

/-- A run of the loop, cut into one step for each command it serves. -/
structure Serves (multiplexer : Option PtyMultiplexer) (slot slot' : Slot)
    (commands : List PtyCommand) (trace : Trace) (steps : List Step) : Prop where
  commands_eq : steps.map Step.command = served commands
  trace_eq : trace = steps.flatMap Step.trace
  runs : RunsFrom multiplexer slot steps
  slot_eq : slotAfter slot steps = slot'
  reply : ∀ step ∈ steps, ∃ result, replies step.trace = [(step.command.responder,result)]
  taken : ∀ step ∈ steps, step.command.takesProcess = true → step.slot = none
  idle : steps.Pairwise fun earlier later => earlier.command.takesProcess = true → later.Idle

/-- A loop that returns has answered each command it serves once, in order, and has served none
after a shutdown. Once the process is taken the slot stays empty and no command touches a process. -/
theorem handleCommands_serves (multiplexer : Option PtyMultiplexer) (slot slot' : Slot)
    (commands : List PtyCommand) (trace : Trace)
    (h : (handleCommands multiplexer slot commands).Traces trace slot') :
    (replies trace).map Prod.fst = (served commands).map PtyCommand.responder ∧
      ∃ steps, Serves multiplexer slot slot' commands trace steps := by
  obtain ⟨steps,hcommands,htrace,hruns,hslot⟩ := handleCommands_steps h
  refine ⟨?_,steps,hcommands,htrace,hruns,hslot,hruns.reply,hruns.taken.1,hruns.taken.2⟩
  rw [htrace,replies_flatMap hruns.reply,hcommands]

end CommandHandler
end NodeRustPty
