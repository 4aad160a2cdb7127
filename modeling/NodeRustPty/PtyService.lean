import NodeRustPty.CommandLoop
import NodeRustPty.Service

/-! `PtyHandle` as a service: any number of clients, any interleaving, any answers of the
system and of the session table. -/
namespace NodeRustPty
namespace CommandHandler

/-! ### The reply is the last thing a handler does -/

/-- Watches that nothing is called after the result, which goes to one responder. -/
def answerMonitor (responder : ℕ) : Prog.Monitor Call Call.Res Bool where
  allows answered
    | .send other _ => answered = false ∧ other = responder
    | _ => answered = false
  answers answered
    | .send _ _,_,answered' => answered' = true
    | _,_,answered' => answered' = answered

/-- The program sends nothing. -/
def Unanswering {α : Type} (responder : ℕ) (p : HandlerProg α) : Prop :=
  p.Respects (answerMonitor responder) (fun answered _ => answered = false) false

/-- The program sends one result, on this responder, and calls nothing after that. -/
def AnswersLast {α : Type} (responder : ℕ) (p : HandlerProg α) : Prop :=
  p.Respects (answerMonitor responder) (fun answered _ => answered = true) false

section

variable {α β : Type} {responder : ℕ}

theorem Unanswering.bind {p : HandlerProg α} {f : α → HandlerProg β} (hp : Unanswering responder p)
    (hf : ∀ a, Unanswering responder (f a)) : Unanswering responder (p >>= f) := by
  refine Prog.Respects.bind hp ?_
  rintro _ a rfl
  exact hf a

theorem Unanswering.answersLast {p : HandlerProg α} {f : α → HandlerProg β}
    (hp : Unanswering responder p) (hf : ∀ a, AnswersLast responder (f a)) :
    AnswersLast responder (p >>= f) := by
  refine Prog.Respects.bind hp ?_
  rintro _ a rfl
  exact hf a

theorem unanswering_pure (a : α) : Unanswering responder (Prog.pure a : HandlerProg α) := rfl

theorem unanswering_onSystem (p : SysProg α) : Unanswering responder (onSystem p) := by
  let monitor : Prog.Monitor Sys Sys.Res Bool := ⟨fun answered _ => answered = false,
    fun answered _ _ answered' => answered' = answered⟩
  have hp : p.Respects monitor (fun answered _ => answered = false) false :=
    Prog.Respects.of_idle (fun _ => ⟨rfl,fun _ _ h => h⟩) p
  exact hp.hoist (fun _ _ h => h) fun _ _ _ _ h => h

theorem unanswering_table (call : TableCall) : Unanswering responder (table call) :=
  ⟨rfl,fun _ _ h => h⟩

theorem answersLast_send (responder : ℕ) (result : PtyResult) (a : α) :
    AnswersLast responder (send responder result >>= fun _ => (pure a : HandlerProg α)) :=
  ⟨⟨rfl,rfl⟩,fun _ _ h => h⟩

end

theorem answersLast_answer {α : Type} (slot : Slot) (responder : ℕ) (success : α → PtyResult)
    (failure : String → String) (result : Except IoError α) :
    AnswersLast responder (answer slot responder success failure result) := by
  cases result with
  | ok a => exact answersLast_send _ _ _
  | error e => exact answersLast_send _ _ _

theorem answersLast_answerProcess {α : Type} (slot : Slot) (method : ProcessM α) (responder : ℕ)
    (success : α → PtyResult) (failure : String → String) :
    AnswersLast responder (answerProcess slot method responder success failure) := by
  cases slot with
  | none => exact answersLast_answer none responder success failure (.error notInitialized)
  | some process => exact (unanswering_onSystem _).answersLast fun _ => answersLast_answer _ _ _ _ _

theorem answersLast_answerTaken (slot : Slot) (signal options : Int32) (absent : Except IoError Unit)
    (responder : ℕ) (success : String) (failure : String → String) :
    AnswersLast responder (answerTaken slot signal options absent responder success failure) := by
  cases slot with
  | none => exact answersLast_answer _ _ _ _ _
  | some process => exact (unanswering_onSystem _).answersLast fun _ => answersLast_answer _ _ _ _ _

theorem answersLast_keeping (slot : Slot) {α : Type} (multiplexer : Option PtyMultiplexer)
    {method : PtyMultiplexer → HandlerProg (Except String α)} (responder : ℕ)
    (hmethod : ∀ m, Unanswering responder (method m)) (success : α → String) (failure : String → String)
    (uninitialized : String) : AnswersLast responder
      (keeping slot (answerMultiplexer multiplexer method responder success failure uninitialized)) := by
  cases multiplexer with
  | none => exact answersLast_send _ _ _
  | some multiplexer =>
    unfold keeping answerMultiplexer
    rw [bind_assoc]
    refine (hmethod multiplexer).answersLast fun result => ?_
    cases result with
    | ok a => exact answersLast_send _ _ _
    | error reason => exact answersLast_send _ _ _

theorem unanswering_writeProcess {responder : ℕ} (multiplexer : PtyMultiplexer) (data : Bytes) :
    Unanswering responder (writeProcess multiplexer data) :=
  (unanswering_onSystem _).bind fun _ => unanswering_pure _

theorem unanswering_sendToSession {responder : ℕ} (sessionId : UInt32) (data : Bytes)
    (multiplexer : PtyMultiplexer) : Unanswering responder (sendToSession sessionId data multiplexer) := by
  refine (unanswering_table _).bind fun result => ?_
  cases result with
  | ok a => exact unanswering_writeProcess multiplexer data
  | error reason => exact unanswering_pure _

theorem unanswering_broadcast {responder : ℕ} (data : Bytes) (multiplexer : PtyMultiplexer) :
    Unanswering responder (broadcast data multiplexer) := by
  refine (unanswering_table _).bind fun result => ?_
  cases result with
  | ok a => exact unanswering_writeProcess multiplexer data
  | error reason => exact unanswering_pure _

/-- Every handler sends its result at its end. -/
theorem answersLast_handle (multiplexer : Option PtyMultiplexer) (slot : Slot) (command : PtyCommand) :
    AnswersLast command.responder (handle multiplexer slot command) := by
  cases command with
  | createSession responder | readAllSessions responder | listSessions responder
  | closeAllSessions responder | removeSession sessionId responder
  | readFromSession sessionId responder | splitSession sessionId responder
  | mergeSessions sessionIds responder =>
    exact answersLast_keeping slot multiplexer _ (fun _ => unanswering_table _) _ _ _
  | broadcast data responder =>
    exact answersLast_keeping slot multiplexer _ (unanswering_broadcast data) _ _ _
  | sendToSession sessionId data responder =>
    exact answersLast_keeping slot multiplexer _ (unanswering_sendToSession sessionId data) _ _ _
  | close responder | forceKill responder | shutdownPty responder =>
    exact answersLast_answerTaken slot _ _ _ _ _ _
  | _ => exact answersLast_answerProcess slot _ _ _ _

/-- After its result a program calls nothing. -/
theorem reaches_of_answered {responder : ℕ} {p rest : HandlerProg Slot} {trace : Trace}
    {post : Bool → Slot → Prop} (hp : p.Respects (answerMonitor responder) post true)
    (h : p.Reaches trace rest) : trace = [] := by
  cases h with
  | refl => rfl
  | @call op next trace _ res hrest => cases op <;> simp [Prog.Respects,answerMonitor] at hp

/-- So far the program has sent nothing, or its one result. -/
theorem AnswersLast.reaches {responder : ℕ} {p rest : HandlerProg Slot} {trace : Trace}
    (hp : AnswersLast responder p) (h : p.Reaches trace rest) :
    replies trace = [] ∨ ∃ result, replies trace = [(responder,result)] := by
  induction h with
  | refl p => exact .inl rfl
  | @call op next trace rest res hrest ih =>
    obtain ⟨hallowed,hnext⟩ := hp
    cases op with
    | sys call => exact ih (hnext res false rfl)
    | table call => exact ih (hnext res false rfl)
    | send other result =>
      obtain rfl : other = responder := hallowed.2
      obtain rfl := reaches_of_answered (hnext res true rfl) hrest
      exact .inr ⟨result,rfl⟩

/-! ### The service -/

/-- The reply that a call of the handler is. -/
def replyOf : Call → Option (ℕ × PtyResult)
  | .send responder result => some (responder,result)
  | _ => none

/-- The thread of `PtyHandle::new`, with the channel that it creates. -/
def service (multiplexer : Option PtyMultiplexer) : Service Call Call.Res Slot PtyCommand PtyResult where
  responder := PtyCommand.responder
  serve := handle multiplexer
  reply := replyOf
  ends := PtyCommand.isShutdown
  capacity := 100

theorem service_replies (multiplexer : Option PtyMultiplexer) (trace : Trace) :
    (service multiplexer).replies trace = replies trace := by
  refine List.filterMap_congr fun event _ => ?_
  cases event.1 <;> rfl

/-- The loop of the service is that of the handler. -/
theorem service_loop (multiplexer : Option PtyMultiplexer) (slot : Slot) (commands : List PtyCommand) :
    (service multiplexer).loop slot commands = handleCommands multiplexer slot commands := by
  induction commands generalizing slot with
  | nil => rfl
  | cons command commands ih =>
    change (handle multiplexer slot command >>= fun slot =>
      if command.isShutdown then pure slot else (service multiplexer).loop slot commands) = _
    cases hcommand : command.isShutdown with
    | true =>
      rw [handleCommands_cons_shutdown hcommand]
      exact bind_pure _
    | false =>
      rw [handleCommands_cons hcommand]
      simp only [ih,Bool.false_eq_true,if_false]

theorem service_answersOnce (multiplexer : Option PtyMultiplexer) : (service multiplexer).AnswersOnce where
  upTo {slot command trace rest} h := by
    rw [service_replies]
    rcases (answersLast_handle multiplexer slot command).reaches h with hnone | ⟨result,hone⟩
    · rw [hnone]
      exact List.nil_prefix
    · rw [hone]
      exact List.prefix_rfl
  whole {slot slot' command trace} h := by
    rw [service_replies]
    obtain ⟨result,hone⟩ := (repliesOnce_handle multiplexer slot command).exists_reply h
    rw [hone]
    rfl

/-- An environment in which everything can happen. -/
def anything : Environment Call Call.Res Unit := ⟨fun _ _ _ _ => True,fun _ _ => True⟩

/-- Two calls have begun. The second one is in the channel. -/
def overlapping : Service.State Call Call.Res Slot PtyCommand PtyResult Unit :=
  ⟨[.close 1],.idle none,(),[.called (.status 0),.called (.close 1)],[.close 1],[]⟩

theorem reachable_overlapping : (service none).Reachable anything none () overlapping := by
  have hfirst : (service none).Reachable anything none () ⟨[],.idle none,(),[.called (.status 0)],[],[]⟩ :=
    .tail .refl (.call (PtyCommand.status 0) (by simp [Service.start]))
  have hcalled : (service none).Reachable anything none ()
      ⟨[],.idle none,(),[.called (.status 0),.called (.close 1)],[],[]⟩ :=
    hfirst.tail (.call (PtyCommand.close 1) (by simp [service,PtyCommand.responder]))
  exact hcalled.tail (.submit ⟨by simp,by simp,by simp [Service.State.Returned]⟩ (by simp) (by simp [service]))

section

variable {World : Type} {multiplexer : Option PtyMultiplexer} {environment : Environment Call Call.Res World}
  {slot : Slot} {world : World} {state : Service.State Call Call.Res Slot PtyCommand PtyResult World}

/-- What the handler calls is a run of `handleCommands` on the commands of the channel. -/
theorem reachable_handles (h : (service multiplexer).Reachable environment slot world state) :
    ∃ rest, (handleCommands multiplexer slot state.accepted).Reaches state.log rest := by
  obtain ⟨rest,hrun⟩ := (h.linearizes (service_answersOnce multiplexer)).run
  rw [service_loop] at hrun
  exact ⟨rest,hrun⟩

/-- Whatever many clients call and however the handler, the system and the other tasks come in
between, the order of the channel explains all that the clients see, and what the handler calls is a
run of `handleCommands` on the commands in this order. -/
theorem history_linearizes (h : (service multiplexer).Reachable environment slot world state) :
    (service multiplexer).Linearizes environment slot world state.history state.accepted state.log ∧
      ∃ rest, (handleCommands multiplexer slot state.accepted).Reaches state.log rest :=
  ⟨h.linearizes (service_answersOnce multiplexer),reachable_handles h⟩

/-- Two calls overlap. The one that began later is served first and returns before the other one
is sent. -/
theorem history_linearizes_overlapping :
    let closed : PtyResult := .success "PTY closed successfully"
    let history : List (Occurrence PtyCommand PtyResult) :=
      [.called (.status 0),.called (.close 1),.returned 1 (.reply closed)]
    let order : List PtyCommand := [.close 1,.status 0]
    let log : Trace := [⟨.send 1 closed,()⟩]
    (service none).Linearizes anything none () history order log ∧
      ∃ rest, (handleCommands none none order).Reaches log rest := by
  intro closed history order log
  have htaken : (service none).Reachable anything none () ⟨[],
      .busy (.close 1) ((service none).serve none (.close 1)),(),
        [.called (.status 0),.called (.close 1)],[.close 1],[]⟩ :=
    reachable_overlapping.tail (.take rfl rfl)
  have hanswered : (service none).Reachable anything none () ⟨[],.busy (.close 1) (.pure none),
      (),[.called (.status 0),.called (.close 1)],[.close 1],log⟩ :=
    htaken.tail (@Service.Step.operate _ _ _ _ _ _ (service none) anything _ (.close 1)
      (.send 1 closed) (fun _ => .pure none) () () rfl trivial)
  have hserved : (service none).Reachable anything none ()
      ⟨[],.idle none,(),[.called (.status 0),.called (.close 1)],[.close 1],log⟩ :=
    hanswered.tail (@Service.Step.finish _ _ _ _ _ _ (service none) anything _ (.close 1) none rfl)
  have hreturned : (service none).Reachable anything none () ⟨[],.idle none,(),history,[.close 1],log⟩ :=
    hserved.tail (@Service.Step.receive _ _ _ _ _ _ (service none) anything _ (.close 1) closed
      ⟨by simp,by simp [Service.State.Returned]⟩ (List.mem_singleton_self _))
  have hlast : (service none).Reachable anything none () ⟨[.status 0],.idle none,(),history,order,log⟩ :=
    hreturned.tail (.submit ⟨by simp [history],by simp,
      by simp [history,Service.State.Returned,service,PtyCommand.responder]⟩ (by simp) (by simp [service]))
  exact history_linearizes hlast

end

end CommandHandler
end NodeRustPty
