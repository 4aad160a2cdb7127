import NodeRustPty.PtyHandle
import NodeRustPty.MergeSessions

/-! One request of the handle among others: the client waits on its responder and may
give up, the handler works through the channel in its own thread, and other tasks
change the sessions meanwhile. -/
namespace NodeRustPty

/-- The call of the session table behind a method, if there is one. -/
def PtyHandle.Method.call : PtyHandle.Method → Option TableCall
  | .createSession => some .createSession
  | .listSessions => some .listSessions
  | .splitSession sessionId => some (.splitSession sessionId)
  | .readAllSessions => some .readAllSessions
  | .readFromSession sessionId => some (.readFromSession sessionId)
  | .removeSession sessionId => some (.removeSession sessionId)
  | .waitpid _ => none

/-- What a call of the table does, iterating the map in the given order. -/
def TableCall.outcome (order : HashOrder UInt32 PtySession) (m : Sessions) :
    (call : TableCall) → Sessions.Outcome call.Value
  | .createSession => m.createSession
  | .removeSession sessionId => m.removeSession sessionId
  | .sendToSession sessionId data => m.sendToSession sessionId data
  | .broadcast data => (.ok (),m.broadcast data)
  | .readFromSession sessionId => m.readFromSession sessionId
  | .readAllSessions => (.ok (m.readAllSessions order),m)
  | .mergeSessions sessionIds => ((m.mergeSessions sessionIds).1,(m.mergeSessions sessionIds).2.sessions)
  | .splitSession sessionId => m.splitSession sessionId
  | .closeAllSessions => (.ok (),m.closeAllSessions)
  | .listSessions => (.ok (m.listSessions order),m)

/-- A call that fails changes nothing. -/
theorem TableCall.outcome_error {order : HashOrder UInt32 PtySession} {m : Sessions}
    {call : TableCall} {reason : String} (h : (call.outcome order m).1 = .error reason) :
    (call.outcome order m).2 = m := by
  cases call with
  | createSession | broadcast data | readAllSessions | closeAllSessions | listSessions =>
    simp [TableCall.outcome,Sessions.createSession] at h
  | removeSession sessionId =>
    simp only [TableCall.outcome,Sessions.removeSession] at h ⊢
    split <;> simp_all
  | sendToSession sessionId data =>
    simp only [TableCall.outcome,Sessions.sendToSession] at h ⊢
    split <;> simp_all
  | readFromSession sessionId =>
    simp only [TableCall.outcome,Sessions.readFromSession] at h ⊢
    split <;> simp_all
  | splitSession sessionId =>
    simp only [TableCall.outcome,Sessions.splitSession] at h ⊢
    split <;> simp_all
  | mergeSessions sessionIds =>
    simp only [TableCall.outcome,Sessions.mergeSessions] at h ⊢
    split
    · rfl
    · split <;> simp_all

namespace Requests

open CommandHandler PtyHandle

/-- The thread of the command handler: between two commands, in one of them, or over. -/
inductive Handler
  | idle (slot : Slot)
  | busy (command : PtyCommand) (rest : HandlerProg Slot)
  | ended

/-- The client of the request under observation. -/
inductive Client
  | ready
  | waiting
  | returned (ending : Ending)
  deriving DecidableEq

/-- What happened to the sessions: a call of the table for the command with this responder, or any
change by another task. -/
inductive Effect
  | call (responder : ℕ) (order : HashOrder UInt32 PtySession) (tableCall : TableCall)
  | change (f : Sessions → Sessions)

namespace Effect

def apply (m : Sessions) : Effect → Sessions
  | .call _ order tableCall => (tableCall.outcome order m).2
  | .change f => f m

def replay (m : Sessions) (effects : List Effect) : Sessions := effects.foldl apply m

/-- The request under observation has responder `0`, no other command has it. -/
def own : Effect → Bool
  | .call responder _ _ => responder = 0
  | .change _ => false

/-- The history without the observed request. -/
def others (effects : List Effect) : List Effect := effects.filter fun effect => !effect.own

end Effect

structure World where
  queue : List PtyCommand
  handler : Handler
  client : Client
  sessions : Sessions
  replies : List (ℕ × PtyResult)
  effects : List Effect

def start (slot : Slot) (m : Sessions) : World := ⟨[],.idle slot,.ready,m,[],[]⟩

/-- The channel of `PtyHandle::new` holds this many commands. -/
def capacity : ℕ := 100

section Steps

variable (multiplexer : Option PtyMultiplexer) (method : Method)

inductive Step : World → World → Prop
  /-- Another client's command. -/
  | submit {w : World} (command : PtyCommand) (hresponder : command.responder ≠ 0)
      (hopen : w.handler ≠ .ended) (hroom : w.queue.length < capacity) :
      Step w { w with queue := w.queue ++ [command] }
  | request {w : World} (hready : w.client = .ready) (hopen : w.handler ≠ .ended)
      (hroom : w.queue.length < capacity) :
      Step w { w with queue := w.queue ++ [method.command 0], client := .waiting }
  | refuse {w : World} (hready : w.client = .ready) (hended : w.handler = .ended) :
      Step w { w with client := .returned .unsent }
  | take {w : World} {slot : Slot} {command : PtyCommand} {queue : List PtyCommand}
      (hidle : w.handler = .idle slot) (hqueue : w.queue = command::queue) :
      Step w { w with queue := queue, handler := .busy command (handle multiplexer slot command) }
  | table {w : World} {command : PtyCommand} {call : TableCall}
      {next : Except String call.Value → HandlerProg Slot} (order : HashOrder UInt32 PtySession)
      (hbusy : w.handler = .busy command (.call (.table call) next)) :
      Step w { w with
        handler := .busy command (next (call.outcome order w.sessions).1)
        sessions := (call.outcome order w.sessions).2
        effects := w.effects ++ [.call command.responder order call] }
  | sys {w : World} {command : PtyCommand} {call : Sys} {next : call.Res → HandlerProg Slot}
      (res : call.Res) (hbusy : w.handler = .busy command (.call (.sys call) next)) :
      Step w { w with handler := .busy command (next res) }
  | send {w : World} {command : PtyCommand} {responder : ℕ} {result : PtyResult}
      {next : Unit → HandlerProg Slot}
      (hbusy : w.handler = .busy command (.call (.send responder result) next)) :
      Step w { w with
        handler := .busy command (next ()), replies := w.replies ++ [(responder,result)] }
  | finish {w : World} {command : PtyCommand} {slot : Slot}
      (hbusy : w.handler = .busy command (.pure slot)) :
      Step w { w with handler := if command.isShutdown then .ended else .idle slot }
  | abort {w : World} {command : PtyCommand} {message : String}
      (hbusy : w.handler = .busy command (.panic message)) :
      Step w { w with handler := .ended }
  /-- Every handle is gone and the channel is empty. -/
  | hangUp {w : World} {slot : Slot} (hidle : w.handler = .idle slot) (hqueue : w.queue = [])
      (hclient : w.client ≠ .waiting) : Step w { w with handler := .ended }
  /-- Another task, or the rest of a call that is not atomic. -/
  | change {w : World} (f : Sessions → Sessions) :
      Step w { w with sessions := f w.sessions, effects := w.effects ++ [.change f] }
  | receive {w : World} {result : PtyResult} (hwaiting : w.client = .waiting)
      (hreply : (0,result) ∈ w.replies) : Step w { w with client := .returned (.reply result) }
  | drop {w : World} (hwaiting : w.client = .waiting) (hended : w.handler = .ended)
      (hnone : ∀ result, (0,result) ∉ w.replies) : Step w { w with client := .returned .dropped }
  | timeout {w : World} (hwaiting : w.client = .waiting) (hnone : ∀ result, (0,result) ∉ w.replies) :
      Step w { w with client := .returned .timedOut }

/-- The worlds that can come up from a handler with these sessions. -/
abbrev Reachable (slot : Slot) (m : Sessions) : World → Prop :=
  Relation.ReflTransGen (Step multiplexer method) (start slot m)

end Steps

/-! ### Where the request is -/

variable {multiplexer : Option PtyMultiplexer} {method : Method} {m : Sessions} {w w' : World}

/-- The handler is not in the middle of the observed request. -/
def Handler.Aside : Handler → Prop
  | .busy command rest => command.responder ≠ 0 ∧
    ∃ sent, rest.Respects (replyMonitor command.responder) (fun _ _ => True) sent
  | _ => True

def Client.Unsent (client : Client) : Prop := client = .ready ∨ client = .returned .unsent

def Answered (replies : List (ℕ × PtyResult)) : Prop := ∃ result, (0,result) ∈ replies

def ownEffects (w : World) : ℕ := w.effects.countP Effect.own

/-- The result leaves no doubt whether the sessions changed: they did not if it is no success. -/
def Honest (m : Sessions) (w : World) (result : PtyResult) : Prop :=
  (∃ message, result = .success message) ∨ w.sessions = Effect.replay m (Effect.others w.effects)

/-- The rest of a handler that has the result of its call. -/
def replying (slot : Slot) (result : PtyResult) : HandlerProg Slot :=
  .call (.send 0 result) fun _ => .pure slot

/-- The handler of a request that calls the table. -/
def calling {call : TableCall} (slot : Slot) (success : call.Value → String) (failure : String → String) :
    HandlerProg Slot :=
  .call (.table call) fun
    | .ok a => replying slot (.success (success a))
    | .error reason => replying slot (.failure (failure reason))

/-- The stages of the observed request. -/
inductive Stage (method : Method) (call : TableCall) (m : Sessions) (w : World) : Prop
  | absent (hclient : w.client.Unsent) (hqueue : ∀ command ∈ w.queue, command.responder ≠ 0)
      (hhandler : w.handler.Aside) (hreplies : ¬Answered w.replies) (heffects : ownEffects w = 0)
  | queued (before after : List PtyCommand) (hclient : ¬w.client.Unsent)
      (hqueue : w.queue = before ++ method.command 0::after)
      (hothers : ∀ command ∈ before ++ after, command.responder ≠ 0)
      (hhandler : w.handler.Aside) (hreplies : ¬Answered w.replies) (heffects : ownEffects w = 0)
  | started (slot : Slot) (success : call.Value → String) (failure : String → String) (hclient : ¬w.client.Unsent) (hqueue : ∀ command ∈ w.queue, command.responder ≠ 0)
      (hhandler : w.handler = .busy (method.command 0) (calling slot success failure))
      (hreplies : ¬Answered w.replies) (heffects : ownEffects w = 0)
  | executed (slot : Slot) (result : PtyResult) (hclient : ¬w.client.Unsent)
      (hqueue : ∀ command ∈ w.queue, command.responder ≠ 0)
      (hhandler : w.handler = .busy (method.command 0) (replying slot result))
      (hreplies : ¬Answered w.replies) (heffects : ownEffects w ≤ 1) (hresult : Honest m w result)
  | replied (result : PtyResult) (hclient : ¬w.client.Unsent)
      (hqueue : ∀ command ∈ w.queue, command.responder ≠ 0)
      (hhandler : w.handler.Aside ∨ ∃ slot, w.handler = .busy (method.command 0) (.pure slot))
      (hreplies : Answered w.replies) (hall : ∀ other, (0,other) ∈ w.replies → other = result)
      (heffects : ownEffects w ≤ 1) (hresult : Honest m w result)

/-- What holds in every world that can come up. -/
structure Invariant (method : Method) (call : TableCall) (m : Sessions) (w : World) : Prop where
  sessions_eq : w.sessions = Effect.replay m w.effects
  stage : Stage method call m w
  reply : ∀ result, w.client = .returned (.reply result) → (0,result) ∈ w.replies
  dropped : w.client = .returned .dropped → w.handler = .ended ∧ ¬Answered w.replies

theorem handle_command {call : TableCall} (hcall : method.call = some call) :
    ∃ (success : call.Value → String) (failure : String → String) (uninitialized : String),
      ∀ (multiplexer : Option PtyMultiplexer) (slot : Slot),
        handle multiplexer slot (method.command 0) = match multiplexer with
          | none => replying slot (.failure uninitialized)
          | some _ => calling slot success failure := by
  have hkeeping (success : call.Value → String) (failure : String → String) (uninitialized : String)
      (multiplexer : Option PtyMultiplexer) (slot : Slot) :
      keeping slot (answerMultiplexer multiplexer (fun _ => table call) 0 success failure uninitialized) =
        match multiplexer with
          | none => replying slot (.failure uninitialized)
          | some _ => calling slot success fun reason => failure (napiError reason) := by
    cases multiplexer with
    | none => rfl
    | some multiplexer =>
      refine congrArg (Prog.call (Call.table call)) (funext fun result => ?_)
      cases result with
      | ok a => rfl
      | error reason => rfl
  cases method <;> cases hcall <;> exact ⟨_,_,_,hkeeping _ _ _⟩

theorem Effect.replay_concat (m : Sessions) (effects : List Effect) (effect : Effect) :
    replay m (effects ++ [effect]) = effect.apply (replay m effects) := by
  simp [replay,List.foldl_append]

theorem Effect.others_concat (effects : List Effect) (effect : Effect) :
    others (effects ++ [effect]) = others effects ++ if effect.own then [] else [effect] := by
  cases h : effect.own <;> simp [others,h]

theorem others_of_ownEffects (h : ownEffects w = 0) : Effect.others w.effects = w.effects := by
  refine List.filter_eq_self.mpr fun effect heffect => ?_
  have := List.countP_eq_zero.mp h effect heffect
  simpa using this

theorem responder_command (responder : ℕ) : (method.command responder).responder = responder := by
  cases method <;> rfl

theorem not_aside (rest : HandlerProg Slot) : ¬(Handler.busy (method.command 0) rest).Aside :=
  fun h => h.1 (responder_command 0)

theorem aside_handle {command : PtyCommand} (h : command.responder ≠ 0) (slot : Slot) :
    (Handler.busy command (handle multiplexer slot command)).Aside :=
  ⟨h,0,(repliesOnce_handle multiplexer slot command).mono fun _ _ _ => trivial⟩

theorem Handler.Aside.next {command : PtyCommand} {op : Call} {next : op.Res → HandlerProg Slot}
    (h : (Handler.busy command (.call op next)).Aside) (res : op.Res) :
    (Handler.busy command (next res)).Aside := by
  obtain ⟨hne,sent,-,hnext⟩ := h
  cases op with
  | sys call => exact ⟨hne,sent,hnext res sent rfl⟩
  | table call => exact ⟨hne,sent,hnext res sent rfl⟩
  | send responder result => exact ⟨hne,sent+1,hnext res (sent+1) rfl⟩

theorem Handler.Aside.responder_ne {command : PtyCommand} {responder : ℕ} {result : PtyResult}
    {next : Unit → HandlerProg Slot}
    (h : (Handler.busy command (.call (.send responder result) next)).Aside) : responder ≠ 0 := by
  obtain ⟨hne,sent,hallowed,-⟩ := h
  exact fun h0 => hne (hallowed ▸ h0)

theorem Honest.change {result : PtyResult} (h : Honest m w result) (effect : Effect)
    (hown : effect.own = false) (hsessions : w'.sessions = effect.apply w.sessions)
    (heffects : w'.effects = w.effects ++ [effect]) : Honest m w' result := by
  refine h.imp id fun h => ?_
  rw [hsessions,h,heffects,Effect.others_concat,hown]
  exact (Effect.replay_concat _ _ _).symm

/-! ### Steps beside the request -/

variable {call : TableCall}

theorem Stage.frame (h : Stage method call m w) (hclient : w'.client.Unsent ↔ w.client.Unsent)
    (hqueue : w'.queue = w.queue)
    (hhandler : w'.handler = w.handler ∨ w.handler.Aside ∧ w'.handler.Aside)
    (hreplies : ∀ result, (0,result) ∈ w'.replies ↔ (0,result) ∈ w.replies)
    (heffects : ownEffects w' = ownEffects w)
    (hhonest : ∀ result, Honest m w result → Honest m w' result) : Stage method call m w' := by
  have haside (ha : w.handler.Aside) : w'.handler.Aside := by
    rcases hhandler with he | ⟨-,ha'⟩
    · rwa [he]
    · exact ha'
  have hbusy {rest : HandlerProg Slot} (hb : w.handler = .busy (method.command 0) rest) :
      w'.handler = .busy (method.command 0) rest := by
    rcases hhandler with he | ⟨ha,-⟩
    · rw [he,hb]
    · exact absurd (hb ▸ ha) (not_aside rest)
  have hanswered : Answered w'.replies ↔ Answered w.replies := exists_congr hreplies
  cases h with
  | absent hc hq hh hr he =>
    exact .absent (hclient.mpr hc) (hqueue ▸ hq) (haside hh) (mt hanswered.mp hr) (heffects.trans he)
  | queued before after hc hq ho hh hr he =>
    exact .queued before after (mt hclient.mp hc) (hqueue.trans hq) ho (haside hh)
      (mt hanswered.mp hr) (heffects.trans he)
  | started slot success failure hc hq hh hr he =>
    exact .started slot success failure (mt hclient.mp hc) (hqueue ▸ hq) (hbusy hh)
      (mt hanswered.mp hr) (heffects.trans he)
  | executed slot result hc hq hh hr he hres =>
    exact .executed slot result (mt hclient.mp hc) (hqueue ▸ hq) (hbusy hh)
      (mt hanswered.mp hr) (heffects.trans_le he) (hhonest result hres)
  | replied result hc hq hh hr hall he hres =>
    refine .replied result (mt hclient.mp hc) (hqueue ▸ hq) ?_ (hanswered.mpr hr)
      (fun other ho => hall other ((hreplies other).mp ho)) (heffects.trans_le he) (hhonest result hres)
    exact hh.imp haside fun ⟨slot,hs⟩ => ⟨slot,hbusy hs⟩

theorem Stage.submit (h : Stage method call m w) {command : PtyCommand} (hcommand : command.responder ≠ 0) :
    Stage method call m { w with queue := w.queue ++ [command] } := by
  have hmem (hq : ∀ command ∈ w.queue, command.responder ≠ 0) :
      ∀ other ∈ w.queue ++ [command], other.responder ≠ 0 := by
    intro other hother
    rcases List.mem_append.mp hother with hother | hother
    · exact hq other hother
    · obtain rfl := List.mem_singleton.mp hother
      exact hcommand
  cases h with
  | absent hc hq hh hr he => exact .absent hc (hmem hq) hh hr he
  | queued before after hc hq ho hh hr he =>
    refine .queued before (after ++ [command]) hc (by simp [hq]) ?_ hh hr he
    intro other hother
    rw [← List.append_assoc] at hother
    rcases List.mem_append.mp hother with hother | hother
    · exact ho other hother
    · obtain rfl := List.mem_singleton.mp hother
      exact hcommand
  | started slot success failure hc hq hh hr he =>
    exact .started slot success failure hc (hmem hq) hh hr he
  | executed slot result hc hq hh hr he hres => exact .executed slot result hc (hmem hq) hh hr he hres
  | replied result hc hq hh hr hall he hres => exact .replied result hc (hmem hq) hh hr hall he hres

theorem Stage.request (h : Stage method call m w) (hready : w.client = .ready) :
    Stage method call m { w with queue := w.queue ++ [method.command 0], client := .waiting } := by
  have hunsent : w.client.Unsent := .inl hready
  cases h with
  | absent hc hq hh hr he =>
    exact .queued w.queue [] (by simp [Client.Unsent]) rfl (by simpa using hq) hh hr he
  | queued _ _ hc | started _ _ _ hc | executed _ _ hc | replied _ hc => exact absurd hunsent hc

theorem Stage.take (hcall : method.call = some call) (h : Stage method call m w)
    (hsessions : w.sessions = Effect.replay m w.effects) {slot : Slot} {command : PtyCommand}
    {queue : List PtyCommand} (hidle : w.handler = .idle slot) (hqueue : w.queue = command::queue) :
    Stage method call m
      { w with queue := queue, handler := .busy command (handle multiplexer slot command) } := by
  have hmem (hq : ∀ command ∈ w.queue, command.responder ≠ 0) :
      command.responder ≠ 0 ∧ ∀ other ∈ queue, other.responder ≠ 0 :=
    List.forall_mem_cons.mp (hqueue ▸ hq)
  cases h with
  | absent hc hq hh hr he => exact .absent hc (hmem hq).2 (aside_handle (hmem hq).1 slot) hr he
  | queued before after hc hq ho hh hr he =>
    cases before with
    | nil =>
      obtain ⟨rfl,rfl⟩ := List.cons.inj (hqueue.symm.trans hq)
      obtain ⟨success,failure,uninitialized,hhandle⟩ := handle_command hcall
      cases multiplexer with
      | some multiplexer =>
        exact .started slot success failure hc ho (congrArg _ (hhandle (some multiplexer) slot)) hr he
      | none =>
        refine .executed slot (.failure uninitialized) hc ho (congrArg _ (hhandle none slot)) hr
          (he.trans_le (Nat.zero_le 1)) (.inr ?_)
        exact hsessions.trans (congrArg _ (others_of_ownEffects he).symm)
    | cons first before =>
      obtain ⟨rfl,rfl⟩ := List.cons.inj (hqueue.symm.trans hq)
      exact .queued before after hc rfl (fun other hother => ho other (List.mem_cons_of_mem _ hother))
        (aside_handle (ho command (List.mem_cons_self ..)) slot) hr he
  | started _ _ _ hc hq hh => rw [hidle] at hh; cases hh
  | executed _ _ hc hq hh => rw [hidle] at hh; cases hh
  | replied result hc hq hh hr hall he hres =>
    exact .replied result hc (hmem hq).2 (.inl (aside_handle (hmem hq).1 slot)) hr hall he hres

/-! ### Steps of the handler -/

theorem Stage.table (h : Stage method call m w) (hsessions : w.sessions = Effect.replay m w.effects)
    {command : PtyCommand} {tableCall : TableCall}
    {next : Except String tableCall.Value → HandlerProg Slot} (order : HashOrder UInt32 PtySession)
    (hbusy : w.handler = .busy command (.call (.table tableCall) next)) :
    Stage method call m { w with
      handler := .busy command (next (tableCall.outcome order w.sessions).1)
      sessions := (tableCall.outcome order w.sessions).2
      effects := w.effects ++ [.call command.responder order tableCall] } := by
  by_cases haside : w.handler.Aside
  · have ha : (Handler.busy command (.call (.table tableCall) next)).Aside := hbusy ▸ haside
    have hown : (Effect.call command.responder order tableCall).own = false := by
      simpa [Effect.own] using ha.1
    refine h.frame Iff.rfl rfl (.inr ⟨haside,ha.next _⟩) (fun _ => Iff.rfl) ?_ fun result hr => ?_
    · simp [ownEffects,hown]
    · exact hr.change _ hown rfl rfl
  cases h with
  | absent hc hq hh | queued _ _ hc hq ho hh => exact absurd hh haside
  | started slot success failure hc hq hh hr he =>
    rw [hh] at hbusy
    cases hbusy
    have hone : ownEffects { w with
        effects := w.effects ++ [.call (method.command 0).responder order call] } = 1 := by
      rw [ownEffects] at he
      simp [ownEffects,he,Effect.own,responder_command]
    cases hres : (call.outcome order w.sessions).1 with
    | ok a => exact .executed slot (.success (success a)) hc hq rfl hr hone.le (.inl ⟨_,rfl⟩)
    | error reason =>
      refine .executed slot (.failure (failure reason)) hc hq rfl hr hone.le (.inr ?_)
      -- the call failed, so the table is as before and its effect can go
      change (call.outcome order w.sessions).2 = _
      rw [TableCall.outcome_error hres,Effect.others_concat,others_of_ownEffects he]
      simpa [Effect.own,responder_command] using hsessions
  | executed _ _ hc hq hh => rw [hh] at hbusy; cases hbusy
  | replied result hc hq hh =>
    rcases hh with ha | ⟨slot,hp⟩
    · exact absurd ha haside
    · rw [hp] at hbusy; cases hbusy

theorem Stage.sys (h : Stage method call m w) {command : PtyCommand} {sysCall : Sys}
    {next : sysCall.Res → HandlerProg Slot} (res : sysCall.Res)
    (hbusy : w.handler = .busy command (.call (.sys sysCall) next)) :
    Stage method call m { w with handler := .busy command (next res) } := by
  by_cases haside : w.handler.Aside
  · have ha : (Handler.busy command (.call (.sys sysCall) next)).Aside := hbusy ▸ haside
    exact h.frame Iff.rfl rfl (.inr ⟨haside,ha.next res⟩) (fun _ => Iff.rfl) rfl fun _ hr => hr
  cases h with
  | absent hc hq hh | queued _ _ hc hq ho hh => exact absurd hh haside
  | started _ _ _ hc hq hh | executed _ _ hc hq hh => rw [hh] at hbusy; cases hbusy
  | replied result hc hq hh =>
    rcases hh with ha | ⟨slot,hp⟩
    · exact absurd ha haside
    · rw [hp] at hbusy; cases hbusy

theorem Stage.send (h : Stage method call m w) {command : PtyCommand} {responder : ℕ}
    {result : PtyResult} {next : Unit → HandlerProg Slot}
    (hbusy : w.handler = .busy command (.call (.send responder result) next)) :
    Stage method call m { w with
      handler := .busy command (next ()), replies := w.replies ++ [(responder,result)] } := by
  by_cases haside : w.handler.Aside
  · have ha : (Handler.busy command (.call (.send responder result) next)).Aside := hbusy ▸ haside
    refine h.frame Iff.rfl rfl (.inr ⟨haside,ha.next ()⟩) (fun other => ?_) rfl fun _ hr => hr
    simp [ha.responder_ne.symm]
  cases h with
  | absent hc hq hh | queued _ _ hc hq ho hh => exact absurd hh haside
  | started _ _ _ hc hq hh => rw [hh] at hbusy; cases hbusy
  | executed slot _ hc hq hh hr he hres =>
    rw [hh] at hbusy
    cases hbusy
    refine .replied result hc hq (.inr ⟨slot,rfl⟩) ⟨result,by simp⟩ (fun other ho => ?_) he hres
    rcases List.mem_append.mp ho with ho | ho
    · exact absurd ⟨other,ho⟩ hr
    · simpa using ho
  | replied _ hc hq hh =>
    rcases hh with ha | ⟨slot,hp⟩
    · exact absurd ha haside
    · rw [hp] at hbusy; cases hbusy

theorem Stage.finish (h : Stage method call m w) {command : PtyCommand} {slot : Slot}
    (hbusy : w.handler = .busy command (.pure slot)) :
    Stage method call m { w with handler := if command.isShutdown then .ended else .idle slot } := by
  have hnext : (if command.isShutdown then Handler.ended else .idle slot).Aside := by
    split <;> trivial
  by_cases haside : w.handler.Aside
  · exact h.frame Iff.rfl rfl (.inr ⟨haside,hnext⟩) (fun _ => Iff.rfl) rfl fun _ hr => hr
  cases h with
  | absent hc hq hh | queued _ _ hc hq ho hh => exact absurd hh haside
  | started _ _ _ hc hq hh | executed _ _ hc hq hh => rw [hh] at hbusy; cases hbusy
  | replied result hc hq hh hr hall he hres => exact .replied result hc hq (.inl hnext) hr hall he hres

theorem Stage.abort (h : Stage method call m w) {command : PtyCommand} {message : String}
    (hbusy : w.handler = .busy command (.panic message)) :
    Stage method call m { w with handler := .ended } := by
  by_cases haside : w.handler.Aside
  · exact h.frame Iff.rfl rfl (.inr ⟨haside,trivial⟩) (fun _ => Iff.rfl) rfl fun _ hr => hr
  cases h with
  | absent hc hq hh | queued _ _ hc hq ho hh => exact absurd hh haside
  | started _ _ _ hc hq hh | executed _ _ hc hq hh => rw [hh] at hbusy; cases hbusy
  | replied result hc hq hh hr hall he hres => exact .replied result hc hq (.inl trivial) hr hall he hres

/-! ### Runs -/

theorem start_invariant (slot : Slot) (m : Sessions) : Invariant method call m (start slot m) where
  sessions_eq := rfl
  stage := .absent (.inl rfl) (by simp [start]) trivial (by simp [Answered,start]) rfl
  reply _ h := by cases h
  dropped h := by cases h

theorem step_invariant (hcall : method.call = some call) (h : Step multiplexer method w w')
    (hw : Invariant method call m w) : Invariant method call m w' := by
  obtain ⟨hsessions,hstage,hreply,hdropped⟩ := hw
  have hnot {ending : Ending} (he : ending ≠ .unsent) (hwaiting : w.client = .waiting) :
      (Client.returned ending).Unsent ↔ w.client.Unsent := by
    simp [Client.Unsent,hwaiting,he]
  cases h with
  | submit command hresponder hopen hroom => exact ⟨hsessions,hstage.submit hresponder,hreply,hdropped⟩
  | request hready hopen hroom =>
    exact ⟨hsessions,hstage.request hready,by simp,by simp⟩
  | refuse hready hended =>
    refine ⟨hsessions,?_,by simp,by simp⟩
    exact hstage.frame (by simp [Client.Unsent,hready]) rfl (.inl rfl) (fun _ => Iff.rfl) rfl fun _ hr => hr
  | take hidle hqueue =>
    refine ⟨hsessions,hstage.take hcall hsessions hidle hqueue,hreply,fun hc => ?_⟩
    exact absurd (hidle.symm.trans (hdropped hc).1) (by simp)
  | table order hbusy =>
    refine ⟨?_,hstage.table hsessions order hbusy,hreply,fun hc => ?_⟩
    · rw [Effect.replay_concat,← hsessions]
      rfl
    · exact absurd (hbusy.symm.trans (hdropped hc).1) (by simp)
  | sys res hbusy =>
    refine ⟨hsessions,hstage.sys res hbusy,hreply,fun hc => ?_⟩
    exact absurd (hbusy.symm.trans (hdropped hc).1) (by simp)
  | send hbusy =>
    refine ⟨hsessions,hstage.send hbusy,fun result hc => ?_,fun hc => ?_⟩
    · exact List.mem_append_left _ (hreply result hc)
    · exact absurd (hbusy.symm.trans (hdropped hc).1) (by simp)
  | finish hbusy =>
    refine ⟨hsessions,hstage.finish hbusy,hreply,fun hc => ?_⟩
    exact absurd (hbusy.symm.trans (hdropped hc).1) (by simp)
  | abort hbusy =>
    exact ⟨hsessions,hstage.abort hbusy,hreply,fun hc => ⟨rfl,(hdropped hc).2⟩⟩
  | hangUp hidle hqueue hclient =>
    refine ⟨hsessions,?_,hreply,fun hc => ⟨rfl,(hdropped hc).2⟩⟩
    exact hstage.frame Iff.rfl rfl (.inr ⟨by rw [hidle]; trivial,trivial⟩) (fun _ => Iff.rfl) rfl
      fun _ hr => hr
  | change f =>
    refine ⟨by rw [Effect.replay_concat,← hsessions]; rfl,?_,hreply,hdropped⟩
    refine hstage.frame Iff.rfl rfl (.inl rfl) (fun _ => Iff.rfl) ?_ fun result hr => ?_
    · simp [ownEffects,Effect.own]
    · exact hr.change (.change f) rfl rfl rfl
  | receive hwaiting hmem =>
    refine ⟨hsessions,?_,fun result hc => ?_,by simp⟩
    · exact hstage.frame (hnot (by simp) hwaiting) rfl (.inl rfl) (fun _ => Iff.rfl) rfl fun _ hr => hr
    · cases hc
      exact hmem
  | drop hwaiting hended hnone =>
    refine ⟨hsessions,?_,by simp,fun _ => ⟨hended,fun ⟨result,hr⟩ => hnone result hr⟩⟩
    exact hstage.frame (hnot (by simp) hwaiting) rfl (.inl rfl) (fun _ => Iff.rfl) rfl fun _ hr => hr
  | timeout hwaiting hnone =>
    refine ⟨hsessions,?_,by simp,by simp⟩
    exact hstage.frame (hnot (by simp) hwaiting) rfl (.inl rfl) (fun _ => Iff.rfl) rfl fun _ hr => hr

theorem reachable_invariant (hcall : method.call = some call) {slot : Slot}
    (h : Reachable multiplexer method slot m w) : Invariant method call m w := by
  induction h with
  | refl => exact start_invariant slot m
  | tail _ hstep ih => exact step_invariant hcall hstep ih

/-- A request that returns an error without a timeout and without a success that it cannot decode
leaves the sessions, then and later, as if it had not been made. After a timeout it is executed
at most once. -/
theorem error_sessions (serde : SerdeJson) (multiplexer : Option PtyMultiplexer) (method : Method)
    (call : TableCall) (slot : Slot) (m : Sessions) (w : World) (ending : Ending) (e : NapiError)
    (hcall : method.call = some call) (h : Reachable multiplexer method slot m w)
    (hclient : w.client = .returned ending) (herror : method.returns serde ending = .error e) :
    (ending ≠ .timedOut → (∀ message, ending ≠ .reply (.success message)) →
        w.sessions = Effect.replay m (Effect.others w.effects)) ∧
      (ending = .timedOut → w.sessions = Effect.replay m w.effects ∧ ownEffects w ≤ 1) ∧
      ∀ message, ending = .reply (.success message) → method.repliesPlainly = false := by
  obtain ⟨hsessions,hstage,hreply,hdropped⟩ := reachable_invariant hcall h
  refine ⟨fun htime hsuccess => ?_,?_,?_⟩
  · have hidle (he : ownEffects w = 0) : w.sessions = Effect.replay m (Effect.others w.effects) := by
      rw [others_of_ownEffects he,hsessions]
    cases hstage with
    | absent hc hq hh hr he => exact hidle he
    | queued _ _ hc hq ho hh hr he => exact hidle he
    | started _ _ _ hc hq hh hr he => exact hidle he
    | executed slot result hc hq hh hr he hres =>
      cases ending with
      | unsent => exact absurd (.inr hclient) hc
      | reply other => exact absurd ⟨other,hreply other hclient⟩ hr
      | dropped => exact absurd (hh.symm.trans (hdropped hclient).1) (by simp)
      | timedOut => exact absurd rfl htime
    | replied result hc hq hh hr hall he hres =>
      cases ending with
      | unsent => exact absurd (.inr hclient) hc
      | reply other =>
        obtain rfl := hall other (hreply other hclient)
        rcases hres with ⟨message,rfl⟩ | hres
        · exact absurd rfl (hsuccess message)
        · exact hres
      | dropped => exact absurd hr (hdropped hclient).2
      | timedOut => exact absurd rfl htime
  · rintro rfl
    refine ⟨hsessions,?_⟩
    cases hstage with
    | absent hc hq hh hr he => omega
    | queued _ _ hc hq ho hh hr he => omega
    | started _ _ _ hc hq hh hr he => omega
    | executed _ _ hc hq hh hr he => exact he
    | replied _ hc hq hh hr hall he => exact he
  · rintro message rfl
    cases method with
    | readFromSession sessionId => cases herror
    | removeSession sessionId => cases herror
    | waitpid options => cases hcall
    | _ => rfl

theorem error_sessions_removeSession :
    let ending : Ending := .reply (.failure
      "RemoveSession error: Failed to remove session: GenericFailure, Session ID 7 not found")
    ∃ w : World, w.client = .returned ending ∧
      (ending ≠ .timedOut → (∀ message, ending ≠ .reply (.success message)) →
        w.sessions = Effect.replay .empty (Effect.others w.effects)) :=
  ⟨_,rfl,(error_sessions emptyArrays (some ⟨⟨5,42,"sh"⟩⟩) (.removeSession 7) _ none .empty _ _ _ rfl
    (.tail (.tail (.tail (.tail (.tail .refl
      (.request rfl (by simp [start]) (by simp [start,capacity]))) (.take rfl rfl))
      (.table .sorted rfl)) (.send rfl)) (.receive rfl (List.mem_singleton_self _))) rfl rfl).1⟩

/-- The client has given up and its command creates a session all the same. -/
theorem timedOut_createSession_executed : ∃ w : World,
    Reachable (some ⟨⟨5,42,"sh"⟩⟩) .createSession none .empty w ∧ w.client = .returned .timedOut ∧
      PtyHandle.createSession .timedOut = .error ⟨.unknown,"Create session operation timed out"⟩ ∧
      w.sessions.session? 1 = some ([],[]) ∧
      (Effect.replay .empty (Effect.others w.effects)).session? 1 = none := by
  refine ⟨_,.tail (.tail (.tail (.tail .refl
    (.request rfl (by simp [start]) (by simp [start,capacity]))) (.timeout rfl (by simp [start])))
    (.take rfl rfl)) (.table .sorted rfl),rfl,rfl,?_,?_⟩
  · change (Sessions.empty.insertNew 1 [] []).session? 1 = _
    rw [Sessions.session?_insertNew,if_pos rfl]
  · exact Sessions.session?_empty 1

end Requests
end NodeRustPty
