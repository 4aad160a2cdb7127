import NodeRustPty.Panics
import NodeRustPty.RequestEndings

/-! The clones of a handle: all of them send on one channel, and dropping any one of them
sends `ShutdownPty`. The sessions and the system may answer anything here. -/
namespace NodeRustPty
namespace Clones

open CommandHandler Requests

/-- The methods of a handle. The last five send no command. -/
inductive HandleCall
  | write (data : String)
  | resize (cols rows : UInt16)
  | read
  | execute (command : String)
  | close
  | forceKill
  | waitpid (options : Int32)
  | setEnv (key value : String)
  | createSession
  | closeAllSessions
  | listSessions
  | sendToSession (sessionId : UInt32) (data : Bytes)
  | broadcast (data : Bytes)
  | readFromSession (sessionId : UInt32)
  | readAllSessions
  | removeSession (sessionId : UInt32)
  | mergeSessions (sessionIds : List UInt32)
  | splitSession (sessionId : UInt32)
  | changeShell (shellPath : String)
  | status
  | setLogLevel (level : String)
  | getPid
  | logPid
  | startWorker
  | shutdownWorker

namespace HandleCall

/-- What the method sends. Merging nothing is refused before that. -/
def command (responder : ℕ) : HandleCall → Option PtyCommand
  | .write data => some (.write data.toUTF8.toList responder)
  | .resize cols rows => some (.resize cols rows responder)
  | .read => some (.read responder)
  | .execute command => some (.execute command responder)
  | .close => some (.close responder)
  | .forceKill => some (.forceKill responder)
  | .waitpid options => some (.waitPid options responder)
  | .setEnv key value => some (.setEnv key value responder)
  | .createSession => some (.createSession responder)
  | .closeAllSessions => some (.closeAllSessions responder)
  | .listSessions => some (.listSessions responder)
  | .sendToSession sessionId data => some (.sendToSession sessionId data responder)
  | .broadcast data => some (.broadcast data responder)
  | .readFromSession sessionId => some (.readFromSession sessionId responder)
  | .readAllSessions => some (.readAllSessions responder)
  | .removeSession sessionId => some (.removeSession sessionId responder)
  | .mergeSessions sessionIds =>
    if sessionIds.isEmpty then none else some (.mergeSessions sessionIds responder)
  | .splitSession sessionId => some (.splitSession sessionId responder)
  | .changeShell shellPath => some (.changeShell shellPath responder)
  | .status => some (.status responder)
  | .setLogLevel _ => none
  | .getPid => none
  | .logPid => none
  | .startWorker => none
  | .shutdownWorker => none

/-- After a failure or a timeout these go on with `force_kill`. -/
def fallsBack : HandleCall → Bool
  | .resize _ _ => true
  | .close => true
  | _ => false

end HandleCall

/-- The live handles, the calls of theirs that may still fall back, with their responders, and the
thread of the command handler behind the channel. -/
structure World where
  handles : List ℕ
  awaiting : List (ℕ × ℕ)
  queue : List PtyCommand
  handler : Handler
  replies : List (ℕ × PtyResult)
  fresh : ℕ

/-- After `PtyHandle::new`. -/
def start (process : PtyProcess) : World := ⟨[0],[],[],.idle (some process),[],1⟩

inductive Action
  | clone (handle : ℕ)
  | drop (handle : ℕ)
  | call (handle : ℕ) (method : HandleCall)
  | fallback (handle responder : ℕ)
  | settle (handle responder : ℕ)
  | take
  | sys (call : Sys) (res : call.Res)
  | table (call : TableCall) (res : Except String call.Value)
  | send
  | finish
  | abort
  | hangUp

/-- The channel takes a command: its receiver is there, and it is not full. -/
def World.Open (w : World) : Prop := w.handler ≠ .ended ∧ w.queue.length < capacity

def World.push (w : World) (command : PtyCommand) : World :=
  { w with queue := w.queue ++ [command], fresh := w.fresh+1 }

/-- The call got a failure, or has waited for too long. -/
def World.FallsBack (w : World) (responder : ℕ) : Prop :=
  (∃ message, (responder,.failure message) ∈ w.replies) ∨ ∀ result, (responder,result) ∉ w.replies

inductive Step (multiplexer : Option PtyMultiplexer) : World → Action → World → Prop
  | clone {w : World} {handle : ℕ} (hlive : handle ∈ w.handles) :
      Step multiplexer w (.clone handle) { w with handles := w.fresh::w.handles, fresh := w.fresh+1 }
  /-- A handle that is in use cannot be dropped. -/
  | drop {w : World} {handle : ℕ} (hlive : handle ∈ w.handles)
      (hunused : ∀ responder, (handle,responder) ∉ w.awaiting) (hopen : w.Open) :
      Step multiplexer w (.drop handle)
        ({ w with handles := w.handles.erase handle }.push (.shutdownPty w.fresh))
  | dropClosed {w : World} {handle : ℕ} (hlive : handle ∈ w.handles)
      (hunused : ∀ responder, (handle,responder) ∉ w.awaiting) (hended : w.handler = .ended) :
      Step multiplexer w (.drop handle) { w with handles := w.handles.erase handle }
  | call {w : World} {handle : ℕ} {method : HandleCall} {command : PtyCommand}
      (hlive : handle ∈ w.handles) (hcommand : method.command w.fresh = some command) (hopen : w.Open) :
      Step multiplexer w (.call handle method) ({ w with
        awaiting := if method.fallsBack then (handle,w.fresh)::w.awaiting else w.awaiting }.push command)
  /-- The receiver is gone, or nothing is to be sent. -/
  | callAlone {w : World} {handle : ℕ} {method : HandleCall} (hlive : handle ∈ w.handles)
      (halone : w.handler = .ended ∨ method.command w.fresh = none) :
      Step multiplexer w (.call handle method) w
  | fallback {w : World} {handle responder : ℕ} (hawaiting : (handle,responder) ∈ w.awaiting)
      (hfalls : w.FallsBack responder) (hopen : w.Open) :
      Step multiplexer w (.fallback handle responder)
        ({ w with awaiting := w.awaiting.erase (handle,responder) }.push (.forceKill w.fresh))
  | settle {w : World} {handle responder : ℕ} (hawaiting : (handle,responder) ∈ w.awaiting) :
      Step multiplexer w (.settle handle responder)
        { w with awaiting := w.awaiting.erase (handle,responder) }
  | take {w : World} {slot : Slot} {command : PtyCommand} {queue : List PtyCommand}
      (hidle : w.handler = .idle slot) (hqueue : w.queue = command::queue) :
      Step multiplexer w .take
        { w with queue := queue, handler := .busy command (handle multiplexer slot command) }
  | sys {w : World} {command : PtyCommand} {call : Sys} {next : call.Res → HandlerProg Slot}
      (res : call.Res) (hbusy : w.handler = .busy command (.call (.sys call) next))
      (hparent : call.InParent res) :
      Step multiplexer w (.sys call res) { w with handler := .busy command (next res) }
  | table {w : World} {command : PtyCommand} {call : TableCall}
      {next : Except String call.Value → HandlerProg Slot} (res : Except String call.Value)
      (hbusy : w.handler = .busy command (.call (.table call) next)) :
      Step multiplexer w (.table call res) { w with handler := .busy command (next res) }
  | send {w : World} {command : PtyCommand} {responder : ℕ} {result : PtyResult}
      {next : Unit → HandlerProg Slot}
      (hbusy : w.handler = .busy command (.call (.send responder result) next)) :
      Step multiplexer w .send
        { w with handler := .busy command (next ()), replies := w.replies ++ [(responder,result)] }
  | finish {w : World} {command : PtyCommand} {slot : Slot} (hbusy : w.handler = .busy command (.pure slot)) :
      Step multiplexer w .finish
        { w with handler := if command.isShutdown then .ended else .idle slot }
  | abort {w : World} {command : PtyCommand} {message : String}
      (hbusy : w.handler = .busy command (.panic message)) :
      Step multiplexer w .abort { w with handler := .ended }
  /-- Every sender is gone and the channel is empty. -/
  | hangUp {w : World} {slot : Slot} (hidle : w.handler = .idle slot) (hqueue : w.queue = [])
      (hgone : w.handles = []) : Step multiplexer w .hangUp { w with handler := .ended }

/-- A run whose steps all meet a condition on the state and what is done in it. -/
inductive Run (multiplexer : Option PtyMultiplexer) (condition : World → Action → Prop) :
    World → List Action → World → Prop
  | nil (w : World) : Run multiplexer condition w [] w
  | snoc {w w₁ w₂ : World} {actions : List Action} {action : Action}
      (hrun : Run multiplexer condition w actions w₁) (hcondition : condition w₁ action)
      (hstep : Step multiplexer w₁ action w₂) : Run multiplexer condition w (actions ++ [action]) w₂

/-- The calls after which the process may be taken out of the slot. -/
def Action.kills : Action → Bool
  | .call _ .close => true
  | .call _ .forceKill => true
  | .fallback _ _ => true
  | _ => false

/-- The thread is in its loop and does not unwind. -/
def Running : Handler → Prop
  | .idle _ => True
  | .busy _ (.panic _) => False
  | .busy _ _ => True
  | .ended => False

/-- The process is in the slot, or in use by a command that does not take it and can only
end with a process there. -/
def HoldsProcess : Handler → Prop
  | .idle slot => slot.isSome = true
  | .busy command rest => command.takesProcess = false ∧
    ∀ trace slot', rest.Traces trace slot' → slot'.isSome = true
  | .ended => False

/-- A handle is dropped only when it is the last one, and no answer makes the handler panic. -/
def Careful (w : World) : Action → Prop
  | .drop handle => w.handles = [handle]
  | .sys call res => ∀ command rest, w.handler = .busy command rest → ¬command.Fatal call res
  | _ => True

/-! ### Steps -/

/-- The handler is between two commands with a process in the slot, or comes back to that. -/
def Sound : Handler → Prop
  | .idle slot => slot.isSome = true
  | .busy command rest => command.takesProcess = false ∧
    rest.Completes (Harmless command) (fun slot' => slot'.isSome = true) ∧
    ∀ trace slot', rest.Traces trace slot' → slot'.isSome = true
  | .ended => False

structure Alive (w : World) : Prop where
  queue : ∀ command ∈ w.queue, command.takesProcess = false
  handler : Sound w.handler

variable {multiplexer : Option PtyMultiplexer} {w w' : World} {action : Action}

theorem start_alive (process : PtyProcess) : Alive (start process) :=
  ⟨fun _ h => absurd h List.not_mem_nil,rfl⟩

theorem Alive.sound (h : Alive w) {handler : Handler} (heq : w.handler = handler) : Sound handler :=
  heq ▸ h.handler

theorem Sound.running {handler : Handler} (h : Sound handler) : Running handler := by
  cases handler with
  | idle slot => trivial
  | busy command rest =>
    cases rest with
    | pure slot => trivial
    | call op next => trivial
    | panic message => exact h.2.1
  | ended => exact h

theorem Sound.holdsProcess {handler : Handler} (h : Sound handler) : HoldsProcess handler := by
  cases handler with
  | idle slot => exact h
  | busy command rest => exact ⟨h.1,h.2.2⟩
  | ended => exact h

/-- One more answer that is not fatal. -/
theorem Sound.next {command : PtyCommand} {op : Call} {next : op.Res → HandlerProg Slot}
    (h : Sound (.busy command (.call op next))) (res : op.Res) (hres : Harmless command op res) :
    Sound (.busy command (next res)) := by
  obtain ⟨hcommand,hcompletes,htraces⟩ := h
  have hleaves (trace : Trace) (slot' : Slot) (ht : (next res).Traces trace slot') : slot'.isSome = true :=
    htraces _ _ (.call res ht)
  exact ⟨hcommand,hcompletes res hres,hleaves⟩

/-- A command that a method sends takes the process only in `close` and `force_kill`. -/
theorem command_takesProcess {handle responder : ℕ} {method : HandleCall} {command : PtyCommand}
    (hcommand : method.command responder = some command) (hkills : (Action.call handle method).kills = false) :
    command.takesProcess = false := by
  cases method with
  | close => cases hkills
  | forceKill => cases hkills
  | mergeSessions sessionIds =>
    simp only [HandleCall.command] at hcommand
    split at hcommand
    · cases hcommand
    · cases hcommand
      rfl
  | _ => cases hcommand <;> rfl

theorem Alive.push (h : Alive w) {command : PtyCommand} (hcommand : command.takesProcess = false) :
    ∀ other ∈ w.queue ++ [command], other.takesProcess = false := by
  intro other hother
  rcases List.mem_append.mp hother with hother | hother
  · exact h.queue other hother
  · rw [List.mem_singleton.mp hother]
    exact hcommand

/-- A step keeps the loop alive, unless it is the last handle that goes. -/
theorem Alive.step (h : Alive w) (hcareful : Careful w action) (hkills : action.kills = false)
    (hstep : Step multiplexer w action w') : w'.handles = [] ∨ Alive w' := by
  cases hstep with
  | clone hlive => exact .inr ⟨h.queue,h.handler⟩
  | @drop handle hlive hunused hopen =>
    have hlast : w.handles = [handle] := hcareful
    left
    show w.handles.erase handle = []
    rw [hlast,List.erase_cons_head]
  | dropClosed hlive hunused hended =>
    exact (h.sound hended).elim
  | call hlive hcommand hopen =>
    exact .inr ⟨h.push (command_takesProcess hcommand hkills),h.handler⟩
  | callAlone hlive halone => exact .inr h
  | fallback hawaiting hfalls hopen => cases hkills
  | settle hawaiting => exact .inr ⟨h.queue,h.handler⟩
  | @take slot command queue hidle hqueue =>
    obtain ⟨process,rfl⟩ := Option.isSome_iff_exists.mp (h.sound hidle)
    have hall := h.queue
    rw [hqueue] at hall
    have hcommand := hall command List.mem_cons_self
    have hcompletes := handle_completes multiplexer (some process) command hcommand
    have hleaves (trace : Trace) (slot' : Slot)
        (ht : (handle multiplexer (some process) command).Traces trace slot') : slot'.isSome = true :=
      handle_leaves hcommand ht
    exact .inr ⟨fun other hother => hall other (List.mem_cons_of_mem _ hother),hcommand,hcompletes,hleaves⟩
  | @sys command call next res hbusy hparent =>
    have hfatal := hcareful command _ hbusy
    exact .inr ⟨h.queue,(h.sound hbusy).next res ⟨hparent,hfatal⟩⟩
  | table res hbusy => exact .inr ⟨h.queue,(h.sound hbusy).next res trivial⟩
  | send hbusy => exact .inr ⟨h.queue,(h.sound hbusy).next () trivial⟩
  | @finish command slot hbusy =>
    obtain ⟨hcommand,hcompletes,-⟩ := h.sound hbusy
    have hshutdown : command.isShutdown = false := by cases command <;> first | rfl | cases hcommand
    refine .inr ⟨h.queue,?_⟩
    rw [hshutdown]
    exact hcompletes
  | abort hbusy =>
    exact (h.sound hbusy).2.1.elim
  | hangUp hidle hqueue hgone => exact .inl hgone

/-- Without handles nobody makes new ones. -/
theorem step_handles_nil (hnone : w.handles = []) (hstep : Step multiplexer w action w') : w'.handles = [] := by
  cases hstep with
  | clone hlive | drop hlive _ _ | dropClosed hlive _ _ | call hlive _ _ | callAlone hlive _ =>
    rw [hnone] at hlive
    exact absurd hlive List.not_mem_nil
  | _ => exact hnone

/-! ### Runs -/

theorem Run.alive {process : PtyProcess} {actions : List Action}
    (h : Run multiplexer Careful (start process) actions w) (hkills : ∀ action ∈ actions, action.kills = false) :
    w.handles = [] ∨ Alive w := by
  induction h with
  | nil => exact .inr (start_alive process)
  | snoc hrun hcareful hstep ih =>
    have hbefore := ih fun action haction => hkills action (List.mem_append_left _ haction)
    have hlast := hkills _ (List.mem_append_right _ List.mem_cons_self)
    cases hbefore with
    | inl hnone => exact .inl (step_handles_nil hnone hstep)
    | inr halive => exact halive.step hcareful hlast hstep

/-- In a run without `close` and `force_kill`, whose handles go one by one with the last of them
only at the end and in which nothing makes the handler panic, the loop runs and holds the
process as long as there is a handle. -/
theorem run_alive (multiplexer : Option PtyMultiplexer) (process : PtyProcess) (actions : List Action)
    (w : World) (h : Run multiplexer Careful (start process) actions w)
    (hkills : ∀ action ∈ actions, action.kills = false) (hlive : w.handles ≠ []) :
    Running w.handler ∧ HoldsProcess w.handler := by
  have halive := (h.alive hkills).resolve_left hlive
  exact ⟨halive.handler.running,halive.handler.holdsProcess⟩

/-- A handle is cloned and asks for the status. -/
theorem run_alive_status : Running (.busy (.status 2) (handle none (some ⟨5,42,"sh"⟩) (.status 2))) ∧
    HoldsProcess (.busy (.status 2) (handle none (some ⟨5,42,"sh"⟩) (.status 2))) := by
  have h₀ : Run none Careful (start ⟨5,42,"sh"⟩) [] _ := .nil _
  have h₁ := h₀.snoc (show Careful _ (.clone 0) from trivial) (.clone (show 0 ∈ [0] by decide))
  have h₂ := h₁.snoc (show Careful _ (.call 1 .status) from trivial)
    (.call (show 1 ∈ [1,0] by decide) rfl ⟨by rintro ⟨⟩,by decide⟩)
  have h₃ := h₂.snoc (show Careful _ .take from trivial) (.take rfl rfl)
  exact run_alive none ⟨5,42,"sh"⟩ _ _ h₃ (by decide) (by decide)

/-- A handle is cloned and the clone is dropped. Then the loop has ended, and the first
handle is still there. -/
theorem run_not_alive : ∃ actions w, Run none (fun _ _ => True) (start ⟨5,42,"sh"⟩) actions w ∧
    (∀ action ∈ actions, action.kills = false) ∧ w.handles = [0] ∧ ¬Running w.handler := by
  let zero : Ret := ⟨0,⟨none,""⟩⟩
  have h₀ : Run none (fun _ _ => True) (start ⟨5,42,"sh"⟩) [] _ := .nil _
  have h₁ := h₀.snoc trivial (.clone (show 0 ∈ [0] by decide))
  have h₂ := h₁.snoc trivial (.drop (show 1 ∈ [1,0] by decide) (by rintro _ ⟨⟩) ⟨by rintro ⟨⟩,by decide⟩)
  have h₃ := h₂.snoc trivial (.take rfl rfl)
  have h₄ := h₃.snoc trivial (.sys zero rfl trivial)
  have h₅ := h₄.snoc trivial (.sys zero rfl trivial)
  have h₆ := h₅.snoc trivial (.sys zero rfl trivial)
  have h₇ := h₆.snoc trivial (.send rfl)
  have h₈ := h₇.snoc trivial (.finish rfl)
  exact ⟨_,_,h₈,by decide,by decide,fun h => h⟩

end Clones
end NodeRustPty
