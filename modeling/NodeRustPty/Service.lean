import NodeRustPty.HashOrder
import NodeRustPty.Interaction

/-! A thread that takes commands from a bounded channel, runs a program for each of them and
answers on the responder of the command, and any number of clients that call it, wait and
give up. Every history of the calls agrees with one loop over the commands of the channel. -/
namespace NodeRustPty

/-! ### Unfinished runs of a program -/

namespace Prog

variable {Op : Type} {Res : Op → Type} {α β : Type}

/-- These calls and answers lead from a program to what is left of it. -/
inductive Reaches : Prog Op Res α → List (Event Op Res) → Prog Op Res α → Prop
  | refl (p : Prog Op Res α) : Reaches p [] p
  | call {op : Op} {next : Res op → Prog Op Res α} {trace : List (Event Op Res)} {rest : Prog Op Res α}
      (res : Res op) (h : Reaches (next res) trace rest) : Reaches (.call op next) (⟨op,res⟩::trace) rest

variable {p rest : Prog Op Res α} {trace : List (Event Op Res)}

theorem Reaches.concat {op : Op} {next : Res op → Prog Op Res α} (h : Reaches p trace (.call op next))
    (res : Res op) : Reaches p (trace ++ [⟨op,res⟩]) (next res) := by
  generalize hrest : Prog.call op next = rest at h
  induction h with
  | refl p =>
    subst hrest
    exact .call res (.refl _)
  | call answer _ ih => exact .call answer (ih hrest)

theorem Reaches.bind (h : Reaches p trace rest) (f : α → Prog Op Res β) :
    Reaches (p >>= f) trace (rest >>= f) := by
  induction h with
  | refl p => exact .refl _
  | call res _ ih => exact .call res ih

theorem reaches_pure {a : α} : Reaches p trace (.pure a) ↔ Traces p trace a := by
  constructor
  · intro h
    generalize hrest : Prog.pure a = rest at h
    induction h with
    | refl p => exact hrest ▸ .pure a
    | call res _ ih => exact .call res (ih hrest)
  · intro h
    induction h with
    | pure a => exact .refl _
    | call res _ ih => exact .call res ih

/-- As long as the answers of a path lead where `record` does, each of its calls is one that the
monitor allows there. -/
theorem Respects.reaches {State : Type} {monitor : Monitor Op Res State} {record : State → Event Op Res → State}
    {post : State → α → Prop} {state : State} (hp : p.Respects monitor post state) (h : p.Reaches trace rest)
    (hrecord : ∀ state, ∀ event ∈ trace, monitor.answers state event.1 event.2 (record state event))
    {before after : List (Event Op Res)} {event : Event Op Res} (hsplit : trace = before ++ event::after) :
    monitor.allows (before.foldl record state) event.1 := by
  induction h generalizing state before with
  | refl p => simp at hsplit
  | @call op next trace rest res _ ih =>
    obtain ⟨hallows,hnext⟩ := hp
    cases before with
    | nil =>
      obtain ⟨rfl,-⟩ := List.cons_eq_cons.mp hsplit
      exact hallows
    | cons first before =>
      obtain ⟨rfl,htail⟩ := List.cons_eq_cons.mp hsplit
      exact ih (hnext res _ (hrecord state _ List.mem_cons_self))
        (fun state other hother => hrecord state other (.tail _ hother)) htail

end Prog

/-! ### What the programs call -/

/-- The answers that a call may get, and what changes without a call. -/
structure Environment (Op : Type) (Res : Op → Type) (World : Type) where
  answers : World → (op : Op) → Res op → World → Prop
  changes : World → World → Prop

namespace Environment

variable {Op : Type} {Res : Op → Type} {World : Type}

/-- All answers of a trace are answers of the environment, in this order. -/
inductive Explains (environment : Environment Op Res World) (first : World) :
    List (Prog.Event Op Res) → World → Prop
  | refl : Explains environment first [] first
  | change {trace : List (Prog.Event Op Res)} {world world' : World}
      (h : Explains environment first trace world) (hchange : environment.changes world world') :
      Explains environment first trace world'
  | answer {trace : List (Prog.Event Op Res)} {world world' : World} {op : Op} {res : Res op}
      (h : Explains environment first trace world) (hanswer : environment.answers world op res world') :
      Explains environment first (trace ++ [⟨op,res⟩]) world'

/-- Seen through `view` an answer is one of another environment, with changes around it. -/
structure Simulates {View : Type} (environment : Environment Op Res World) (abstract : Environment Op Res View)
    (view : World → View) : Prop where
  answers : ∀ {world : World} {op : Op} {res : Res op} {world' : World},
    environment.answers world op res world' → ∃ first last,
      Relation.ReflTransGen abstract.changes (view world) first ∧ abstract.answers first op res last ∧
      Relation.ReflTransGen abstract.changes last (view world')
  changes : ∀ {world world' : World}, environment.changes world world' →
    Relation.ReflTransGen abstract.changes (view world) (view world')

theorem Explains.changes {environment : Environment Op Res World} {first world world' : World}
    {trace : List (Prog.Event Op Res)} (h : environment.Explains first trace world)
    (hchanges : Relation.ReflTransGen environment.changes world world') :
    environment.Explains first trace world' := by
  induction hchanges with
  | refl => exact h
  | tail _ hchange ih => exact ih.change hchange

theorem Explains.view {View : Type} {environment : Environment Op Res World} {abstract : Environment Op Res View}
    {view : World → View} (hview : environment.Simulates abstract view) {first world : World}
    {trace : List (Prog.Event Op Res)} (h : environment.Explains first trace world) :
    abstract.Explains (view first) trace (view world) := by
  induction h with
  | refl => exact .refl
  | change _ hchange ih => exact ih.changes (hview.changes hchange)
  | answer _ hanswer ih =>
    obtain ⟨before,after,hbefore,hanswer,hafter⟩ := hview.answers hanswer
    exact ((ih.changes hbefore).answer hanswer).changes hafter

end Environment

/-! ### The service -/

/-- How a call of a client ends. -/
inductive CallEnding (ρ : Type)
  | unsent
  | reply (result : ρ)
  | dropped
  | timedOut
  deriving DecidableEq

/-- What the clients see: a call with its command, and the return of the call that waits on
a responder. -/
inductive Occurrence (κ ρ : Type)
  | called (command : κ)
  | returned (responder : ℕ) (ending : CallEnding ρ)
  deriving DecidableEq

/-- A loop that runs `serve` for each command until one that ends it. `reply` reads the
results that a call sends on a responder. -/
structure Service (Op : Type) (Res : Op → Type) (σ κ ρ : Type) where
  responder : κ → ℕ
  serve : σ → κ → Prog Op Res σ
  reply : Op → Option (ℕ × ρ)
  ends : κ → Bool
  capacity : ℕ

namespace Service

variable {Op : Type} {Res : Op → Type} {σ κ ρ World : Type}

/-- The plain loop over a list of commands. -/
def loop (service : Service Op Res σ κ ρ) (s : σ) : List κ → Prog Op Res σ
  | [] => .pure s
  | command::commands => do
    let s ← service.serve s command
    if service.ends command then pure s else loop service s commands

/-- What a trace sends, on which responder. -/
def replies (service : Service Op Res σ κ ρ) (trace : List (Prog.Event Op Res)) : List (ℕ × ρ) :=
  trace.filterMap fun event => service.reply event.1

/-- The thread of the loop: between two commands, in one of them, or over. -/
inductive Thread (Op : Type) (Res : Op → Type) (σ κ : Type)
  | idle (s : σ)
  | busy (command : κ) (rest : Prog Op Res σ)
  | ended

/-- The channel, the thread, its environment, and three records: what the clients saw, what
the channel took and what the thread called. -/
structure State (Op : Type) (Res : Op → Type) (σ κ ρ World : Type) where
  queue : List κ
  thread : Thread Op Res σ κ
  world : World
  history : List (Occurrence κ ρ)
  accepted : List κ
  log : List (Prog.Event Op Res)

def start (s : σ) (world : World) : State Op Res σ κ ρ World := ⟨[],.idle s,world,[],[],[]⟩

/-- The call is over. -/
def State.Returned (state : State Op Res σ κ ρ World) (responder : ℕ) : Prop :=
  ∃ ending, .returned responder ending ∈ state.history

/-- The call has its command and has not handed it to the channel. -/
structure State.Calling (service : Service Op Res σ κ ρ) (state : State Op Res σ κ ρ World)
    (command : κ) : Prop where
  called : .called command ∈ state.history
  unsent : command ∉ state.accepted
  unreturned : ¬state.Returned (service.responder command)

/-- The call waits for its result. -/
structure State.Waiting (service : Service Op Res σ κ ρ) (state : State Op Res σ κ ρ World)
    (command : κ) : Prop where
  sent : command ∈ state.accepted
  unreturned : ¬state.Returned (service.responder command)

section

variable (service : Service Op Res σ κ ρ) (environment : Environment Op Res World)

inductive Step : State Op Res σ κ ρ World → State Op Res σ κ ρ World → Prop
  /-- Every call has a responder of its own. -/
  | call {state : State Op Res σ κ ρ World} (command : κ)
      (hfresh : ∀ other, .called other ∈ state.history →
        service.responder other ≠ service.responder command) :
      Step state { state with history := state.history ++ [.called command] }
  | submit {state : State Op Res σ κ ρ World} {command : κ} (hcalling : state.Calling service command)
      (hopen : state.thread ≠ .ended) (hroom : state.queue.length < service.capacity) :
      Step state { state with
        queue := state.queue ++ [command], accepted := state.accepted ++ [command] }
  | refuse {state : State Op Res σ κ ρ World} {command : κ} (hcalling : state.Calling service command)
      (hended : state.thread = .ended) :
      Step state { state with history := state.history ++ [.returned (service.responder command) .unsent] }
  | take {state : State Op Res σ κ ρ World} {s : σ} {command : κ} {queue : List κ}
      (hidle : state.thread = .idle s) (hqueue : state.queue = command::queue) :
      Step state { state with queue := queue, thread := .busy command (service.serve s command) }
  | operate {state : State Op Res σ κ ρ World} {command : κ} {op : Op} {next : Res op → Prog Op Res σ}
      {res : Res op} {world : World} (hbusy : state.thread = .busy command (.call op next))
      (hanswer : environment.answers state.world op res world) :
      Step state { state with
        thread := .busy command (next res), world := world, log := state.log ++ [⟨op,res⟩] }
  | finish {state : State Op Res σ κ ρ World} {command : κ} {s : σ}
      (hbusy : state.thread = .busy command (.pure s)) :
      Step state { state with thread := if service.ends command then .ended else .idle s }
  | abort {state : State Op Res σ κ ρ World} {command : κ} {message : String}
      (hbusy : state.thread = .busy command (.panic message)) : Step state { state with thread := .ended }
  /-- No sender is left. -/
  | hangUp {state : State Op Res σ κ ρ World} {s : σ} (hidle : state.thread = .idle s)
      (hqueue : state.queue = []) : Step state { state with thread := .ended }
  | change {state : State Op Res σ κ ρ World} {world : World} (hchange : environment.changes state.world world) :
      Step state { state with world := world }
  | receive {state : State Op Res σ κ ρ World} {command : κ} {result : ρ}
      (hwaiting : state.Waiting service command)
      (hreply : (service.responder command,result) ∈ service.replies state.log) :
      Step state { state with
        history := state.history ++ [.returned (service.responder command) (.reply result)] }
  | drop {state : State Op Res σ κ ρ World} {command : κ} (hwaiting : state.Waiting service command)
      (hended : state.thread = .ended)
      (hnone : ∀ result, (service.responder command,result) ∉ service.replies state.log) :
      Step state { state with history := state.history ++ [.returned (service.responder command) .dropped] }
  /-- The client may give up at any time. -/
  | timeout {state : State Op Res σ κ ρ World} {command : κ} (hwaiting : state.Waiting service command) :
      Step state { state with history := state.history ++ [.returned (service.responder command) .timedOut] }

abbrev Reachable (s : σ) (world : World) : State Op Res σ κ ρ World → Prop :=
  Relation.ReflTransGen (Step service environment) (start s world)

end

/-! ### The thread is a plain loop -/

/-- How far the thread is with the commands it took, and what it called. -/
inductive Progress (service : Service Op Res σ κ ρ) (s : σ) :
    List κ → List (Prog.Event Op Res) → Thread Op Res σ κ → Prop
  | start : Progress service s [] [] (.idle s)
  | take {taken : List κ} {log : List (Prog.Event Op Res)} {s' : σ} (command : κ)
      (h : Progress service s taken log (.idle s')) :
      Progress service s (taken ++ [command]) log (.busy command (service.serve s' command))
  | operate {taken : List κ} {log : List (Prog.Event Op Res)} {command : κ} {op : Op}
      {next : Res op → Prog Op Res σ} (res : Res op)
      (h : Progress service s taken log (.busy command (.call op next))) :
      Progress service s taken (log ++ [⟨op,res⟩]) (.busy command (next res))
  | next {taken : List κ} {log : List (Prog.Event Op Res)} {command : κ} {s' : σ}
      (hends : service.ends command = false)
      (h : Progress service s taken log (.busy command (.pure s'))) : Progress service s taken log (.idle s')
  | stop {taken : List κ} {log : List (Prog.Event Op Res)} {thread : Thread Op Res σ κ}
      (h : Progress service s taken log thread) : Progress service s taken log .ended

variable {service : Service Op Res σ κ ρ} {environment : Environment Op Res World} {s : σ}

/-- What is left of the loop when these commands are still to come. -/
def Thread.Leaves (service : Service Op Res σ κ ρ) (commands : List κ) (rest : Prog Op Res σ) :
    Thread Op Res σ κ → Prop
  | .idle s => rest = service.loop s commands
  | .busy command p =>
    rest = p >>= fun s => if service.ends command then pure s else service.loop s commands
  | .ended => True

theorem Progress.reaches {taken : List κ} {log : List (Prog.Event Op Res)} {thread : Thread Op Res σ κ}
    (h : Progress service s taken log thread) (commands : List κ) :
    ∃ rest, (service.loop s (taken ++ commands)).Reaches log rest ∧ thread.Leaves service commands rest := by
  induction h generalizing commands with
  | start => exact ⟨_,.refl _,rfl⟩
  | take command _ ih =>
    obtain ⟨rest,hreaches,hrest⟩ := ih (command::commands)
    rw [List.append_assoc]
    exact ⟨rest,hreaches,hrest⟩
  | operate res _ ih =>
    obtain ⟨rest,hreaches,hrest⟩ := ih commands
    obtain rfl := hrest
    exact ⟨_,hreaches.concat res,rfl⟩
  | next hends _ ih =>
    obtain ⟨rest,hreaches,hrest⟩ := ih commands
    refine ⟨rest,hreaches,hrest.trans ?_⟩
    simp [hends]
  | stop _ ih =>
    obtain ⟨rest,hreaches,-⟩ := ih commands
    exact ⟨rest,hreaches,trivial⟩

/-! ### Replies -/

/-- A handler sends at most one result, on the responder of its command, and one when it
comes to its end. -/
structure AnswersOnce (service : Service Op Res σ κ ρ) : Prop where
  upTo : ∀ {s : σ} {command : κ} {trace : List (Prog.Event Op Res)} {rest : Prog Op Res σ},
    (service.serve s command).Reaches trace rest →
      (service.replies trace).map Prod.fst <+: [service.responder command]
  whole : ∀ {s s' : σ} {command : κ} {trace : List (Prog.Event Op Res)},
    (service.serve s command).Traces trace s' →
      (service.replies trace).map Prod.fst = [service.responder command]

theorem replies_append (first second : List (Prog.Event Op Res)) :
    service.replies (first ++ second) = service.replies first ++ service.replies second :=
  List.filterMap_append

/-- The replies are those to the commands before, and those of the handler that runs. -/
def Thread.Sent (service : Service Op Res σ κ ρ) (taken : List κ) (log : List (Prog.Event Op Res)) :
    Thread Op Res σ κ → Prop
  | .idle _ => (service.replies log).map Prod.fst = taken.map service.responder
  | .busy command p => ∃ before s earlier trace, taken = before ++ [command] ∧ log = earlier ++ trace ∧
    (service.replies earlier).map Prod.fst = before.map service.responder ∧
    (service.serve s command).Reaches trace p
  | .ended => (service.replies log).map Prod.fst <+: taken.map service.responder

theorem Thread.Sent.isPrefix (hanswers : service.AnswersOnce) {taken : List κ}
    {log : List (Prog.Event Op Res)} {thread : Thread Op Res σ κ} (h : thread.Sent service taken log) :
    (service.replies log).map Prod.fst <+: taken.map service.responder := by
  cases thread with
  | idle s => exact h ▸ List.prefix_rfl
  | ended => exact h
  | busy command p =>
    obtain ⟨before,s,earlier,trace,rfl,rfl,hearlier,hreaches⟩ := h
    rw [replies_append,List.map_append,List.map_append,hearlier]
    exact (List.prefix_append_right_inj _).mpr (hanswers.upTo hreaches)

theorem Progress.sent (hanswers : service.AnswersOnce) {taken : List κ} {log : List (Prog.Event Op Res)}
    {thread : Thread Op Res σ κ} (h : Progress service s taken log thread) :
    thread.Sent service taken log := by
  induction h with
  | start => rfl
  | @take taken log s' command _ ih =>
    exact ⟨taken,s',log,[],rfl,(List.append_nil log).symm,ih,.refl _⟩
  | operate res _ ih =>
    obtain ⟨before,s',earlier,trace,htaken,rfl,hearlier,hreaches⟩ := ih
    exact ⟨before,s',earlier,_,htaken,List.append_assoc ..,hearlier,hreaches.concat res⟩
  | next hends _ ih =>
    obtain ⟨before,s',earlier,trace,rfl,rfl,hearlier,hreaches⟩ := ih
    change (service.replies (earlier ++ trace)).map Prod.fst = (before ++ [_]).map service.responder
    rw [replies_append,List.map_append,List.map_append,hearlier,
      hanswers.whole (Prog.reaches_pure.mp hreaches)]
    rfl
  | stop _ ih => exact ih.isPrefix hanswers

/-! ### Histories -/

theorem pair_sublist_concat {α : Type} {a b x : α} {l : List α} :
    [a,b].Sublist (l ++ [x]) ↔ [a,b].Sublist l ∨ a ∈ l ∧ b = x := by
  constructor
  · intro h
    obtain ⟨first,second,heq,hfirst,hsecond⟩ := List.sublist_append_iff.mp h
    rcases List.sublist_singleton.mp hsecond with rfl | rfl
    · left
      rwa [heq,List.append_nil]
    · have hsplit : [a] ++ [b] = first ++ [x] := heq
      obtain ⟨rfl,hb⟩ := List.append_inj' hsplit rfl
      exact .inr ⟨List.singleton_sublist.mp hfirst,by simpa using hb⟩
  · rintro (h | ⟨ha,rfl⟩)
    · exact h.trans (List.sublist_append_left _ _)
    · exact (List.singleton_sublist.mpr ha).append (List.Sublist.refl [b])

/-- One order of commands explains a history of calls. Its commands are run by the loop, each
of them at most once, and every reply is what this run sends. A call that could not be sent has no
part in it, every other call that has returned has, and a call that returned before another one began
stands before it. -/
structure Linearizes (service : Service Op Res σ κ ρ) (environment : Environment Op Res World) (s : σ)
    (world : World) (history : List (Occurrence κ ρ)) (order : List κ)
    (trace : List (Prog.Event Op Res)) : Prop where
  nodup : (order.map service.responder).Nodup
  called : ∀ command ∈ order, .called command ∈ history
  run : ∃ rest, (service.loop s order).Reaches trace rest
  explained : ∃ world', environment.Explains world trace world'
  replied : ∀ responder result, .returned responder (.reply result) ∈ history →
    (service.replies trace).filter (fun reply => reply.1 = responder) = [(responder,result)]
  refused : ∀ responder, .returned responder .unsent ∈ history → responder ∉ order.map service.responder
  sent : ∀ responder ending, .returned responder ending ∈ history → ending ≠ .unsent →
    responder ∈ order.map service.responder
  realTime : ∀ first ∈ order, ∀ second ∈ order, ∀ ending,
    [.returned (service.responder first) ending,.called second].Sublist history →
      [first,second].Sublist order

theorem Linearizes.view {View : Type} {service : Service Op Res σ κ ρ}
    {environment : Environment Op Res World} {abstract : Environment Op Res View} {view : World → View}
    (hview : environment.Simulates abstract view) {s : σ} {world : World} {history : List (Occurrence κ ρ)}
    {order : List κ} {trace : List (Prog.Event Op Res)}
    (h : Linearizes service environment s world history order trace) :
    Linearizes service abstract s (view world) history order trace where
  nodup := h.nodup
  called := h.called
  run := h.run
  explained := by
    obtain ⟨world',hexplained⟩ := h.explained
    exact ⟨view world',hexplained.view hview⟩
  replied := h.replied
  refused := h.refused
  sent := h.sent
  realTime := h.realTime

/-- What holds in every reachable state. -/
structure Invariant (service : Service Op Res σ κ ρ) (environment : Environment Op Res World) (s : σ)
    (world : World) (state : State Op Res σ κ ρ World) : Prop where
  progress : ∃ taken, state.accepted = taken ++ state.queue ∧ Progress service s taken state.log state.thread
  explained : environment.Explains world state.log state.world
  distinct : ∀ first second, .called first ∈ state.history → .called second ∈ state.history →
    service.responder first = service.responder second → first = second
  nodup : (state.accepted.map service.responder).Nodup
  called : ∀ command ∈ state.accepted, .called command ∈ state.history
  replied : ∀ responder result, .returned responder (.reply result) ∈ state.history →
    (responder,result) ∈ service.replies state.log
  refused : ∀ responder, .returned responder .unsent ∈ state.history →
    responder ∉ state.accepted.map service.responder
  sent : ∀ responder ending, .returned responder ending ∈ state.history → ending ≠ .unsent →
    responder ∈ state.accepted.map service.responder
  realTime : ∀ first ∈ state.accepted, ∀ second ∈ state.accepted, ∀ ending,
    [.returned (service.responder first) ending,.called second].Sublist state.history →
      [first,second].Sublist state.accepted

variable {world : World} {state state' : State Op Res σ κ ρ World}

theorem Invariant.start : Invariant service environment s world (start s world) where
  progress := ⟨[],rfl,.start⟩
  explained := .refl
  distinct := by simp [Service.start]
  nodup := List.nodup_nil
  called := by simp [Service.start]
  replied := by simp [Service.start]
  refused := by simp [Service.start]
  sent := by simp [Service.start]
  realTime := by simp [Service.start]

/-- A call whose command did not go into the channel is not there under its responder either. -/
theorem Invariant.unsent_responder (h : Invariant service environment s world state) {command : κ}
    (hcalling : state.Calling service command) :
    service.responder command ∉ state.accepted.map service.responder := by
  intro hmem
  obtain ⟨other,hother,hresponder⟩ := List.mem_map.mp hmem
  exact hcalling.unsent (h.distinct _ _ (h.called other hother) hcalling.called hresponder ▸ hother)

/-- The thread goes on, or its environment changes. -/
theorem Invariant.work (h : Invariant service environment s world state) (taken queue : List κ)
    {thread : Thread Op Res σ κ} {world' : World} (events : List (Prog.Event Op Res))
    (hqueue : state.accepted = taken ++ queue)
    (hprogress : Progress service s taken (state.log ++ events) thread)
    (hexplained : environment.Explains world (state.log ++ events) world') :
    Invariant service environment s world { state with
      queue := queue, thread := thread, world := world', log := state.log ++ events } where
  progress := ⟨taken,hqueue,hprogress⟩
  explained := hexplained
  distinct := h.distinct
  nodup := h.nodup
  called := h.called
  replied responder result hreturned := by
    rw [replies_append]
    exact List.mem_append_left _ (h.replied responder result hreturned)
  refused := h.refused
  sent := h.sent
  realTime := h.realTime

/-- A call returns. -/
theorem Invariant.return (h : Invariant service environment s world state) {responder : ℕ}
    {ending : CallEnding ρ} (hreplied : ∀ result, ending = .reply result →
      (responder,result) ∈ service.replies state.log)
    (hrefused : ending = .unsent → responder ∉ state.accepted.map service.responder)
    (hsent : ending ≠ .unsent → responder ∈ state.accepted.map service.responder) :
    Invariant service environment s world { state with
      history := state.history ++ [.returned responder ending] } where
  progress := h.progress
  explained := h.explained
  distinct first second hfirst hsecond := h.distinct first second (by simpa using hfirst) (by simpa using hsecond)
  nodup := h.nodup
  called command hcommand := List.mem_append_left _ (h.called command hcommand)
  replied other result hreturned := by
    rcases List.mem_append.mp hreturned with hreturned | hreturned
    · exact h.replied other result hreturned
    · obtain ⟨rfl,rfl⟩ : other = responder ∧ .reply result = ending := by simpa using hreturned
      exact hreplied result rfl
  refused other hreturned := by
    rcases List.mem_append.mp hreturned with hreturned | hreturned
    · exact h.refused other hreturned
    · obtain ⟨rfl,rfl⟩ : other = responder ∧ .unsent = ending := by simpa using hreturned
      exact hrefused rfl
  sent other ending' hreturned hne := by
    rcases List.mem_append.mp hreturned with hreturned | hreturned
    · exact h.sent other ending' hreturned hne
    · obtain ⟨rfl,rfl⟩ : other = responder ∧ ending' = ending := by simpa using hreturned
      exact hsent hne
  realTime first hfirst second hsecond ending' hbefore := by
    rcases pair_sublist_concat.mp hbefore with hbefore | ⟨-,heq⟩
    · exact h.realTime first hfirst second hsecond ending' hbefore
    · cases heq

theorem Invariant.call (h : Invariant service environment s world state) {command : κ}
    (hfresh : ∀ other, .called other ∈ state.history → service.responder other ≠ service.responder command) :
    Invariant service environment s world { state with history := state.history ++ [.called command] } where
  progress := h.progress
  explained := h.explained
  distinct first second hfirst hsecond hresponder := by
    rcases List.mem_append.mp hfirst with hfirst | hfirst <;>
      rcases List.mem_append.mp hsecond with hsecond | hsecond
    · exact h.distinct first second hfirst hsecond hresponder
    · obtain heq : second = command := by simpa using hsecond
      exact absurd (heq ▸ hresponder) (hfresh first hfirst)
    · obtain heq : first = command := by simpa using hfirst
      exact absurd (heq ▸ hresponder).symm (hfresh second hsecond)
    · have hfirst : first = command := by simpa using hfirst
      exact hfirst.trans (by simpa using hsecond : second = command).symm
  nodup := h.nodup
  called other hother := List.mem_append_left _ (h.called other hother)
  replied responder result hreturned := h.replied responder result (by simpa using hreturned)
  refused responder hreturned := h.refused responder (by simpa using hreturned)
  sent responder ending hreturned := h.sent responder ending (by simpa using hreturned)
  realTime first hfirst second hsecond ending hbefore := by
    rcases pair_sublist_concat.mp hbefore with hbefore | ⟨-,heq⟩
    · exact h.realTime first hfirst second hsecond ending hbefore
    · obtain rfl : second = command := by simpa using heq
      exact absurd rfl (hfresh second (h.called second hsecond))

theorem Invariant.submit (h : Invariant service environment s world state) {command : κ}
    (hcalling : state.Calling service command) :
    Invariant service environment s world { state with
      queue := state.queue ++ [command], accepted := state.accepted ++ [command] } where
  progress := by
    obtain ⟨taken,haccepted,hprogress⟩ := h.progress
    exact ⟨taken,by rw [haccepted,List.append_assoc],hprogress⟩
  explained := h.explained
  distinct := h.distinct
  nodup := by
    rw [List.map_append]
    exact h.nodup.append (List.nodup_singleton _) (by simpa using h.unsent_responder hcalling)
  called other hother := by
    rcases List.mem_append.mp hother with hother | hother
    · exact h.called other hother
    · obtain rfl : other = command := by simpa using hother
      exact hcalling.called
  replied := h.replied
  refused responder hreturned hmem := by
    rw [List.map_append] at hmem
    rcases List.mem_append.mp hmem with hmem | hmem
    · exact h.refused responder hreturned hmem
    · obtain rfl : responder = service.responder command := by simpa using hmem
      exact hcalling.unreturned ⟨_,hreturned⟩
  sent responder ending hreturned hne := by
    rw [List.map_append]
    exact List.mem_append_left _ (h.sent responder ending hreturned hne)
  realTime first hfirst second hsecond ending hbefore := by
    have hreturned : .returned (service.responder first) ending ∈ state.history :=
      hbefore.subset List.mem_cons_self
    rcases List.mem_append.mp hfirst with hfirst | hfirst
    · rcases List.mem_append.mp hsecond with hsecond | hsecond
      · exact (h.realTime first hfirst second hsecond ending hbefore).trans (List.sublist_append_left _ _)
      · exact pair_sublist_concat.mpr (.inr ⟨hfirst,by simpa using hsecond⟩)
    · -- the command only now goes into the channel, so its call has not returned
      obtain rfl : first = command := by simpa using hfirst
      exact absurd ⟨_,hreturned⟩ hcalling.unreturned

theorem Invariant.step (h : Invariant service environment s world state)
    (hstep : Step service environment state state') : Invariant service environment s world state' := by
  obtain ⟨taken,hqueue,hprogress⟩ := h.progress
  have hlog := List.append_nil state.log
  cases hstep with
  | call command hfresh => exact h.call hfresh
  | submit hcalling hopen hroom => exact h.submit hcalling
  | refuse hcalling hended =>
    exact h.return (by simp) (fun _ => h.unsent_responder hcalling) (by simp)
  | @take s' command queue hidle hhead =>
    have := h.work (taken ++ [command]) queue []
      (by rw [hqueue,hhead,List.append_assoc]; rfl) (.take command (by rw [hlog,← hidle]; exact hprogress))
      (by rw [hlog]; exact h.explained)
    simpa only [List.append_nil] using this
  | operate hbusy hanswer =>
    exact h.work taken _ [_] hqueue (.operate _ (hbusy ▸ hprogress)) (.answer h.explained hanswer)
  | @finish command s' hbusy =>
    have hthread : Progress service s taken (state.log ++ [])
        (if service.ends command then .ended else .idle s') := by
      rw [hlog]
      cases hends : service.ends command with
      | true => exact .stop hprogress
      | false => exact .next hends (hbusy ▸ hprogress)
    have := h.work taken _ [] hqueue hthread (by rw [hlog]; exact h.explained)
    simpa only [List.append_nil] using this
  | abort hbusy | hangUp hidle hempty =>
    have := h.work taken _ [] hqueue (.stop (by rw [hlog]; exact hprogress)) (by rw [hlog]; exact h.explained)
    simpa only [List.append_nil] using this
  | change hchange =>
    have := h.work taken _ [] hqueue (by rw [hlog]; exact hprogress)
      (by rw [hlog]; exact h.explained.change hchange)
    simpa only [List.append_nil] using this
  | receive hwaiting hreply =>
    refine h.return ?_ (by simp) fun _ => List.mem_map_of_mem hwaiting.sent
    rintro result heq
    cases heq
    exact hreply
  | drop hwaiting hended hnone =>
    exact h.return (by simp) (by simp) fun _ => List.mem_map_of_mem hwaiting.sent
  | timeout hwaiting => exact h.return (by simp) (by simp) fun _ => List.mem_map_of_mem hwaiting.sent

theorem Reachable.invariant (h : Reachable service environment s world state) :
    Invariant service environment s world state := by
  induction h with
  | refl => exact .start
  | tail _ hstep ih => exact ih.step hstep

/-- Whatever the clients, the thread and the environment do, the order of the channel explains
what the clients have seen. -/
theorem Reachable.linearizes (hanswers : service.AnswersOnce)
    (h : Reachable service environment s world state) :
    Linearizes service environment s world state.history state.accepted state.log := by
  have hinv := Reachable.invariant h
  obtain ⟨taken,hqueue,hprogress⟩ := hinv.progress
  obtain ⟨rest,hreaches,-⟩ := hprogress.reaches state.queue
  have hreplies : ((service.replies state.log).map Prod.fst).Nodup := by
    refine List.Nodup.sublist ?_ hinv.nodup
    rw [hqueue,List.map_append]
    exact ((hprogress.sent hanswers).isPrefix hanswers).sublist.trans (List.sublist_append_left _ _)
  exact {
    nodup := hinv.nodup
    called := hinv.called
    run := ⟨rest,hqueue ▸ hreaches⟩
    explained := ⟨_,hinv.explained⟩
    replied := fun responder result hreturned =>
      filter_eq_singleton hreplies (hinv.replied responder result hreturned)
    refused := hinv.refused
    sent := hinv.sent
    realTime := hinv.realTime }

/-! ### No call is lost -/

/-- A step without the clients. -/
def Inner (service : Service Op Res σ κ ρ) (environment : Environment Op Res World)
    (state state' : State Op Res σ κ ρ World) : Prop :=
  Step service environment state state' ∧ state'.history = state.history ∧ state'.accepted = state.accepted

/-- The thread is over, or waits at an empty channel. -/
def State.Settled (state : State Op Res σ κ ρ World) : Prop :=
  state.thread = .ended ∨ (∃ s, state.thread = .idle s) ∧ state.queue = []

abbrev InnerRun (service : Service Op Res σ κ ρ) (environment : Environment Op Res World) :
    State Op Res σ κ ρ World → State Op Res σ κ ρ World → Prop :=
  Relation.ReflTransGen (Inner service environment)

theorem InnerRun.accepted (h : InnerRun service environment state state') :
    state'.history = state.history ∧ state'.accepted = state.accepted := by
  induction h with
  | refl => exact ⟨rfl,rfl⟩
  | tail _ hstep ih => exact ⟨hstep.2.1.trans ih.1,hstep.2.2.trans ih.2⟩

/-- The thread is over for a reason: it answered a command that ends it and all before that, every
sender was gone, or a command panicked. -/
def State.Over (service : Service Op Res σ κ ρ) (s : σ) (state : State Op Res σ κ ρ World) : Prop :=
  (∃ taken, state.accepted = taken ++ state.queue ∧
    (service.replies state.log).map Prod.fst = taken.map service.responder ∧
    (state.queue = [] ∨ ∃ command, taken.getLast? = some command ∧ service.ends command = true)) ∨
  ∃ message, (service.loop s state.accepted).Reaches state.log (.panic message)

end Service
end NodeRustPty
