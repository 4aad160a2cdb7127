import Mathlib

/-! Programs that call their environment and go on with its answer: a tree with one
branch for each answer. A trace is one path, a monitor watches all paths. -/
namespace NodeRustPty

/-- A program over the operations `Op`, whose results have the types `Res`. -/
inductive Prog (Op : Type) (Res : Op → Type) (α : Type)
  | pure (a : α)
  | call (op : Op) (next : Res op → Prog Op Res α)
  | panic (message : String)

/-- A call together with its answer. -/
abbrev Prog.Event (Op : Type) (Res : Op → Type) := (op : Op) × Res op

namespace Prog

variable {Op : Type} {Res : Op → Type} {α β γ : Type}

def bind : Prog Op Res α → (α → Prog Op Res β) → Prog Op Res β
  | .pure a, f => f a
  | .call op next, f => .call op fun res => (next res).bind f
  | .panic message, _ => .panic message

instance : Monad (Prog Op Res) where
  pure := .pure
  bind := bind

/-- The program that makes one call and returns its answer. -/
def perform (op : Op) : Prog Op Res (Res op) := .call op .pure

@[simp] theorem pure_bind' (a : α) (f : α → Prog Op Res β) : (.pure a : Prog Op Res α) >>= f = f a := rfl

@[simp] theorem call_bind (op : Op) (next : Res op → Prog Op Res α) (f : α → Prog Op Res β) :
    (.call op next : Prog Op Res α) >>= f = .call op fun res => next res >>= f := rfl

@[simp] theorem panic_bind (message : String) (f : α → Prog Op Res β) :
    (.panic message : Prog Op Res α) >>= f = .panic message := rfl

@[simp] theorem perform_bind (op : Op) (f : Res op → Prog Op Res β) :
    perform op >>= f = .call op f := rfl

theorem bind_pure' (p : Prog Op Res α) : p >>= Prog.pure = p := by
  induction p with
  | pure a => rfl
  | call op next ih => exact congrArg _ (funext ih)
  | panic message => rfl

theorem bind_assoc' (p : Prog Op Res α) (f : α → Prog Op Res β) (g : β → Prog Op Res γ) :
    p >>= f >>= g = p >>= fun a => f a >>= g := by
  induction p with
  | pure a => rfl
  | call op next ih => exact congrArg _ (funext ih)
  | panic message => rfl

instance : LawfulMonad (Prog Op Res) := .mk' _ bind_pure' (fun _ _ => rfl) bind_assoc'

/-! ### Traces -/

/-- The program returns after these calls and answers. -/
inductive Traces : Prog Op Res α → List (Event Op Res) → α → Prop
  | pure (a : α) : Traces (.pure a) [] a
  | call {op : Op} {next : Res op → Prog Op Res α} {trace : List (Event Op Res)} {a : α}
      (res : Res op) (h : Traces (next res) trace a) : Traces (.call op next) (⟨op,res⟩::trace) a

@[simp] theorem traces_pure {a b : α} {trace : List (Event Op Res)} :
    Traces (.pure a : Prog Op Res α) trace b ↔ trace = [] ∧ a = b := by
  constructor
  · rintro ⟨⟩
    exact ⟨rfl,rfl⟩
  · rintro ⟨rfl,rfl⟩
    exact .pure _

@[simp] theorem traces_panic {message : String} {a : α} {trace : List (Event Op Res)} :
    ¬Traces (.panic message : Prog Op Res α) trace a := by
  rintro ⟨⟩

theorem traces_call {op : Op} {next : Res op → Prog Op Res α} {trace : List (Event Op Res)} {a : α} :
    Traces (.call op next) trace a ↔ ∃ res rest, trace = ⟨op,res⟩::rest ∧ Traces (next res) rest a := by
  constructor
  · rintro ⟨⟩
    exact ⟨_,_,rfl,‹_›⟩
  · rintro ⟨res,rest,rfl,h⟩
    exact .call res h

theorem Traces.bind {p : Prog Op Res α} {f : α → Prog Op Res β} {first second : List (Event Op Res)}
    {a : α} {b : β} (hp : Traces p first a) (hf : Traces (f a) second b) :
    Traces (p >>= f) (first ++ second) b := by
  induction hp with
  | pure a => exact hf
  | call res _ ih => exact .call res (ih hf)

theorem traces_bind {p : Prog Op Res α} {f : α → Prog Op Res β} {trace : List (Event Op Res)} {b : β} :
    Traces (p >>= f) trace b ↔
      ∃ first a second, trace = first ++ second ∧ Traces p first a ∧ Traces (f a) second b := by
  constructor
  · intro h
    induction p generalizing trace with
    | pure a => exact ⟨[],a,trace,rfl,.pure a,h⟩
    | call op next ih =>
      obtain ⟨res,rest,rfl,hrest⟩ := traces_call.mp h
      obtain ⟨first,a,second,rfl,hp,hf⟩ := ih res hrest
      exact ⟨⟨op,res⟩::first,a,second,rfl,.call res hp,hf⟩
    | panic message => exact absurd h traces_panic
  · rintro ⟨first,a,second,rfl,hp,hf⟩
    exact hp.bind hf

/-- The answers decide the result. -/
theorem Traces.unique {p : Prog Op Res α} {trace : List (Event Op Res)} {a b : α}
    (ha : Traces p trace a) (hb : Traces p trace b) : a = b := by
  induction ha with
  | pure a => exact (traces_pure.mp hb).2
  | call res _ ih =>
    obtain ⟨res',rest,heq,hrest⟩ := traces_call.mp hb
    cases heq
    exact ih hrest

/-- The program comes to an end after these calls and answers: it returns, or it panics. -/
inductive Ends : Prog Op Res α → List (Event Op Res) → Option α → Prop
  | pure (a : α) : Ends (.pure a) [] (some a)
  | panic (message : String) : Ends (.panic message) [] none
  | call {op : Op} {next : Res op → Prog Op Res α} {trace : List (Event Op Res)} {ending : Option α}
      (res : Res op) (h : Ends (next res) trace ending) : Ends (.call op next) (⟨op,res⟩::trace) ending

theorem ends_some {p : Prog Op Res α} {trace : List (Event Op Res)} {a : α} :
    Ends p trace (some a) ↔ Traces p trace a := by
  constructor
  · generalize hending : some a = ending
    intro h
    induction h with
    | pure b =>
      obtain rfl := Option.some.inj hending
      exact .pure a
    | panic message => exact absurd hending (Option.some_ne_none a)
    | call res _ ih => exact .call res (ih hending)
  · intro h
    induction h with
    | pure a => exact .pure a
    | call res _ ih => exact .call res ih

/-- A program goes on where another has returned, and ends where that one panics. -/
theorem ends_bind {p : Prog Op Res α} {f : α → Prog Op Res β} {trace : List (Event Op Res)} {ending : Option β}
    (h : Ends (p >>= f) trace ending) : Ends p trace none ∧ ending = none ∨
      ∃ first a second, trace = first ++ second ∧ Traces p first a ∧ Ends (f a) second ending := by
  induction p generalizing trace with
  | pure a => exact .inr ⟨[],a,trace,rfl,.pure a,h⟩
  | panic message =>
    cases h
    exact .inl ⟨.panic message,rfl⟩
  | call op next ih =>
    cases h with
    | call res h =>
      rcases ih res h with ⟨hpanic,rfl⟩ | ⟨first,a,second,rfl,hp,hf⟩
      · exact .inl ⟨.call res hpanic,rfl⟩
      · exact .inr ⟨⟨op,res⟩::first,a,second,rfl,.call res hp,hf⟩

/-- On every path, each call is an allowed one. -/
def Calls (allowed : Op → Prop) : Prog Op Res α → Prop
  | .pure _ => True
  | .call op next => allowed op ∧ ∀ res, Calls allowed (next res)
  | .panic _ => True

section Calls

variable {allowed : Op → Prop}

theorem Calls.bind {p : Prog Op Res α} {f : α → Prog Op Res β} (hp : Calls allowed p)
    (hf : ∀ a, Calls allowed (f a)) : Calls allowed (p >>= f) := by
  induction p with
  | pure a => exact hf a
  | call op next ih => exact ⟨hp.1,fun res => ih res (hp.2 res)⟩
  | panic message => trivial

theorem Calls.ends {p : Prog Op Res α} {trace : List (Event Op Res)} {ending : Option α}
    (hp : Calls allowed p) (h : Ends p trace ending) : ∀ event ∈ trace, allowed event.1 := by
  induction h with
  | pure a => exact fun event hevent => absurd hevent List.not_mem_nil
  | panic message => exact fun event hevent => absurd hevent List.not_mem_nil
  | call res _ ih => exact List.forall_mem_cons.mpr ⟨hp.1,ih (hp.2 res)⟩

end Calls

/-! ### Programs that do not panic -/

/-- As long as all answers are allowed ones no path panics, and a path that returns ends as
`post` says. -/
def Completes (allowed : (op : Op) → Res op → Prop) (post : α → Prop) : Prog Op Res α → Prop
  | .pure a => post a
  | .call op next => ∀ res, allowed op res → Completes allowed post (next res)
  | .panic _ => False

section Completes

variable {allowed : (op : Op) → Res op → Prop} {post : α → Prop}

theorem Completes.mono {post' : α → Prop} (h : ∀ a, post a → post' a) {p : Prog Op Res α}
    (hp : Completes allowed post p) : Completes allowed post' p := by
  induction p with
  | pure a => exact h a hp
  | call op next ih => exact fun res hres => ih res (hp res hres)
  | panic message => exact hp

theorem Completes.bind {p : Prog Op Res α} {f : α → Prog Op Res β} {final : β → Prop}
    (hp : Completes allowed post p) (hf : ∀ a, post a → Completes allowed final (f a)) :
    Completes allowed final (p >>= f) := by
  induction p with
  | pure a => exact hf a hp
  | call op next ih => exact fun res hres => ih res (hp res hres)
  | panic message => exact hp.elim

/-- On allowed answers the program returns. -/
theorem Completes.ends {p : Prog Op Res α} {trace : List (Event Op Res)} {ending : Option α}
    (hp : Completes allowed post p) (h : Ends p trace ending)
    (hallowed : ∀ event ∈ trace, allowed event.1 event.2) : ∃ a, ending = some a ∧ post a := by
  induction h with
  | pure a => exact ⟨a,rfl,hp⟩
  | panic message => exact hp.elim
  | call res _ ih =>
    obtain ⟨hres,hrest⟩ := List.forall_mem_cons.mp hallowed
    exact ih (hp res hres) hrest

end Completes

/-! ### Programs over some of the operations -/

section Hoist

variable {Op' : Type} {Res' : Op' → Type} (f : Op → Op') (back : ∀ op, Res' (f op) → Res op)

/-- The same program, its calls renamed into a larger set of operations. -/
def hoist : Prog Op Res α → Prog Op' Res' α
  | .pure a => .pure a
  | .call op next => .call (f op) fun res => hoist (next (back op res))
  | .panic message => .panic message

theorem hoist_bind (p : Prog Op Res α) (g : α → Prog Op Res β) :
    (p >>= g).hoist f back = p.hoist f back >>= fun a => (g a).hoist f back := by
  induction p with
  | pure a => rfl
  | call op next ih => exact congrArg _ (funext fun res => ih (back op res))
  | panic message => rfl

/-- A path of the renamed program, whose answers can be told from what it goes on with. -/
theorem traces_hoist (forth : ∀ op, Res op → Res' (f op)) (hforth : ∀ op res, forth op (back op res) = res)
    {p : Prog Op Res α} {trace : List (Event Op' Res')} {a : α} (h : Traces (p.hoist f back) trace a) :
    ∃ trace', Traces p trace' a ∧ trace = trace'.map fun event => ⟨f event.1,forth event.1 event.2⟩ := by
  induction p generalizing trace with
  | pure b =>
    obtain ⟨rfl,rfl⟩ := traces_pure.mp h
    exact ⟨[],.pure b,rfl⟩
  | call op next ih =>
    obtain ⟨res,rest,rfl,hrest⟩ := traces_call.mp h
    obtain ⟨trace',htrace,rfl⟩ := ih _ hrest
    exact ⟨⟨op,back op res⟩::trace',.call _ htrace,by rw [List.map_cons,hforth]⟩
  | panic message => exact absurd h traces_panic

theorem calls_hoist {allowed' : Op' → Prop} (hallowed : ∀ op, allowed' (f op)) (p : Prog Op Res α) :
    Calls allowed' (p.hoist f back) := by
  induction p with
  | pure a => trivial
  | call op next ih => exact ⟨hallowed op,fun res => ih _⟩
  | panic message => trivial

theorem Completes.hoist {allowed : (op : Op) → Res op → Prop} {allowed' : (op : Op') → Res' op → Prop}
    {post : α → Prop} {p : Prog Op Res α} (hallowed : ∀ op res, allowed' (f op) res → allowed op (back op res))
    (hp : Completes allowed post p) : Completes allowed' post (p.hoist f back) := by
  induction p with
  | pure a => exact hp
  | call op next ih => exact fun res hres => ih _ (hp _ (hallowed op res hres))
  | panic message => exact hp

end Hoist

/-! ### Monitors -/

/-- What may be called in a state, and which answers lead to which states. -/
structure Monitor (Op : Type) (Res : Op → Type) (State : Type) where
  allows : State → Op → Prop
  answers : State → (op : Op) → Res op → State → Prop

section Respects

variable {State : Type} (monitor : Monitor Op Res State)

/-- On every path each call is allowed, and a path that returns ends as `post` says. -/
def Respects (post : State → α → Prop) : State → Prog Op Res α → Prop
  | state, .pure a => post state a
  | state, .call op next => monitor.allows state op ∧
    ∀ res state', monitor.answers state op res state' → Respects post state' (next res)
  | _, .panic _ => True

variable {monitor}

theorem Respects.mono {post post' : State → α → Prop} (h : ∀ state a, post state a → post' state a)
    {p : Prog Op Res α} {state : State} (hp : Respects monitor post state p) :
    Respects monitor post' state p := by
  induction p generalizing state with
  | pure a => exact h state a hp
  | call op next ih => exact ⟨hp.1,fun res state' hs => ih res (hp.2 res state' hs)⟩
  | panic message => trivial

theorem Respects.bind {p : Prog Op Res α} {f : α → Prog Op Res β} {middle : State → α → Prop}
    {post : State → β → Prop} {state : State} (hp : Respects monitor middle state p)
    (hf : ∀ state a, middle state a → Respects monitor post state (f a)) :
    Respects monitor post state (p >>= f) := by
  induction p generalizing state with
  | pure a => exact hf state a hp
  | call op next ih => exact ⟨hp.1,fun res state' hs => ih res (hp.2 res state' hs)⟩
  | panic message => trivial

/-- A program whose calls are all allowed and change nothing. -/
theorem Respects.of_idle {state : State} (h : ∀ op, monitor.allows state op ∧
    ∀ res state', monitor.answers state op res state' → state' = state) (p : Prog Op Res α) :
    Respects monitor (fun state' _ => state' = state) state p := by
  induction p with
  | pure a => rfl
  | call op next ih =>
    refine ⟨(h op).1,fun res state' hs => ?_⟩
    rw [(h op).2 res state' hs]
    exact ih res
  | panic message => trivial

/-- A hoisted program respects a monitor that knows its calls and allows more. -/
theorem Respects.hoist {Op' : Type} {Res' : Op' → Type} {monitor' : Monitor Op' Res' State}
    {f : Op → Op'} {back : ∀ op, Res' (f op) → Res op} {post : State → α → Prop} {p : Prog Op Res α}
    {state : State} (hallows : ∀ state op, monitor.allows state op → monitor'.allows state (f op))
    (hanswers : ∀ state op res state', monitor'.answers state (f op) res state' →
      monitor.answers state op (back op res) state')
    (hp : Respects monitor post state p) : Respects monitor' post state (p.hoist f back) := by
  induction p generalizing state with
  | pure a => exact hp
  | call op next ih =>
    refine ⟨hallows state op hp.1,fun res state' hs => ?_⟩
    exact ih _ (hp.2 _ state' (hanswers state op res state' hs))
  | panic message => trivial

/-- A monitor that allows some operations and writes down what it sees. -/
def Monitor.recorder (allowed : Op → Prop) (record : State → Event Op Res → State) : Monitor Op Res State where
  allows _ op := allowed op
  answers state op res state' := state' = record state ⟨op,res⟩

/-- On a path the monitor is where its records lead. -/
theorem Respects.recorded {allowed : Op → Prop} {record : State → Event Op Res → State}
    {post : State → α → Prop} {p : Prog Op Res α} {state : State} {trace : List (Event Op Res)} {a : α}
    (hp : Respects (.recorder allowed record) post state p) (ht : Traces p trace a) :
    (∀ event ∈ trace, allowed event.1) ∧ post (trace.foldl record state) a := by
  induction ht generalizing state with
  | pure a => exact ⟨by simp,hp⟩
  | call res _ ih =>
    obtain ⟨hallowed,hpost⟩ := ih (hp.2 res _ rfl)
    exact ⟨List.forall_mem_cons.mpr ⟨hp.1,hallowed⟩,hpost⟩

end Respects

end Prog
end NodeRustPty
