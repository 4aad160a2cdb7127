import NodeRustPty.PtyProcess

/-! Pre- and postconditions for the methods of `PtyProcess`, over any monitor of the system
calls: one rule for each way of building a method. -/
namespace NodeRustPty
namespace ProcessM

variable {State α β : Type} {monitor : Prog.Monitor Sys Sys.Res State}
  {pre pre' : State → PtyProcess → Prop}

/-- From states with `pre` the method makes allowed calls only, and `post` holds of its result. -/
def Triple (monitor : Prog.Monitor Sys Sys.Res State) (pre : State → PtyProcess → Prop)
    (m : ProcessM α) (post : Except IoError α → State → PtyProcess → Prop) : Prop :=
  ∀ state process, pre state process →
    (m process).Respects monitor (fun state' result => post result.1 state' result.2) state

variable {post post' : Except IoError α → State → PtyProcess → Prop}
  {final : Except IoError β → State → PtyProcess → Prop}

theorem Triple.mono {m : ProcessM α} (h : Triple monitor pre m post)
    (hpre : ∀ state process, pre' state process → pre state process)
    (hpost : ∀ result state process, post result state process → post' result state process) :
    Triple monitor pre' m post' := fun state process hp =>
  (h state process (hpre state process hp)).mono
    fun state' (result : Except IoError α × PtyProcess) => hpost result.1 state' result.2

theorem Triple.bind {m : ProcessM α} {f : α → ProcessM β} (hm : Triple monitor pre m post)
    (hok : ∀ a, Triple monitor (post (.ok a)) (f a) final)
    (herror : ∀ e state process, post (.error e) state process → final (.error e) state process) :
    Triple monitor pre (m >>= f) final := by
  intro state process hp
  refine Prog.Respects.bind (hm state process hp) ?_
  rintro state' ⟨result,process'⟩ hr
  cases result with
  | ok a => exact hok a state' process' hr
  | error e => exact herror e state' process' hr

/-- Going on after a method of whose errors nothing is asked. -/
theorem Triple.bind_ok {m : ProcessM α} {f : α → ProcessM β} {ok : α → State → PtyProcess → Prop}
    (hm : Triple monitor pre m fun result state process => ∀ a, result = .ok a → ok a state process)
    (hok : ∀ a, Triple monitor (ok a) (f a) final)
    (herror : ∀ e state process, final (.error e) state process) : Triple monitor pre (m >>= f) final :=
  hm.bind (fun a => (hok a).mono (fun _ _ h => h a rfl) fun _ _ _ h => h)
    fun e state process _ => herror e state process

theorem triple_pure {a : α} (h : ∀ state process, pre state process → post (.ok a) state process) :
    Triple monitor pre (pure a) post := fun state process hp => h state process hp

theorem triple_fail {e : IoError} (h : ∀ state process, pre state process → post (.error e) state process) :
    Triple monitor pre (fail e) post := fun state process hp => h state process hp

theorem triple_abort {message : String} : Triple monitor pre (abort message) post :=
  fun _ _ _ => trivial

theorem triple_self {f : PtyProcess → ProcessM β}
    (h : ∀ process, Triple monitor (fun state p => pre state p ∧ p = process) (f process) final) :
    Triple monitor pre (self >>= f) final := fun state process hp =>
  h process state process ⟨hp,rfl⟩

theorem triple_modify {f : PtyProcess → PtyProcess}
    {post : Except IoError Unit → State → PtyProcess → Prop}
    (h : ∀ state process, pre state process → post (.ok ()) state (f process)) :
    Triple monitor pre (modify f) post := fun state process hp => h state process hp

theorem triple_sys {call : Sys} {post : Except IoError call.Res → State → PtyProcess → Prop}
    (hallows : ∀ state process, pre state process → monitor.allows state call)
    (hanswers : ∀ state process res state', pre state process →
      monitor.answers state call res state' → post (.ok res) state' process) :
    Triple monitor pre (sys call) post := fun state process hp =>
  ⟨hallows state process hp,fun res state' hs => hanswers state process res state' hp hs⟩

/-- The result of a method that goes on as a value. -/
theorem Triple.attempt {m : ProcessM α} {pre' : State → PtyProcess → Prop}
    (hm : Triple monitor pre m fun _ => pre') :
    Triple monitor pre (attempt m) fun _ => pre' := by
  intro state process hp
  refine Prog.Respects.bind (hm state process hp) ?_
  rintro state' ⟨result,process'⟩ hr
  exact hr

theorem triple_check {ret : Ret} {bad : ℤ → Bool}
    {post : Except IoError Unit → State → PtyProcess → Prop}
    (hbad : ∀ state process, pre state process → bad ret.value = true → post (.error ret.error) state process)
    (hgood : ∀ state process, pre state process → bad ret.value = false → post (.ok ()) state process) :
    Triple monitor pre (PtyProcess.check ret bad) post := by
  cases h : bad ret.value with
  | true =>
    rw [PtyProcess.check_bad h]
    exact triple_fail fun state process hp => hbad state process hp h
  | false =>
    rw [PtyProcess.check_good h]
    exact triple_pure fun state process hp => hgood state process hp h

theorem triple_ite {c : Prop} [Decidable c] {m m' : ProcessM α} (h : c → Triple monitor pre m post)
    (h' : ¬c → Triple monitor pre m' post) : Triple monitor pre (if c then m else m') post := by
  split
  · exact h ‹c›
  · exact h' ‹¬c›

end ProcessM
end NodeRustPty
