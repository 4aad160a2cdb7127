import NodeRustPty.ShellForks

/-! What `change_shell` leaves behind on every path, on Linux and on macOS: the process value, the
descriptors, and the program that the child executes. -/
namespace NodeRustPty
namespace ShellM

abbrev Event := Prog.Event ShellSys ShellSys.Res

abbrev Trace := List Event

/-- How a process ends: its result, or the message of its panic. -/
abbrev Ending (α : Type) := Except String α

abbrev ProcessEnd := Ending (Outcome Unit × PtyProcess)

/-- The calls of a process until its end, and for each of its forks the calls and the end of the
child, which goes on with the answer 0. -/
inductive Runs {α : Type} : Prog ShellSys ShellSys.Res α → Trace → Ending α → List (Trace × Ending α) → Prop
  | pure (a : α) : Runs (.pure a) [] (.ok a) []
  | panic (message : String) : Runs (.panic message) [] (.error message) []
  | call {op : ShellSys} {next : op.Res → Prog ShellSys ShellSys.Res α} {trace : Trace} {ending : Ending α}
      {children : List (Trace × Ending α)} (res : op.Res) (hop : op ≠ .sys .fork)
      (h : Runs (next res) trace ending children) : Runs (.call op next) (⟨op,res⟩::trace) ending children
  | unforked {next : Ret → Prog ShellSys ShellSys.Res α} {trace : Trace} {ending : Ending α}
      {children : List (Trace × Ending α)} (ret : Ret) (hret : ret.value = -1)
      (h : Runs (next ret) trace ending children) :
      Runs (.call (.sys .fork) next) (⟨.sys .fork,ret⟩::trace) ending children
  | forked {next : Ret → Prog ShellSys ShellSys.Res α} {trace own : Trace} {ending childEnding : Ending α}
      {children : List (Trace × Ending α)} (ret zero : Ret) (hret : 0 < ret.value) (hzero : zero.value = 0)
      (hchild : Runs (next zero) own childEnding []) (h : Runs (next ret) trace ending children) :
      Runs (.call (.sys .fork) next) (⟨.sys .fork,ret⟩::trace) ending ((own,childEnding)::children)

section Runs

variable {α β : Type} {trace : Trace} {ending : Ending α} {children : List (Trace × Ending α)}

theorem runs_pure {a : α} (h : Runs (.pure a) trace ending children) :
    trace = [] ∧ ending = .ok a ∧ children = [] := by
  cases h
  exact ⟨rfl,rfl,rfl⟩

theorem runs_panic {message : String} (h : Runs (.panic message) trace ending children) :
    trace = [] ∧ ending = .error message ∧ children = [] := by
  cases h
  exact ⟨rfl,rfl,rfl⟩

theorem runs_call {op : ShellSys} {next : op.Res → Prog ShellSys ShellSys.Res α} (hop : op ≠ .sys .fork)
    (h : Runs (.call op next) trace ending children) :
    ∃ res rest, trace = ⟨op,res⟩::rest ∧ Runs (next res) rest ending children := by
  cases h with
  | call res _ h => exact ⟨res,_,rfl,h⟩
  | unforked ret _ h => exact absurd rfl hop
  | forked ret zero _ _ _ h => exact absurd rfl hop

theorem runs_fork {next : Ret → Prog ShellSys ShellSys.Res α} (h : Runs (.call (.sys .fork) next) trace ending children) :
    ∃ (ret : Ret) (rest : Trace), trace = ⟨.sys .fork,ret⟩::rest ∧
      (ret.value = -1 ∧ Runs (next ret) rest ending children ∨
      0 < ret.value ∧ ∃ (zero : Ret) (own : Trace) (childEnding : Ending α) (later : List (Trace × Ending α)),
        zero.value = 0 ∧ Runs (next zero) own childEnding [] ∧ children = (own,childEnding)::later ∧
        Runs (next ret) rest ending later) := by
  cases h with
  | call res hop h => exact absurd rfl hop
  | unforked ret hret h => exact ⟨ret,_,rfl,.inl ⟨hret,h⟩⟩
  | forked ret zero hret hzero hchild h => exact ⟨ret,_,rfl,.inr ⟨hret,zero,_,_,_,hzero,hchild,rfl,h⟩⟩

/-- The program makes no child and does not panic, and `post` holds of its calls and its result. -/
def Ensures : Prog ShellSys ShellSys.Res α → (Trace → α → Prop) → Prop
  | .pure a,post => post [] a
  | .call op next,post => op ≠ .sys .fork ∧ ∀ res, Ensures (next res) fun trace a => post (⟨op,res⟩::trace) a
  | .panic _,_ => False

theorem Ensures.runs {p : Prog ShellSys ShellSys.Res β} {post : Trace → β → Prop}
    {f : β → Prog ShellSys ShellSys.Res α} (hp : Ensures p post) (h : Runs (p >>= f) trace ending children) :
    ∃ first b second, trace = first ++ second ∧ post first b ∧ Runs (f b) second ending children := by
  induction p generalizing trace post with
  | pure b => exact ⟨[],b,trace,rfl,hp,h⟩
  | call op next ih =>
    obtain ⟨res,rest,rfl,hrest⟩ := runs_call hp.1 h
    obtain ⟨first,b,second,rfl,hpost,hsecond⟩ := ih res (hp.2 res) hrest
    exact ⟨⟨op,res⟩::first,b,second,rfl,hpost,hsecond⟩
  | panic message => exact hp.elim

end Runs

/-! ### Descriptors -/

/-- What is outside: which answers of `close` mean that the descriptor is gone, and which program
a path names. -/
structure Kernel where
  releases : Ret → Bool
  releases_of_zero : ∀ ret, ret.value = 0 → releases ret = true
  program : String → ℕ

/-- The descriptors that a call has opened. -/
def opens : Event → List ℤ
  | ⟨.sys .posixOpenpt,ret⟩ => if ret.value < 0 then [] else [ret.value]
  | ⟨.sys (.openSlave _),ret⟩ => if ret.value < 0 then [] else [ret.value]
  | ⟨.openpty,(ret,masterFd,slaveFd)⟩ => if ret.value = 0 then [masterFd,slaveFd] else []
  | _ => []

namespace Kernel

variable (kernel : Kernel)

/-- The descriptors of a process after a call. -/
def record (fds : List ℤ) : Event → List ℤ
  | ⟨.sys (.close fd),ret⟩ => if kernel.releases ret then fds.filter (· ≠ fd) else fds
  | event => fds ++ opens event

/-- The descriptors that were opened and not closed again. -/
def opened (trace : Trace) : List ℤ := trace.foldl kernel.record []

/-- The kernel gives out no descriptor that is open. -/
def Fresh (fds : List ℤ) : Trace → Prop
  | [] => True
  | event::rest => (fds ++ opens event).Nodup ∧ Fresh (kernel.record fds event) rest

/-- The descriptor was closed, whatever is open under its number later. -/
def Released (fd : ℤ) (trace : Trace) : Prop := ∃ ret : Ret, ⟨.sys (.close fd),ret⟩ ∈ trace ∧ kernel.releases ret = true

variable {kernel}

theorem fresh_append {fds : List ℤ} {first second : Trace} : kernel.Fresh fds (first ++ second) ↔
    kernel.Fresh fds first ∧ kernel.Fresh (first.foldl kernel.record fds) second := by
  induction first generalizing fds with
  | nil => simp [Fresh]
  | cons event rest ih => rw [List.cons_append,Fresh,Fresh,ih,List.foldl_cons,and_assoc]

end Kernel

/-- A run of a method. -/
structure Run (kernel : Kernel) (method : ShellM Unit) (process : PtyProcess) where
  trace : Trace
  ending : ProcessEnd
  children : List (Trace × ProcessEnd)
  runs : Runs (method process) trace ending children
  fresh : kernel.Fresh [] trace

/-! ### The law -/

section Law

variable (kernel : Kernel) (process : PtyProcess) (shellPath : String)

/-- The process has become the program that the path names. -/
def Executes (ending : ProcessEnd) : Prop := ∃ path args now,
  ending = .ok (.executes path args,now) ∧ kernel.program path = kernel.program shellPath

/-- A success is a new terminal with a new child that executes the shell, an error has changed
nothing, and there is no panic. -/
def Lawful {method : ShellM Unit} (run : Run kernel method process) : Prop := match run.ending with
  | .ok (.ok (),now) => now.masterFd ∈ kernel.opened run.trace ∧
    (∃ ret : Ret, ⟨.sys .fork,ret⟩ ∈ run.trace ∧ ret.value = now.pid) ∧ now.command = shellPath ∧
    ∃ child, run.children = [child] ∧ Executes kernel shellPath child.2
  | .ok (.error _,now) => now = process ∧ ¬kernel.Released process.masterFd run.trace
  | _ => False

/-- The signal fails, or the close fails and leaves the descriptor open. -/
def Refused : Trace → Prop
  | ⟨.sys (.kill _ _),killed⟩::rest => killed.value ≠ 0 ∨ match rest with
    | _::⟨.sys (.close _),closed⟩::_ => closed.value ≠ 0 ∧ kernel.releases closed = false
    | _ => False
  | _ => False

/-- The calls of a child on which it does not give up. -/
def Succeeds : Event → Prop
  | ⟨.setsid,ret⟩ => 0 ≤ ret.value
  | ⟨.sys (.setWinsize _ _ _),ret⟩ => 0 ≤ ret.value
  | ⟨.dup2 _ _,ret⟩ => 0 ≤ ret.value
  | ⟨.execle _ _,answer⟩ => answer = none
  | _ => True

/-- The fork succeeds, and so do the calls of the child. -/
def Started {method : ShellM Unit} (run : Run kernel method process) : Prop :=
  ∃ child ∈ run.children, ∀ event ∈ child.1, Succeeds event

end Law

/-! ### Opening a terminal -/

/-- The process is as it was, and the two descriptors are different and the first is open. -/
def Opened (process : PtyProcess) (trace : Trace) (result : Outcome (ℤ × ℤ) × PtyProcess) : Prop :=
  result.2 = process ∧ match result.1 with
    | .ok fds => ∀ kernel : Kernel, kernel.Fresh [] trace → fds.1 ∈ kernel.opened trace ∧ fds.1 ≠ fds.2
    | .error _ => True
    | _ => False

theorem ensures_failOpen {process : PtyProcess} {post : Trace → Outcome (ℤ × ℤ) × PtyProcess → Prop} (fd : ℤ) (e : IoError)
    (h : ∀ trace e, post trace (.error e,process)) : Ensures (onSystem (PtyProcess.failOpen fd e) process) post :=
  ⟨nofun,fun _ => h _ _⟩

theorem ensures_openNewPty (process : PtyProcess) : Ensures (Linux.openNewPty process) (Opened process) := by
  have herror (trace : Trace) (e : IoError) : Opened process trace (.error e,process) := ⟨rfl,trivial⟩
  refine ⟨nofun,fun (opened : Ret) => ?_⟩
  change Ensures (onSystem (PtyProcess.check opened (· < 0) >>= _) process) _
  by_cases hopened : opened.value < 0
  · rw [PtyProcess.check_bad (by simpa using hopened)]
    exact ⟨rfl,trivial⟩
  rw [PtyProcess.check_good (by simpa using hopened)]
  refine ⟨nofun,fun (granted : Ret) => ?_⟩
  change Ensures (onSystem (if granted.value ≠ 0 then _ else _) process) _
  split
  · exact ensures_failOpen _ _ fun _ _ => herror _ _
  refine ⟨nofun,fun (unlocked : Ret) => ?_⟩
  change Ensures (onSystem (if unlocked.value ≠ 0 then _ else _) process) _
  split
  · exact ensures_failOpen _ _ fun _ _ => herror _ _
  refine ⟨nofun,fun (named : Ret × Option String) => ?_⟩
  change Ensures (onSystem (if named.1.value = 0 then _ else _) process) _
  split
  · exact ensures_failOpen _ _ fun _ _ => herror _ _
  obtain ⟨ret,slaveName⟩ := named
  cases slaveName with
  | none => exact ⟨rfl,trivial⟩
  | some slaveName =>
    refine ⟨nofun,fun (slave : Ret) => ?_⟩
    change Ensures (onSystem (if slave.value < 0 then _ else _) process) _
    split
    · exact ensures_failOpen _ _ fun _ _ => herror _ _
    · next hslave =>
      refine ⟨rfl,fun kernel hfresh => ?_⟩
      simp only [Kernel.Fresh,Kernel.record,opens,hopened,hslave] at hfresh
      simp [Kernel.opened,Kernel.record,opens,hopened,hslave] at hfresh ⊢
      exact hfresh

theorem ensures_openPty (process : PtyProcess) : Ensures (Macos.openPty process) (Opened process) := by
  refine ⟨nofun,fun (answer : Ret × ℤ × ℤ) => ?_⟩
  obtain ⟨ret,masterFd,slaveFd⟩ := answer
  change Ensures ((if ret.value ≠ 0 then _ else _ : ShellM (ℤ × ℤ)) process) _
  split
  · exact ⟨rfl,trivial⟩
  next hopened =>
  refine ⟨nofun,fun (master : Ret) => ?_⟩
  change Ensures ((if master.value ≠ 0 then _ else _ : ShellM (ℤ × ℤ)) process) _
  split
  · exact ⟨rfl,trivial⟩
  refine ⟨nofun,fun (slave : Ret) => ?_⟩
  change Ensures ((if slave.value ≠ 0 then _ else _ : ShellM (ℤ × ℤ)) process) _
  split
  · exact ⟨rfl,trivial⟩
  refine ⟨nofun,fun (flags : Ret) => ?_⟩
  change Ensures ((if flags.value < 0 then _ else _ : ShellM (ℤ × ℤ)) process) _
  split
  · exact ⟨rfl,trivial⟩
  refine ⟨nofun,fun (set : Ret) => ?_⟩
  change Ensures ((if set.value < 0 then _ else _ : ShellM (ℤ × ℤ)) process) _
  split
  · exact ⟨rfl,trivial⟩
  · refine ⟨rfl,fun kernel hfresh => ?_⟩
    simp only [not_not] at hopened
    simp [Kernel.Fresh,Kernel.opened,Kernel.record,opens,hopened] at hfresh ⊢
    exact hfresh

/-! ### The child -/

/-- A call of the child fails and the child exits, or none does and `post` holds of its end. -/
def Prepares (m : ShellM Unit) (post : ProcessEnd → Prop) : Prop :=
  ∀ process own ending children, Runs (m process) own ending children →
    ((∃ event ∈ own, ¬Succeeds event) ∧ ∃ now, ending = .ok (.exits 1,now)) ∨
      (∀ event ∈ own, Succeeds event) ∧ post ending

section Child

variable {post : ProcessEnd → Prop}

theorem Prepares.call {m : PtyProcess → Prog ShellSys ShellSys.Res (Outcome Unit × PtyProcess)} {process : PtyProcess}
    {call : ShellSys} {res : call.Res} {rest : Trace} {ending : ProcessEnd}
    {children : List (Trace × ProcessEnd)} (h : Prepares m post) (hsucceeds : Succeeds ⟨call,res⟩)
    (hruns : Runs (m process) rest ending children) :
    ((∃ event ∈ ⟨call,res⟩::rest, ¬Succeeds event) ∧ ∃ now, ending = .ok (.exits 1,now)) ∨
      (∀ event ∈ ⟨call,res⟩::rest, Succeeds event) ∧ post ending := by
  rcases h _ _ _ _ hruns with ⟨⟨event,hmem,hfails⟩,hexits⟩ | ⟨hall,hpost⟩
  · exact .inl ⟨⟨event,List.mem_cons_of_mem _ hmem,hfails⟩,hexits⟩
  · exact .inr ⟨List.forall_mem_cons.mpr ⟨hsucceeds,hall⟩,hpost⟩

theorem prepares_demand {call : ShellSys} {value : call.Res → ℤ} {f : Unit → ShellM Unit} (hop : call ≠ .sys .fork)
    (hvalue : ∀ res, Succeeds ⟨call,res⟩ ↔ 0 ≤ value res) (h : Prepares (f ()) post) :
    Prepares (demand call value >>= f) post := by
  intro process own ending children hruns
  obtain ⟨res,rest,rfl,hrest⟩ := runs_call hop hruns
  change Runs (((if value res < 0 then exit 1 else pure () : ShellM Unit) >>= f) process) rest ending children at hrest
  by_cases hbad : value res < 0
  · rw [if_pos hbad] at hrest
    obtain ⟨rfl,rfl,rfl⟩ := runs_pure hrest
    refine .inl ⟨⟨_,List.mem_cons_self,?_⟩,process,rfl⟩
    rw [hvalue]
    omega
  · rw [if_neg hbad] at hrest
    exact h.call ((hvalue res).mpr (by omega)) hrest

/-- What is left of the child once it is ready. -/
theorem prepares_setupChild {slaveFd : ℤ} {shell : ShellM (String × List String)} {tail : Unit → ShellM Unit}
    (h : Prepares (shell >>= execute >>= tail) post) : Prepares (setupChild slaveFd shell >>= tail) post := by
  rw [setupChild,bind_assoc]
  refine prepares_demand nofun (fun _ => Iff.rfl) ?_
  rw [bind_assoc]
  refine prepares_demand nofun (fun _ => Iff.rfl) ?_
  rw [bind_assoc,duplicateFds,bind_assoc]
  refine prepares_demand nofun (fun _ => Iff.rfl) ?_
  rw [bind_assoc]
  refine prepares_demand nofun (fun _ => Iff.rfl) (prepares_demand nofun (fun _ => Iff.rfl) ?_)
  intro process own ending children hruns
  have hclose : ShellSys.sys (.close slaveFd) ≠ .sys .fork := nofun
  obtain ⟨res,rest,rfl,hrest⟩ := runs_call hclose hruns
  change Runs ((shell >>= execute >>= tail) process) rest ending children at hrest
  exact h.call trivial hrest

theorem prepares_executes {slaveFd : ℤ} {tail : Unit → ShellM Unit} (path : String) (args : List String) :
    Prepares (setupChild slaveFd (pure (path,args)) >>= tail) fun ending => ∃ now, ending = .ok (.executes path args,now) := by
  refine prepares_setupChild ?_
  intro process own ending children hruns
  have hexecle : ShellSys.execle path args ≠ .sys .fork := nofun
  obtain ⟨answer,rest,rfl,hrest⟩ := runs_call hexecle hruns
  cases answer with
  | none =>
    obtain ⟨rfl,rfl,-⟩ := runs_pure hrest
    exact .inr ⟨by simp [Succeeds],process,rfl⟩
  | some ret =>
    obtain ⟨rfl,rfl,-⟩ := runs_pure hrest
    exact .inl ⟨⟨_,List.mem_cons_self,nofun⟩,process,rfl⟩

theorem prepares_panics {slaveFd : ℤ} {tail : Unit → ShellM Unit} (message : String)
    (more : String → ShellM (String × List String)) :
    Prepares (setupChild slaveFd (abort message >>= more) >>= tail) fun ending => ending = .error message := by
  refine prepares_setupChild ?_
  intro process own ending children hruns
  obtain ⟨rfl,rfl,-⟩ := runs_panic hruns
  exact .inr ⟨by simp,rfl⟩

theorem Prepares.mono {m : ShellM Unit} {post' : ProcessEnd → Prop} (h : Prepares m post)
    (hpost : ∀ ending, post ending → post' ending) : Prepares m post' := by
  intro process own ending children hruns
  exact (h process own ending children hruns).imp id (.imp id (hpost ending))

/-- A child executes the shell exactly when it gets ready and what it becomes is the shell. -/
theorem Prepares.executes_iff {kernel : Kernel} {shellPath : String} {fits : Prop} {m : ShellM Unit}
    {process : PtyProcess} {own : Trace} {ending : ProcessEnd}
    {children : List (Trace × ProcessEnd)}
    (h : Prepares m fun ending => Executes kernel shellPath ending ↔ fits) (hruns : Runs (m process) own ending children) :
    Executes kernel shellPath ending ↔ fits ∧ ∀ event ∈ own, Succeeds event := by
  rcases h _ _ _ _ hruns with ⟨⟨event,hmem,hfails⟩,now,rfl⟩ | ⟨hall,hiff⟩
  · refine iff_of_false ?_ fun hall => hfails (hall.2 event hmem)
    rintro ⟨path,args,now,heq,-⟩
    cases heq
  · exact hiff.trans (and_iff_left hall).symm

end Child

/-! ### File names -/

theorem mem_intercalate {separator c : Char} {part : List Char} {parts : List (List Char)} (hpart : part ∈ parts)
    (hc : c ∈ part) : c ∈ [separator].intercalate parts := by
  induction parts with
  | nil => simp at hpart
  | cons first rest ih =>
    cases rest with
    | nil =>
      obtain rfl := List.mem_singleton.mp hpart
      simpa using hc
    | cons next rest =>
      rw [List.intercalate_cons_cons]
      rcases List.mem_cons.mp hpart with rfl | hlater
      · exact List.mem_append_left _ (List.mem_append_left _ hc)
      · exact List.mem_append_right _ (ih hlater)

/-- A file name is part of its path. -/
theorem fileName_subset {path name : String} (h : Path.fileName path = some name) : name.toList ⊆ path.toList := by
  intro c hc
  unfold Path.fileName at h
  split at h
  · cases h
  next part hpart =>
  split_ifs at h
  cases h
  have hmem : part ∈ path.toList.splitOn '/' :=
    List.mem_reverse.mp ((List.dropWhile_suffix _).subset (List.mem_of_mem_head? hpart))
  have hjoined : ['/'].intercalate (path.toList.splitOn '/') = path.toList := List.intercalate_splitOn '/'
  rw [← hjoined]
  exact mem_intercalate hmem (by simpa using hc)

theorem fileName_noNul {path : String} (h : '\x00' ∉ path.toList) :
    '\x00' ∉ ((Path.fileName path).getD "shell").toList := by
  cases hname : Path.fileName path with
  | none => simp
  | some name => exact fun hmem => h (fileName_subset hname hmem)

/-! ### The parent -/

section Parent

variable {α β : Type} {process : PtyProcess} {trace : Trace} {ending : Ending (Outcome α × PtyProcess)}
  {children : List (Trace × Ending (Outcome α × PtyProcess))}

/-- A method that makes one call and looks at its answer. -/
theorem runs_single {m : ShellM β} {f : β → ShellM α} {op : ShellSys} {result : op.Res → Outcome β}
    (hm : m process = .call op fun res => .pure (result res,process)) (hop : op ≠ .sys .fork)
    (h : Runs ((m >>= f) process) trace ending children) : ∃ res rest, trace = ⟨op,res⟩::rest ∧
      Runs (((fun process => .pure (result res,process) : ShellM β) >>= f) process) rest ending children := by
  change Runs (m process >>= _) trace ending children at h
  rw [hm] at h
  obtain ⟨res,rest,rfl,hrest⟩ := runs_call hop h
  exact ⟨res,rest,rfl,hrest⟩

/-- A method that makes one call, whose answer is an error unless it is 0. -/
theorem runs_checked {m : ProcessM Unit} {f : Unit → ShellM α} (call : Sys) (toRet : call.Res → Ret)
    (hm : m process = .call call fun res =>
      .pure (if (toRet res).value ≠ 0 then .error (toRet res).error else .ok (),process))
    (hop : ShellSys.sys call ≠ .sys .fork) (h : Runs ((onSystem m >>= f) process) trace ending children) :
    ∃ res rest, trace = ⟨.sys call,res⟩::rest ∧
      ((toRet res).value ≠ 0 ∧ rest = [] ∧ ending = .ok (.error (toRet res).error,process) ∧ children = [] ∨
      (toRet res).value = 0 ∧ Runs (f () process) rest ending children) := by
  have hsingle : onSystem m process = .call (.sys call) fun res =>
      .pure (outcome (if (toRet res).value ≠ 0 then .error (toRet res).error else .ok ()),process) := by
    unfold onSystem
    rw [hm]
    rfl
  obtain ⟨res,rest,rfl,hrest⟩ := runs_single hsingle hop h
  refine ⟨res,rest,rfl,?_⟩
  by_cases hbad : (toRet res).value ≠ 0
  · rw [if_pos hbad] at hrest
    obtain ⟨rfl,rfl,rfl⟩ := runs_pure hrest
    exact .inl ⟨hbad,rfl,rfl,rfl⟩
  · rw [if_neg hbad] at hrest
    exact .inr ⟨not_not.mp hbad,hrest⟩

theorem runs_waitpid {f : Except IoError ℤ → ShellM α} {options : Int32}
    (h : Runs ((onSystem (ProcessM.attempt (PtyProcess.waitpid options)) >>= f) process) trace ending children) :
    ∃ (waited : Ret) (result : Except IoError ℤ) (rest : Trace),
      trace = ⟨.sys (.waitpid process.pid options),waited⟩::rest ∧ Runs (f result process) rest ending children := by
  have hsingle : onSystem (ProcessM.attempt (PtyProcess.waitpid options)) process =
      .call (.sys (.waitpid process.pid options)) fun (ret : Ret) =>
        .pure (.ok (if ret.value = -1 then .error ret.error else .ok ret.value),process) := by
    unfold onSystem ProcessM.attempt
    rw [PtyProcess.waitpid_eq]
    rfl
  obtain ⟨waited,rest,rfl,hrest⟩ := runs_single hsingle nofun h
  exact ⟨waited,_,rest,rfl,hrest⟩

/-- The end of a parent that could not fork. -/
theorem runs_cleanup {masterFd slaveFd : ℤ} {e : Ret → IoError}
    (h : Runs ((onSystem (PtyProcess.cleanupFd masterFd slaveFd) >>= fun last => fail (e last)) process) trace ending children) :
    ∃ e', ending = .ok (.error e',process) ∧ children = [] := by
  have hclose (fd : ℤ) : ShellSys.sys (.close fd) ≠ .sys .fork := nofun
  obtain ⟨first,rest,rfl,hrest⟩ := runs_call (hclose masterFd) h
  obtain ⟨last,rest,rfl,hlast⟩ := runs_call (hclose slaveFd) hrest
  obtain ⟨-,rfl,rfl⟩ := runs_pure hlast
  exact ⟨_,rfl,rfl⟩

end Parent

/-- The end of a parent that has forked. -/
theorem runs_parent {slaveFd : ℤ} {f : PtyProcess → PtyProcess} {process : PtyProcess} {trace : Trace}
    {ending : ProcessEnd} {children : List (Trace × ProcessEnd)}
    (h : Runs ((onSystem (PtyProcess.closeFd slaveFd) >>= fun _ => modify f) process) trace ending children) :
    ∃ ret : Ret, trace = [⟨.sys (.close slaveFd),ret⟩] ∧ ending = .ok (.ok (),f process) ∧ children = [] := by
  have hclose : ShellSys.sys (.close slaveFd) ≠ .sys .fork := nofun
  obtain ⟨ret,rest,rfl,hrest⟩ := runs_call hclose h
  obtain ⟨rfl,rfl,rfl⟩ := runs_pure hrest
  exact ⟨ret,rfl,rfl,rfl⟩

/-- The new master stays open when the parent closes the slave. -/
theorem opened_of_fresh {kernel : Kernel} {pid fd masterFd slaveFd : ℤ} {killed waited closed forked ret : Ret} {opening : Trace}
    (hopening : ∀ kernel : Kernel, kernel.Fresh [] opening → masterFd ∈ kernel.opened opening ∧ masterFd ≠ slaveFd)
    (hfresh : kernel.Fresh [] (⟨.sys (.kill pid sigterm),killed⟩::⟨.sys (.waitpid pid 0),waited⟩::
      ⟨.sys (.close fd),closed⟩::(opening ++ ⟨.sys .fork,forked⟩::[⟨.sys (.close slaveFd),ret⟩]))) :
    masterFd ∈ kernel.opened (⟨.sys (.kill pid sigterm),killed⟩::⟨.sys (.waitpid pid 0),waited⟩::
      ⟨.sys (.close fd),closed⟩::(opening ++ ⟨.sys .fork,forked⟩::[⟨.sys (.close slaveFd),ret⟩])) := by
  have hnothing : kernel.record [] ⟨.sys (.close fd),closed⟩ = [] := by
    rw [Kernel.record]
    split <;> rfl
  obtain ⟨-,-,-,hlater⟩ := hfresh
  change kernel.Fresh (kernel.record [] ⟨.sys (.close fd),closed⟩) _ at hlater
  rw [hnothing,Kernel.fresh_append] at hlater
  obtain ⟨hmem,hne⟩ := hopening kernel hlater.1
  change masterFd ∈ (opening ++ _).foldl kernel.record (kernel.record [] ⟨.sys (.close fd),closed⟩)
  rw [hnothing,List.foldl_append]
  change masterFd ∈ kernel.record (kernel.opened opening ++ []) ⟨.sys (.close slaveFd),ret⟩
  rw [List.append_nil,Kernel.record]
  split
  · exact List.mem_filter.mpr ⟨hmem,by simpa using hne⟩
  · exact hmem

/-- How a change goes on once the old terminal is closed: without a child it ends in an error or a
panic, with one it is a success. -/
inductive Spawned (shellPath : String) (strings : ShellM Unit) (child : ℤ → ShellM Unit) : Trace →
    ProcessEnd → List (Trace × ProcessEnd) → Prop
  | error (trace : Trace) (e : IoError) (now : PtyProcess) : Spawned shellPath strings child trace (.ok (.error e,now)) []
  | panic (trace : Trace) (message : String) : Spawned shellPath strings child trace (.error message) []
  | forked {opening own : Trace} {childEnding : ProcessEnd} {masterFd slaveFd : ℤ}
      {forked ret : Ret} {before : PtyProcess} (hstrings : strings = pure ())
      (hopening : ∀ kernel : Kernel, kernel.Fresh [] opening → masterFd ∈ kernel.opened opening ∧ masterFd ≠ slaveFd)
      (hown : Runs ((child slaveFd >>= fun _ => abort "internal error: entered unreachable code") before) own childEnding []) :
      Spawned shellPath strings child (opening ++ ⟨.sys .fork,forked⟩::[⟨.sys (.close slaveFd),ret⟩])
        (.ok (.ok (),⟨masterFd,forked.value,shellPath⟩)) [(own,childEnding)]

section Change

variable {process : PtyProcess} {shellPath : String} {openPty : ShellM (ℤ × ℤ)} {strings : ShellM Unit}
  {child : ℤ → ShellM Unit} {trace : Trace} {ending : ProcessEnd}
  {children : List (Trace × ProcessEnd)}

/-- The parent with its new terminal, from the fork on. -/
theorem spawned_of_fork {opening : Trace} {masterFd slaveFd : ℤ} (hstrings : strings = pure ())
    (hopening : ∀ kernel : Kernel, kernel.Fresh [] opening → masterFd ∈ kernel.opened opening ∧ masterFd ≠ slaveFd)
    (h : Runs ((perform (.sys .fork) >>= fun (forked : Ret) =>
      if forked.value = -1 then do
        let last ← onSystem (PtyProcess.cleanupFd masterFd slaveFd)
        fail (if last.value < 0 then last.error else forked.error)
      else if forked.value = 0 then do
        child slaveFd
        abort "internal error: entered unreachable code"
      else do
        let _ ← onSystem (PtyProcess.closeFd slaveFd)
        modify fun process => { process with pid := forked.value, command := shellPath })
      { process with masterFd := masterFd }) trace ending children) :
    Spawned shellPath strings child (opening ++ trace) ending children := by
  obtain ⟨forked,rest,rfl,⟨hfailed,hforked⟩ | ⟨hpid,zero,own,childEnding,later,hzero,hown,rfl,hforked⟩⟩ := runs_fork h
  · change Runs ((if forked.value = -1 then _ else _ : ShellM Unit) _) rest ending children at hforked
    rw [if_pos hfailed] at hforked
    obtain ⟨e,rfl,rfl⟩ := runs_cleanup hforked
    exact .error _ e _
  · change Runs ((if zero.value = -1 then _ else if zero.value = 0 then _ else _ : ShellM Unit) _) own childEnding [] at hown
    rw [if_neg (by omega),if_pos hzero] at hown
    change Runs ((if forked.value = -1 then _ else if forked.value = 0 then _ else _ : ShellM Unit) _) rest ending later at hforked
    rw [if_neg (by omega),if_neg (by omega)] at hforked
    obtain ⟨ret,rfl,rfl,rfl⟩ := runs_parent hforked
    exact .forked hstrings hopening hown

/-- A change of the shell is refused at the signal or at the close, or it goes on. -/
theorem changeShell_cases (hopen : ∀ process, Ensures (openPty process) (Opened process))
    (hstrings : strings = pure () ∨ ∃ message, strings = abort message)
    (h : Runs (changeShell openPty strings child shellPath process) trace ending children) :
    ∃ (killed : Ret) (rest : Trace), trace = ⟨.sys (.kill process.pid sigterm),killed⟩::rest ∧
      (killed.value ≠ 0 ∧ rest = [] ∧ ending = .ok (.error killed.error,process) ∧ children = [] ∨
      killed.value = 0 ∧ ∃ (waited closed : Ret) (later : Trace),
        rest = ⟨.sys (.waitpid process.pid 0),waited⟩::⟨.sys (.close process.masterFd),closed⟩::later ∧
        (closed.value ≠ 0 ∧ later = [] ∧ ending = .ok (.error closed.error,process) ∧ children = [] ∨
        closed.value = 0 ∧ Spawned shellPath strings child later ending children)) := by
  obtain ⟨killed,rest,rfl,hbad | ⟨hkilled,hwait⟩⟩ :=
    runs_checked (.kill process.pid sigterm) id (PtyProcess.killProcess_eq process sigterm) nofun h
  · exact ⟨killed,rest,rfl,.inl hbad⟩
  obtain ⟨waited,result,rest,rfl,hclose⟩ := runs_waitpid hwait
  obtain ⟨closed,later,rfl,hbad | ⟨hclosed,hopened⟩⟩ :=
    runs_checked (.close process.masterFd) id (PtyProcess.closeMasterFd_eq process) nofun hclose
  · exact ⟨killed,_,rfl,.inr ⟨hkilled,waited,closed,later,rfl,.inl hbad⟩⟩
  refine ⟨killed,_,rfl,.inr ⟨hkilled,waited,closed,later,rfl,.inr ⟨hclosed,?_⟩⟩⟩
  obtain ⟨opening,⟨outcome,now⟩,second,rfl,⟨hnow,hout⟩,hnext⟩ := (hopen process).runs hopened
  obtain rfl : now = process := hnow
  cases outcome with
  | error e =>
    obtain ⟨rfl,rfl,rfl⟩ := runs_pure hnext
    exact .error _ e _
  | executes path args => exact hout.elim
  | exits status => exact hout.elim
  | ok fds =>
    obtain ⟨newMasterFd,newSlaveFd⟩ := fds
    change Runs ((strings >>= _) { now with masterFd := newMasterFd }) second ending children at hnext
    rcases hstrings with hmade | ⟨message,rfl⟩
    · rw [hmade] at hnext
      exact spawned_of_fork hmade hout hnext
    · obtain ⟨rfl,rfl,rfl⟩ := runs_panic hnext
      exact .panic _ message

/-- What is common to the two platforms: how they open a terminal, whether their strings can be made,
and what becomes of their child when it is ready. -/
theorem lawful_iff {kernel : Kernel} {fits : Prop} (hopen : ∀ process, Ensures (openPty process) (Opened process))
    (hstrings : strings = pure () ∨ ∃ message, strings = abort message)
    (hchild : strings = pure () → ∀ slaveFd tail,
      Prepares (child slaveFd >>= tail) fun ending => Executes kernel shellPath ending ↔ fits)
    (run : Run kernel (changeShell openPty strings child shellPath) process) :
    Lawful kernel process shellPath run ↔ Refused kernel run.trace ∨ fits ∧ Started kernel process run := by
  obtain ⟨trace,ending,children,hruns,hfresh⟩ := run
  obtain ⟨killed,rest,rfl,⟨hbad,rfl,rfl,rfl⟩ | ⟨hkilled,waited,closed,later,rfl,hlater⟩⟩ :=
    changeShell_cases hopen hstrings hruns
  · refine iff_of_true ⟨rfl,?_⟩ (.inl (.inl hbad))
    rintro ⟨ret,hmem,-⟩
    simp at hmem
  rcases hlater with ⟨hbad,rfl,rfl,rfl⟩ | ⟨hclosed,hspawned⟩
  · have hreleased : kernel.Released process.masterFd [⟨.sys (.kill process.pid sigterm),killed⟩,
        ⟨.sys (.waitpid process.pid 0),waited⟩,⟨.sys (.close process.masterFd),closed⟩] ↔
        kernel.releases closed = true := by
      constructor
      · rintro ⟨ret,hmem,hret⟩
        simp at hmem
        rwa [← hmem]
      · exact fun hret => ⟨closed,by simp,hret⟩
    constructor
    · rintro ⟨-,hnot⟩
      rw [hreleased] at hnot
      exact .inl (.inr ⟨hbad,by simpa using hnot⟩)
    · rintro ((hkill | ⟨-,hkept⟩) | ⟨-,own,hmem,-⟩)
      · exact absurd hkilled hkill
      · exact ⟨rfl,by simp [hreleased,hkept]⟩
      · simp at hmem
  -- the old descriptor is gone, so only a success can be lawful
  have hreleased : kernel.Released process.masterFd (⟨.sys (.kill process.pid sigterm),killed⟩::
      ⟨.sys (.waitpid process.pid 0),waited⟩::⟨.sys (.close process.masterFd),closed⟩::later) :=
    ⟨closed,by simp,kernel.releases_of_zero closed hclosed⟩
  have hrefused : ¬Refused kernel (⟨.sys (.kill process.pid sigterm),killed⟩::
      ⟨.sys (.waitpid process.pid 0),waited⟩::⟨.sys (.close process.masterFd),closed⟩::later) := by
    rintro (hkill | ⟨hclose,-⟩)
    · exact hkill hkilled
    · exact hclose hclosed
  rw [or_iff_right hrefused]
  cases hspawned with
  | error e now =>
    refine iff_of_false (fun h => h.2 hreleased) ?_
    rintro ⟨-,own,hmem,-⟩
    simp at hmem
  | panic message =>
    refine iff_of_false id ?_
    rintro ⟨-,own,hmem,-⟩
    simp at hmem
  | @forked opening own childEnding masterFd slaveFd forked ret before hmade hopening hown =>
    have hexecutes := (hchild hmade slaveFd _).executes_iff hown
    constructor
    · rintro ⟨-,-,-,child,heq,hchild⟩
      obtain rfl := List.singleton_inj.mp heq
      obtain ⟨hfits,hall⟩ := hexecutes.mp hchild
      exact ⟨hfits,_,List.mem_singleton_self _,hall⟩
    · rintro ⟨hfits,child,hmem,hall⟩
      obtain rfl := List.mem_singleton.mp hmem
      refine ⟨?_,⟨forked,by simp,rfl⟩,rfl,_,rfl,hexecutes.mpr ⟨hfits,hall⟩⟩
      exact opened_of_fresh hopening hfresh

end Change

/-! ### The two platforms -/

section Platforms

variable (kernel : Kernel) (process : PtyProcess) (shellPath : String)

theorem linux_lawful_iff (run : Run kernel (Linux.changeShell shellPath) process) :
    Lawful kernel process shellPath run ↔ Refused kernel run.trace ∨
      ('\x00' ∉ shellPath.toList ∧ kernel.program "/bin/bash" = kernel.program shellPath) ∧
        Started kernel process run := by
  by_cases hnul : '\x00' ∈ shellPath.toList
  · have hstrings : Linux.strings shellPath = abort "called Result::unwrap() on an Err value" := by
      rw [Linux.strings,cString,if_pos hnul]
      rfl
    refine lawful_iff ensures_openNewPty (.inr ⟨_,hstrings⟩) (fun hmade => ?_) run
    rw [hstrings] at hmade
    cases congrFun hmade process
  · have hstrings : Linux.strings shellPath = pure () := by
      rw [Linux.strings,cString_eq hnul]
      rfl
    refine lawful_iff ensures_openNewPty (.inl hstrings) (fun _ slaveFd tail => ?_) run
    have hchild : Linux.setupChild slaveFd = setupChild slaveFd (pure ("/bin/bash",["bash"])) := by
      rw [Linux.setupChild,cString_eq (by simp),cString_eq (by simp)]
      rfl
    rw [hchild]
    refine (prepares_executes "/bin/bash" ["bash"]).mono ?_
    rintro _ ⟨now,rfl⟩
    constructor
    · rintro ⟨path,args,now',heq,hprogram⟩
      cases heq
      exact ⟨hnul,hprogram⟩
    · exact fun h => ⟨_,_,_,rfl,h.2⟩

theorem macos_lawful_iff (run : Run kernel (Macos.changeShell shellPath) process) :
    Lawful kernel process shellPath run ↔ Refused kernel run.trace ∨
      '\x00' ∉ shellPath.toList ∧ Started kernel process run := by
  refine lawful_iff ensures_openPty (.inl rfl) (fun _ slaveFd tail => ?_) run
  by_cases hnul : '\x00' ∈ shellPath.toList
  · rw [Macos.setupChild,cString,if_pos hnul]
    refine (prepares_panics _ _).mono ?_
    rintro _ rfl
    exact iff_of_false (by rintro ⟨path,args,now,heq,-⟩; cases heq) fun h => h hnul
  · have hchild : Macos.setupChild shellPath slaveFd =
        setupChild slaveFd (pure (shellPath,[(Path.fileName shellPath).getD "shell","-i"])) := by
      rw [Macos.setupChild,cString_eq hnul,cString_eq (fileName_noNul hnul),cString_eq (by simp)]
      rfl
    rw [hchild]
    refine (prepares_executes shellPath _).mono ?_
    rintro _ ⟨now,rfl⟩
    exact iff_of_true ⟨_,_,_,rfl,rfl⟩ hnul

/-- When `change_shell` does what it says: it changes nothing and says so, when the signal or the
close is refused, or the child comes up and is the shell that was asked for, which on Linux is
always bash. -/
theorem changeShell_lawful_iff :
    (∀ run : Run kernel (Linux.changeShell shellPath) process, Lawful kernel process shellPath run ↔
      Refused kernel run.trace ∨
        ('\x00' ∉ shellPath.toList ∧ kernel.program "/bin/bash" = kernel.program shellPath) ∧
          Started kernel process run) ∧
    (∀ run : Run kernel (Macos.changeShell shellPath) process, Lawful kernel process shellPath run ↔
      Refused kernel run.trace ∨ '\x00' ∉ shellPath.toList ∧ Started kernel process run) :=
  ⟨linux_lawful_iff kernel process shellPath,macos_lawful_iff kernel process shellPath⟩

end Platforms

def zero : Ret := ⟨0,⟨none,""⟩⟩

/-- A kernel whose closes do what they say. -/
def plain : Kernel where
  releases ret := ret.value = 0
  releases_of_zero ret h := by simp [h]
  program path := path.length

/-- Every call succeeds, and the child comes up as bash. -/
def bashRun : Run plain (Linux.changeShell "/bin/sh") ⟨5,42,"/bin/bash"⟩ where
  trace := [⟨.sys (.kill 42 sigterm),zero⟩,⟨.sys (.waitpid 42 0),⟨42,⟨none,""⟩⟩⟩,⟨.sys (.close 5),zero⟩,
    ⟨.sys .posixOpenpt,⟨5,⟨none,""⟩⟩⟩,⟨.sys (.grantpt 5),zero⟩,⟨.sys (.unlockpt 5),zero⟩,
    ⟨.sys (.ptsname 5),(⟨1,⟨none,""⟩⟩,some "/dev/pts/7")⟩,⟨.sys (.openSlave "/dev/pts/7"),⟨6,⟨none,""⟩⟩⟩,
    ⟨.sys .fork,⟨43,⟨none,""⟩⟩⟩,⟨.sys (.close 6),zero⟩]
  ending := .ok (.ok (),⟨5,43,"/bin/sh"⟩)
  children := [([⟨.setsid,zero⟩,⟨.sys (.setWinsize 6 80 24),zero⟩,⟨.dup2 6 0,zero⟩,⟨.dup2 6 1,zero⟩,
    ⟨.dup2 6 2,zero⟩,⟨.sys (.close 6),zero⟩,⟨.execle "/bin/bash" ["bash"],none⟩],
    .ok (.executes "/bin/bash" ["bash"],⟨5,42,"/bin/bash"⟩))]
  runs := by
    refine .call _ (by nofun) (.call _ (by nofun) (.call _ (by nofun) (.call _ (by nofun) (.call _ (by nofun)
      (.call _ (by nofun) (.call _ (by nofun) (.call _ (by nofun) (.forked _ zero (by decide) rfl ?_ ?_))))))))
    · exact .call _ (by nofun) (.call _ (by nofun) (.call _ (by nofun) (.call _ (by nofun) (.call _ (by nofun)
        (.call _ (by nofun) (.call _ (by nofun) (.pure _)))))))
    · exact .call _ (by nofun) (.pure _)
  fresh := by simp [Kernel.Fresh,Kernel.record,opens,plain,zero]

/-- The parent succeeds, and the child panics over the path. -/
def nulRun : Run plain (Macos.changeShell "\x00") ⟨5,42,"/bin/zsh"⟩ where
  trace := [⟨.sys (.kill 42 sigterm),zero⟩,⟨.sys (.waitpid 42 0),⟨42,⟨none,""⟩⟩⟩,⟨.sys (.close 5),zero⟩,
    ⟨.openpty,(zero,5,6)⟩,⟨.sys (.setWinsize 5 100 40),zero⟩,⟨.sys (.setWinsize 6 100 40),zero⟩,
    ⟨.getFlags 5,zero⟩,⟨.setNonblocking 5 0,zero⟩,⟨.sys .fork,⟨43,⟨none,""⟩⟩⟩,⟨.sys (.close 6),zero⟩]
  ending := .ok (.ok (),⟨5,43,"\x00"⟩)
  children := [([⟨.setsid,zero⟩,⟨.sys (.setWinsize 6 80 24),zero⟩,⟨.dup2 6 0,zero⟩,⟨.dup2 6 1,zero⟩,
    ⟨.dup2 6 2,zero⟩,⟨.sys (.close 6),zero⟩],.error "called Result::unwrap() on an Err value")]
  runs := by
    refine .call _ (by nofun) (.call _ (by nofun) (.call _ (by nofun) (.call _ (by nofun) (.call _ (by nofun)
      (.call _ (by nofun) (.call _ (by nofun) (.call _ (by nofun) (.forked _ zero (by decide) rfl ?_ ?_))))))))
    · exact .call _ (by nofun) (.call _ (by nofun) (.call _ (by nofun) (.call _ (by nofun) (.call _ (by nofun)
        (.call _ (by nofun) (.panic _))))))
    · exact .call _ (by nofun) (.pure _)
  fresh := by simp [Kernel.Fresh,Kernel.record,opens,plain,zero]

/-- A success whose child is another shell, and one whose child is none. -/
theorem changeShell_not_lawful :
    (∃ run : Run plain (Linux.changeShell "/bin/sh") ⟨5,42,"/bin/bash"⟩,
      ¬Lawful plain ⟨5,42,"/bin/bash"⟩ "/bin/sh" run) ∧
    ∃ run : Run plain (Macos.changeShell "\x00") ⟨5,42,"/bin/zsh"⟩,
      ¬Lawful plain ⟨5,42,"/bin/zsh"⟩ "\x00" run := by
  refine ⟨⟨bashRun,?_⟩,⟨nulRun,?_⟩⟩
  · rintro ⟨-,-,-,child,heq,path,args,now,hends,hprogram⟩
    obtain rfl := List.singleton_inj.mp heq
    cases hends
    exact absurd hprogram (by decide)
  · rintro ⟨-,-,-,child,heq,path,args,now,hends,-⟩
    obtain rfl := List.singleton_inj.mp heq
    cases hends

end ShellM
end NodeRustPty
