import NodeRustPty.NewShells

/-! `PtyProcess::new` and the functions that open a terminal, on Linux and on macOS, and the
descriptors that are open when they return. -/
namespace NodeRustPty

open ShellM

/-- `PtyProcess::new`, up to how the terminal is opened and the child. -/
def newProcess (openPty : ShellM (ℤ × ℤ)) (child : ℤ → ShellM Unit) : ShellM PtyProcess := do
  let (masterFd,slaveFd) ← openPty
  let forked ← perform (.sys .fork)
  if forked.value = -1 then do
    let last ← onSystem (PtyProcess.cleanupFd masterFd slaveFd)
    fail (if last.value < 0 then last.error else forked.error)
  else if forked.value = 0 then do
    child slaveFd
    abort "internal error: entered unreachable code"
  else do
    let _ ← onSystem (PtyProcess.closeFd slaveFd)
    pure ⟨masterFd,forked.value,"/bin/bash"⟩

/-- The calls of `open_new_pty` stand in it a second time. -/
def Linux.new : ShellM PtyProcess := newProcess openNewPty setupChild

def Macos.new : ShellM PtyProcess := newProcess openPty (setupChild "/bin/bash")

inductive Constructor
  | linuxNew | linuxOpenNewPty | macosOpenPty | macosNew
  deriving DecidableEq

/-- The descriptors that a constructor returns. There is no process yet, so the one that the
method is called on is not looked at. -/
def Constructor.run : Constructor → ShellM (List ℤ)
  | .linuxNew => do
    let process ← Linux.new
    pure [process.masterFd]
  | .linuxOpenNewPty => do
    let (masterFd,slaveFd) ← Linux.openNewPty
    pure [masterFd,slaveFd]
  | .macosOpenPty => do
    let (masterFd,slaveFd) ← Macos.openPty
    pure [masterFd,slaveFd]
  | .macosNew => do
    let process ← Macos.new
    pure [process.masterFd]

namespace ShellM

/-- A run of a constructor in the parent. -/
structure NewRun (kernel : Kernel) (constructor : Constructor) (process : PtyProcess) where
  trace : Trace
  ending : Ending (Outcome (List ℤ) × PtyProcess)
  children : List (Trace × Ending (Outcome (List ℤ) × PtyProcess))
  runs : Runs (constructor.run process) trace ending children
  fresh : kernel.Fresh [] trace

section

variable (kernel : Kernel)

/-- An error leaves nothing open, and a success what it returns; there is no other end. -/
def Tidy (trace : Trace) : Ending (Outcome (List ℤ) × PtyProcess) → Prop
  | .ok (.ok fds,_) => kernel.opened trace = fds
  | .ok (.error _,_) => kernel.opened trace = []
  | _ => False

/-- The close takes place, and nothing fails that is followed by a return without a close. -/
def Harmless : Event → Prop
  | ⟨.sys (.close _),ret⟩ => kernel.releases ret = true
  | ⟨.sys (.ptsname _),(ret,name)⟩ => ret.value = 0 ∨ name ≠ none
  | ⟨.sys (.setWinsize _ _ _),ret⟩ => ret.value = 0
  | ⟨.getFlags _,ret⟩ => 0 ≤ ret.value
  | ⟨.setNonblocking _ _,ret⟩ => 0 ≤ ret.value
  | _ => True

end

/-! ### Opening -/

/-- The two descriptors are what is open, or the error has left nothing open unless a call did harm. -/
def Settles (process : PtyProcess) (trace : Trace) (result : Outcome (ℤ × ℤ) × PtyProcess) : Prop :=
  result.2 = process ∧ match result.1 with
    | .ok fds => ∀ kernel : Kernel, kernel.opened trace = [fds.1,fds.2] ∧ ∀ event ∈ trace, Harmless kernel event
    | .error _ => ∀ kernel : Kernel, kernel.opened trace = [] ↔ ∀ event ∈ trace, Harmless kernel event
    | _ => False

theorem record_close (kernel : Kernel) (fds : List ℤ) (fd : ℤ) (ret : Ret) :
    kernel.record fds ⟨.sys (.close fd),ret⟩ = if kernel.releases ret then fds.filter (· ≠ fd) else fds := rfl

theorem record_fork (kernel : Kernel) (fds : List ℤ) (ret : Ret) : kernel.record fds ⟨.sys .fork,ret⟩ = fds :=
  List.append_nil fds

section

variable {process : PtyProcess} {trace : Trace}

theorem settled_error {e : IoError}
    (h : ∀ kernel : Kernel, kernel.opened trace = [] ↔ trace.Forall (Harmless kernel)) :
    Settles process trace (.error e,process) :=
  ⟨rfl,fun kernel => (h kernel).trans List.forall_iff_forall_mem⟩

theorem settled_ok {fds : ℤ × ℤ}
    (h : ∀ kernel : Kernel, kernel.opened trace = [fds.1,fds.2] ∧ trace.Forall (Harmless kernel)) :
    Settles process trace (.ok fds,process) :=
  ⟨rfl,fun kernel => (h kernel).imp_right List.forall_iff_forall_mem.mp⟩

end

theorem settles_openNewPty (process : PtyProcess) : Ensures (Linux.openNewPty process) (Settles process) := by
  refine ⟨by simp,fun (opened : Ret) => ?_⟩
  change Ensures (onSystem (PtyProcess.check opened (· < 0) >>= _) process) _
  by_cases hopened : opened.value < 0
  · rw [PtyProcess.check_bad (by simpa using hopened)]
    refine settled_error fun kernel => ?_
    simp [Kernel.opened,Kernel.record,opens,hopened,Harmless]
  rw [PtyProcess.check_good (by simpa using hopened)]
  refine ⟨by simp,fun (granted : Ret) => ?_⟩
  change Ensures (onSystem (if granted.value ≠ 0 then _ else _) process) _
  split
  · refine ⟨by simp,fun (closed : Ret) => settled_error fun kernel => ?_⟩
    simp [Kernel.opened,Kernel.record,opens,hopened,Harmless]
  refine ⟨by simp,fun (unlocked : Ret) => ?_⟩
  change Ensures (onSystem (if unlocked.value ≠ 0 then _ else _) process) _
  split
  · refine ⟨by simp,fun (closed : Ret) => settled_error fun kernel => ?_⟩
    simp [Kernel.opened,Kernel.record,opens,hopened,Harmless]
  refine ⟨by simp,fun (named : Ret × Option String) => ?_⟩
  change Ensures (onSystem (if named.1.value = 0 then _ else _) process) _
  split
  · next hnamed =>
    refine ⟨by simp,fun (closed : Ret) => settled_error fun kernel => ?_⟩
    simp [Kernel.opened,Kernel.record,opens,hopened,Harmless,hnamed]
  next hnamed =>
  obtain ⟨ret,slaveName⟩ := named
  cases slaveName with
  | none =>
    refine settled_error fun kernel => ?_
    simp [Kernel.opened,Kernel.record,opens,hopened,Harmless,hnamed]
  | some slaveName =>
    refine ⟨by simp,fun (slave : Ret) => ?_⟩
    change Ensures (onSystem (if slave.value < 0 then _ else _) process) _
    split
    · next hslave =>
      refine ⟨by simp,fun (closed : Ret) => settled_error fun kernel => ?_⟩
      simp [Kernel.opened,Kernel.record,opens,hopened,hslave,Harmless]
    · next hslave =>
      refine settled_ok fun kernel => ?_
      simp [Kernel.opened,Kernel.record,opens,hopened,hslave,Harmless]

theorem settles_openPty (process : PtyProcess) : Ensures (Macos.openPty process) (Settles process) := by
  refine ⟨by simp,fun (answer : Ret × ℤ × ℤ) => ?_⟩
  obtain ⟨ret,masterFd,slaveFd⟩ := answer
  change Ensures ((if ret.value ≠ 0 then _ else _ : ShellM (ℤ × ℤ)) process) _
  split
  · next hopened =>
    refine settled_error fun kernel => ?_
    simp [Kernel.opened,Kernel.record,opens,hopened,Harmless]
  next hopened =>
  rw [not_not] at hopened
  refine ⟨by simp,fun (master : Ret) => ?_⟩
  change Ensures ((if master.value ≠ 0 then _ else _ : ShellM (ℤ × ℤ)) process) _
  split
  · next hmaster =>
    refine settled_error fun kernel => ?_
    simp [Kernel.opened,Kernel.record,opens,hopened,hmaster,Harmless]
  next hmaster =>
  refine ⟨by simp,fun (slave : Ret) => ?_⟩
  change Ensures ((if slave.value ≠ 0 then _ else _ : ShellM (ℤ × ℤ)) process) _
  split
  · next hslave =>
    refine settled_error fun kernel => ?_
    simp [Kernel.opened,Kernel.record,opens,hopened,hslave,Harmless]
  next hslave =>
  refine ⟨by simp,fun (flags : Ret) => ?_⟩
  change Ensures ((if flags.value < 0 then _ else _ : ShellM (ℤ × ℤ)) process) _
  split
  · next hflags =>
    refine settled_error fun kernel => ?_
    simp [Kernel.opened,Kernel.record,opens,hopened,hflags,Harmless]
  next hflags =>
  refine ⟨by simp,fun (set : Ret) => ?_⟩
  change Ensures ((if set.value < 0 then _ else _ : ShellM (ℤ × ℤ)) process) _
  split
  · next hset =>
    refine settled_error fun kernel => ?_
    simp [Kernel.opened,Kernel.record,opens,hopened,hset,Harmless]
  · next hset =>
    refine settled_ok fun kernel => ?_
    rw [not_not] at hmaster hslave
    rw [not_lt] at hflags hset
    simp [Kernel.opened,Kernel.record,opens,hopened,hmaster,hslave,hflags,hset,Harmless]

/-! ### Constructors -/

section

variable {α : Type} {openPty : ShellM (ℤ × ℤ)} {child : ℤ → ShellM Unit} {process : PtyProcess} {trace : Trace}

/-- What is open and was called, after a terminal was opened. -/
structure OpenedPair (opening : Trace) (masterFd slaveFd : ℤ) : Prop where
  opened : ∀ kernel : Kernel, kernel.opened opening = [masterFd,slaveFd]
  harmless : ∀ kernel, ∀ event ∈ opening, Harmless kernel event

theorem runs_open {f : ℤ × ℤ → ShellM α} {ending : Ending (Outcome α × PtyProcess)}
    {children : List (Trace × Ending (Outcome α × PtyProcess))}
    (hopen : ∀ process, Ensures (openPty process) (Settles process))
    (h : Runs ((openPty >>= f) process) trace ending children) :
    (∃ e, ending = .ok (.error e,process) ∧
      ∀ kernel : Kernel, kernel.opened trace = [] ↔ ∀ event ∈ trace, Harmless kernel event) ∨
    ∃ opening masterFd slaveFd second, trace = opening ++ second ∧ OpenedPair opening masterFd slaveFd ∧
      Runs (f (masterFd,slaveFd) process) second ending children := by
  obtain ⟨opening,⟨outcome,now⟩,second,rfl,⟨hnow,hout⟩,hnext⟩ := (hopen process).runs h
  obtain rfl : now = process := hnow
  cases outcome with
  | error e =>
    obtain ⟨rfl,rfl,-⟩ := runs_pure hnext
    rw [List.append_nil]
    exact .inl ⟨e,rfl,hout⟩
  | executes path args => exact hout.elim
  | exits status => exact hout.elim
  | ok fds =>
    have hpair : OpenedPair opening fds.1 fds.2 := ⟨fun kernel => (hout kernel).1,fun kernel => (hout kernel).2⟩
    exact .inr ⟨opening,fds.1,fds.2,second,rfl,hpair,hnext⟩

variable {kernel : Kernel} {ending : Ending (Outcome (List ℤ) × PtyProcess)}
  {children : List (Trace × Ending (Outcome (List ℤ) × PtyProcess))}

theorem open_tidy_iff (hopen : ∀ process, Ensures (openPty process) (Settles process))
    (h : Runs ((openPty >>= fun fds => pure [fds.1,fds.2]) process) trace ending children) :
    Tidy kernel trace ending ↔ ∀ event ∈ trace, Harmless kernel event := by
  rcases runs_open hopen h with ⟨e,rfl,hiff⟩ | ⟨opening,masterFd,slaveFd,second,rfl,hpair,hnext⟩
  · exact hiff kernel
  · obtain ⟨rfl,rfl,-⟩ := runs_pure hnext
    rw [List.append_nil]
    exact iff_of_true (hpair.opened kernel) (hpair.harmless kernel)

/-- The descriptors after the calls that follow an opening. -/
theorem OpenedPair.opened_append {opening : Trace} {masterFd slaveFd : ℤ} (h : OpenedPair opening masterFd slaveFd)
    (second : Trace) : kernel.opened (opening ++ second) = second.foldl kernel.record [masterFd,slaveFd] := by
  rw [Kernel.opened,List.foldl_append]
  exact congrArg (second.foldl kernel.record) (h.opened kernel)

theorem OpenedPair.ne {opening : Trace} {masterFd slaveFd : ℤ} {event : Event} {rest : Trace}
    (h : OpenedPair opening masterFd slaveFd) (hfresh : kernel.Fresh [] (opening ++ event::rest)) :
    masterFd ≠ slaveFd := by
  rw [Kernel.fresh_append] at hfresh
  have hopened : opening.foldl kernel.record [] = [masterFd,slaveFd] := h.opened kernel
  have hnodup := hfresh.2.1
  rw [hopened] at hnodup
  intro heq
  rw [heq] at hnodup
  exact absurd (List.nodup_append.mp hnodup).1 (by simp)

theorem OpenedPair.harmless_append {opening : Trace} {masterFd slaveFd : ℤ} (h : OpenedPair opening masterFd slaveFd)
    (second : Trace) :
    (∀ event ∈ opening ++ second, Harmless kernel event) ↔ ∀ event ∈ second, Harmless kernel event := by
  rw [List.forall_mem_append]
  exact and_iff_right (h.harmless kernel)

/-- A failed fork closes the pair, and a parent the slave. -/
theorem new_tidy_iff (hopen : ∀ process, Ensures (openPty process) (Settles process))
    (h : Runs ((newProcess openPty child >>= fun new => pure [new.masterFd]) process) trace ending children)
    (hfresh : kernel.Fresh [] trace) : Tidy kernel trace ending ↔ ∀ event ∈ trace, Harmless kernel event := by
  rw [newProcess,bind_assoc] at h
  rcases runs_open hopen h with ⟨e,rfl,hiff⟩ | ⟨opening,masterFd,slaveFd,second,rfl,hpair,hnext⟩
  · exact hiff kernel
  have hclose (fd : ℤ) : ShellSys.sys (.close fd) ≠ .sys .fork := nofun
  rw [hpair.harmless_append]
  obtain ⟨forked,rest,rfl,⟨hfailed,hforked⟩ | ⟨hpid,zero,own,childEnding,later,hzero,hown,rfl,hforked⟩⟩ := runs_fork hnext
  · have hne := hpair.ne hfresh
    change Runs (((if forked.value = -1 then _ else _ : ShellM PtyProcess) >>= _) process) rest ending children at hforked
    rw [if_pos hfailed] at hforked
    obtain ⟨(first : Ret),rest,rfl,hfirst⟩ := runs_call (hclose masterFd) hforked
    obtain ⟨(last : Ret),rest,rfl,hlast⟩ := runs_call (hclose slaveFd) hfirst
    obtain ⟨rfl,rfl,-⟩ := runs_pure hlast
    change kernel.opened _ = [] ↔ _
    rw [hpair.opened_append]
    simp only [List.foldl_cons,List.foldl_nil,record_fork,record_close]
    cases hfirst : kernel.releases first <;> cases hlast : kernel.releases last <;>
      simp [hfirst,hlast,hne,hne.symm,Harmless]
  · have hne := hpair.ne hfresh
    change Runs (((if forked.value = -1 then _ else if forked.value = 0 then _ else _ : ShellM PtyProcess) >>= _) process)
      rest ending later at hforked
    rw [if_neg (by omega),if_neg (by omega)] at hforked
    obtain ⟨(closed : Ret),rest,rfl,hclosed⟩ := runs_call (hclose slaveFd) hforked
    obtain ⟨rfl,rfl,-⟩ := runs_pure hclosed
    change kernel.opened _ = [masterFd] ↔ _
    rw [hpair.opened_append]
    simp only [List.foldl_cons,List.foldl_nil,record_fork,record_close]
    cases hreleases : kernel.releases closed <;> simp [hreleases,hne,Harmless]

/-- A constructor is tidy exactly when its closes take place, the name of the slave can be read
(Linux), and no call fails between the opening of the pair and its return (macOS). -/
theorem constructor_tidy_iff (kernel : Kernel) (constructor : Constructor) (process : PtyProcess)
    (run : NewRun kernel constructor process) :
    Tidy kernel run.trace run.ending ↔ ∀ event ∈ run.trace, Harmless kernel event := by
  obtain ⟨trace,ending,children,hruns,hfresh⟩ := run
  cases constructor with
  | linuxNew => exact new_tidy_iff settles_openNewPty hruns hfresh
  | linuxOpenNewPty => exact open_tidy_iff settles_openNewPty hruns
  | macosOpenPty => exact open_tidy_iff settles_openPty hruns
  | macosNew => exact new_tidy_iff settles_openPty hruns hfresh

theorem runs_sizeless (process : PtyProcess) (masterFd slaveFd : ℤ) (master : Ret) (hmaster : master.value ≠ 0) :
    Runs (Constructor.run .macosOpenPty process)
      [⟨.openpty,(ShellM.zero,masterFd,slaveFd)⟩,⟨.sys (.setWinsize masterFd 100 40),master⟩]
      (.ok (.error master.error,process)) [] := by
  refine .call _ (by simp) (.call _ (by simp) ?_)
  change Runs (((if master.value ≠ 0 then _ else _ : ShellM (ℤ × ℤ)) >>= _) process) [] _ []
  rw [if_pos hmaster]
  exact .pure _

def notTty : Ret := ⟨-1,⟨some 25,"Inappropriate ioctl for device (os error 25)"⟩⟩

/-- The size of the master cannot be set, and both descriptors stay open. -/
def sizelessRun : NewRun plain .macosOpenPty ⟨0,0,""⟩ where
  trace := [⟨.openpty,(ShellM.zero,5,6)⟩,⟨.sys (.setWinsize 5 100 40),notTty⟩]
  ending := .ok (.error notTty.error,⟨0,0,""⟩)
  children := []
  runs := runs_sizeless ⟨0,0,""⟩ 5 6 notTty (by decide)
  fresh := by simp [Kernel.Fresh,Kernel.record,opens,ShellM.zero]

theorem constructor_leaks : ¬∀ (kernel : Kernel) (constructor : Constructor) (process : PtyProcess)
    (run : NewRun kernel constructor process), Tidy kernel run.trace run.ending := by
  intro h
  have htidy := h plain .macosOpenPty ⟨0,0,""⟩ sizelessRun
  change plain.opened sizelessRun.trace = [] at htidy
  exact absurd htidy (by simp [sizelessRun,Kernel.opened,Kernel.record,opens,ShellM.zero])

end

end ShellM
end NodeRustPty
