import NodeRustPty.TearDown

/-! `change_shell` of `platform/linux.rs` and `platform/macos.rs` on both sides of its fork: the
parent that returns, and the child that executes a shell or exits. -/
namespace NodeRustPty

/-- The calls of the parent and of the child. -/
inductive ShellSys
  | sys (call : Sys)
  | openpty
  | getFlags (fd : ℤ)
  /-- `F_SETFL` with these flags and `O_NONBLOCK`. -/
  | setNonblocking (fd flags : ℤ)
  | setsid
  | dup2 (fd target : ℤ)
  | execle (path : String) (args : List String)
  deriving DecidableEq

/-- `openpty` fills in a master and a slave. An `execle` that succeeds does not return. -/
abbrev ShellSys.Res : ShellSys → Type
  | .sys call => call.Res
  | .openpty => Ret × ℤ × ℤ
  | .execle _ _ => Option Ret
  | _ => Ret

/-- How a process comes out of a method: with a result, as another program, or not at all. -/
inductive Outcome (α : Type)
  | ok (a : α)
  | error (e : IoError)
  | executes (path : String) (args : List String)
  | exits (status : ℤ)
  deriving DecidableEq

def ShellM (α : Type) := PtyProcess → Prog ShellSys ShellSys.Res (Outcome α × PtyProcess)

namespace ShellM

variable {α β : Type}

def bind (m : ShellM α) (f : α → ShellM β) : ShellM β := fun process =>
  m process >>= fun
    | (.ok a,process) => f a process
    | (.error e,process) => .pure (.error e,process)
    | (.executes path args,process) => .pure (.executes path args,process)
    | (.exits status,process) => .pure (.exits status,process)

instance : Monad ShellM where
  pure a := fun process => .pure (.ok a,process)
  bind := bind

def perform (call : ShellSys) : ShellM call.Res := fun process =>
  .call call fun res => .pure (.ok res,process)

def fail (e : IoError) : ShellM α := fun process => .pure (.error e,process)

def abort (message : String) : ShellM α := fun _ => .panic message

/-- `_exit`. -/
def exit (status : ℤ) : ShellM α := fun process => .pure (.exits status,process)

def modify (f : PtyProcess → PtyProcess) : ShellM Unit := fun process => .pure (.ok (),f process)

def outcome : Except IoError α → Outcome α
  | .ok a => .ok a
  | .error e => .error e

/-- The same calls as calls of these two. -/
def hoisted (p : SysProg α) : Prog ShellSys ShellSys.Res α := p.hoist ShellSys.sys fun _ res => res

/-- A method of the parent alone. -/
def onSystem (m : ProcessM α) : ShellM α := fun process =>
  hoisted (m process) >>= fun result => .pure (outcome result.1,result.2)

/-- `CString::new` with its `unwrap`. -/
def cString (text : String) : ShellM String :=
  if '\x00' ∈ text.toList then abort "called Result::unwrap() on an Err value" else pure text

/-- A call of the child without which it gives up. -/
def demand (call : ShellSys) (value : call.Res → ℤ) : ShellM Unit := do
  let res ← perform call
  if value res < 0 then exit 1 else pure ()

def duplicateFds (slaveFd : ℤ) : ShellM Unit := do
  demand (.dup2 slaveFd 0) Ret.value
  demand (.dup2 slaveFd 1) Ret.value
  demand (.dup2 slaveFd 2) Ret.value

/-- `execle` with a path and arguments, and what follows when it returns. -/
def execute (program : String × List String) : ShellM Unit := do
  match ← perform (.execle program.1 program.2) with
  | none => fun process => .pure (.executes program.1 program.2,process)
  | some _ => exit 1

/-- `setup_child`, which does not return, up to the program and its arguments. -/
def setupChild (slaveFd : ℤ) (shell : ShellM (String × List String)) : ShellM Unit := do
  demand .setsid Ret.value
  demand (.sys (.setWinsize slaveFd 80 24)) Ret.value
  duplicateFds slaveFd
  let _ ← perform (.sys (.close slaveFd))
  let program ← shell
  execute program

/-- `spawn_new_shell`, up to how the terminal is opened, the C strings that the parent makes, and
the child. -/
def spawnNewShell (openPty : ShellM (ℤ × ℤ)) (strings : ShellM Unit) (child : ℤ → ShellM Unit)
    (shellPath : String) : ShellM Unit := do
  onSystem PtyProcess.closeMasterFd
  let (newMasterFd,newSlaveFd) ← openPty
  modify fun process => { process with masterFd := newMasterFd }
  strings
  let forked ← perform (.sys .fork)
  if forked.value = -1 then do
    let last ← onSystem (PtyProcess.cleanupFd newMasterFd newSlaveFd)
    fail (if last.value < 0 then last.error else forked.error)
  else if forked.value = 0 then do
    child newSlaveFd
    abort "internal error: entered unreachable code"
  else do
    let _ ← onSystem (PtyProcess.closeFd newSlaveFd)
    modify fun process => { process with pid := forked.value, command := shellPath }

def changeShell (openPty : ShellM (ℤ × ℤ)) (strings : ShellM Unit) (child : ℤ → ShellM Unit)
    (shellPath : String) : ShellM Unit := do
  onSystem (PtyProcess.killProcess sigterm)
  let _ ← onSystem (ProcessM.attempt (PtyProcess.waitpid 0))
  spawnNewShell openPty strings child shellPath

theorem bind_assoc {γ : Type} (m : ShellM α) (f : α → ShellM β) (g : β → ShellM γ) :
    m >>= f >>= g = m >>= fun a => f a >>= g := by
  funext process
  change (m process >>= _) >>= _ = m process >>= _
  rw [Prog.bind_assoc']
  refine congrArg _ (funext fun result => ?_)
  obtain ⟨a | e | ⟨path,args⟩ | status,now⟩ := result <;> rfl

theorem cString_eq {text : String} (h : '\x00' ∉ text.toList) : cString text = pure text := if_neg h

end ShellM

/-! ### The two platforms -/

inductive Platform
  | linux | macos
  deriving DecidableEq

/-- `Path::file_name`: the last component, if it is the name of something. -/
def Path.fileName (path : String) : Option String :=
  match ((path.toList.splitOn '/').reverse.dropWhile fun part => part = [] || part = ['.']).head? with
  | none => none
  | some part => if part = ['.','.'] then none else some (String.ofList part)

namespace Linux

open ShellM

def openNewPty : ShellM (ℤ × ℤ) := onSystem PtyProcess.openNewPty

/-- The path of the new shell is not passed on. -/
def setupChild (slaveFd : ℤ) : ShellM Unit := ShellM.setupChild slaveFd do
  let shell ← cString "/bin/bash"
  let shellArg ← cString "bash"
  pure (shell,[shellArg])

/-- Both strings are made before the fork and not used after it. -/
def strings (shellPath : String) : ShellM Unit := do
  let _ ← cString shellPath
  let _ ← cString shellPath
  pure ()

def changeShell (shellPath : String) : ShellM Unit :=
  ShellM.changeShell openNewPty (strings shellPath) setupChild shellPath

/-! The method that the command handler calls is the parent's side. -/

theorem onSystem_bind {α β : Type} (m : ProcessM α) (f : α → ProcessM β) :
    onSystem (m >>= f) = onSystem m >>= fun a => onSystem (f a) := by
  funext process
  change hoisted (m process >>= _) >>= _ = (hoisted (m process) >>= _) >>= _
  rw [hoisted,Prog.hoist_bind,Prog.bind_assoc',Prog.bind_assoc']
  refine congrArg _ (funext fun result => ?_)
  obtain ⟨result | a,now⟩ := result <;> rfl

theorem onSystem_changeShell (shellPath : String) : onSystem (PtyProcess.changeShell shellPath) =
    ShellM.changeShell openNewPty (strings shellPath) (fun _ => pure ()) shellPath := by
  rw [PtyProcess.changeShell,ShellM.changeShell,onSystem_bind]
  refine congrArg _ (funext fun _ => ?_)
  rw [onSystem_bind]
  refine congrArg _ (funext fun _ => ?_)
  rw [PtyProcess.spawnNewShell,ShellM.spawnNewShell,onSystem_bind]
  refine congrArg _ (funext fun _ => ?_)
  rw [onSystem_bind]
  refine congrArg _ (funext fun fds => ?_)
  rw [onSystem_bind]
  refine congrArg _ (funext fun _ => ?_)
  by_cases hnul : '\x00' ∈ shellPath.toList
  · rw [if_pos hnul,strings,cString,if_pos hnul]
    rfl
  rw [if_neg hnul,strings,cString,if_neg hnul,onSystem_bind]
  change _ = perform (.sys .fork) >>= _
  refine congrArg _ (funext fun forked => ?_)
  split_ifs
  · rw [onSystem_bind]
    rfl
  · rfl
  · rw [onSystem_bind]
    rfl

end Linux

namespace Macos

open ShellM

/-- A terminal that is open and cannot be set up is not closed. -/
def openPty : ShellM (ℤ × ℤ) := do
  let (ret,masterFd,slaveFd) ← perform .openpty
  if ret.value ≠ 0 then fail ret.error else do
  let master ← perform (.sys (.setWinsize masterFd 100 40))
  if master.value ≠ 0 then fail master.error else do
  let slave ← perform (.sys (.setWinsize slaveFd 100 40))
  if slave.value ≠ 0 then fail slave.error else do
  let flags ← perform (.getFlags masterFd)
  if flags.value < 0 then fail flags.error else do
  let set ← perform (.setNonblocking masterFd flags.value)
  if set.value < 0 then fail set.error else pure (masterFd,slaveFd)

def setupChild (shellPath : String) (slaveFd : ℤ) : ShellM Unit := ShellM.setupChild slaveFd do
  let shell ← cString shellPath
  let shellArg ← cString ((Path.fileName shellPath).getD "shell")
  let optionI ← cString "-i"
  pure (shell,[shellArg,optionI])

def changeShell (shellPath : String) : ShellM Unit :=
  ShellM.changeShell openPty (pure ()) (setupChild shellPath) shellPath

end Macos

end NodeRustPty
