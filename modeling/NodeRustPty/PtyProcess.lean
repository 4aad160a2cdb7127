import NodeRustPty.Interaction
import NodeRustPty.Multiplexer

/-! `PtyProcess` of `platform/linux.rs` in the parent process: each method is a program
over the system calls it makes. -/
namespace NodeRustPty

/-- An `io::Error`: the error number of the system, if it comes from there, and its text. -/
structure IoError where
  rawOsError : Option ℤ
  text : String
  deriving DecidableEq

/-- What a system call returns, with `last_os_error` after it. -/
structure Ret where
  value : ℤ
  error : IoError
  deriving DecidableEq

inductive LevelFilter
  | error | warn | info | debug | trace
  deriving DecidableEq

inductive Sys
  | write (fd : ℤ) (data : Bytes)
  | read (fd : ℤ) (length : ℕ)
  | setWinsize (fd : ℤ) (cols rows : UInt16)
  | close (fd : ℤ)
  | kill (pid : ℤ) (signal : Int32)
  | waitpid (pid : ℤ) (options : Int32)
  | posixOpenpt
  | grantpt (fd : ℤ)
  | unlockpt (fd : ℤ)
  | ptsname (fd : ℤ)
  | openSlave (name : String)
  | fork
  | setVar (key value : String)
  | setMaxLevel (level : LevelFilter)
  deriving DecidableEq

/-- The answer of a system call. A read fills the buffer, and a name that `ptsname` points
to may not be valid UTF-8. -/
abbrev Sys.Res : Sys → Type
  | .read _ _ => Ret × Bytes
  | .ptsname _ => Ret × Option String
  | .setVar _ _ => Unit
  | .setMaxLevel _ => Unit
  | _ => Ret

abbrev SysProg := Prog Sys Sys.Res

structure PtyProcess where
  masterFd : ℤ
  pid : ℤ
  command : String
  deriving DecidableEq

def sigterm : Int32 := 15
def sigkill : Int32 := 9
def wnohang : Int32 := 1
def esrch : ℤ := 3

/-- A method of `PtyProcess`: it may return an error and may have changed the process. -/
def ProcessM (α : Type) := PtyProcess → SysProg (Except IoError α × PtyProcess)

namespace ProcessM

variable {α β : Type}

def bind (m : ProcessM α) (f : α → ProcessM β) : ProcessM β := fun process =>
  m process >>= fun
    | (.ok a,process) => f a process
    | (.error e,process) => .pure (.error e,process)

instance : Monad ProcessM where
  pure a := fun process => .pure (.ok a,process)
  bind := bind

/-- A system call. -/
def sys (call : Sys) : ProcessM call.Res := fun process =>
  .call call fun res => .pure (.ok res,process)

def fail (e : IoError) : ProcessM α := fun process => .pure (.error e,process)

/-- A panic, of an `unwrap` or in `set_var`. -/
def abort (message : String) : ProcessM α := fun _ => .panic message

def self : ProcessM PtyProcess := fun process => .pure (.ok process,process)

def modify (f : PtyProcess → PtyProcess) : ProcessM Unit := fun process => .pure (.ok (),f process)

/-- The result of a method as a value to match on. -/
def attempt (m : ProcessM α) : ProcessM (Except IoError α) := fun process =>
  m process >>= fun result => .pure (.ok result.1,result.2)

end ProcessM

namespace PtyProcess

open ProcessM

/-- The rule of most calls: a result that `bad` rejects is an error. -/
def check (ret : Ret) (bad : ℤ → Bool) : ProcessM Unit :=
  if bad ret.value then fail ret.error else pure ()

theorem check_bad {ret : Ret} {bad : ℤ → Bool} (h : bad ret.value = true) :
    check ret bad = fail ret.error := if_pos h

theorem check_good {ret : Ret} {bad : ℤ → Bool} (h : bad ret.value = false) :
    check ret bad = pure () := if_neg (by simp [h])

def writeData (data : Bytes) : ProcessM ℕ := do
  let ret ← sys (.write (← self).masterFd data)
  check ret (· < 0)
  pure ret.value.toNat

/-- The bytes read into a buffer of the given length. -/
def readData (length : ℕ) : ProcessM Bytes := do
  let answer ← sys (.read (← self).masterFd length)
  check answer.1 (· < 0)
  pure (answer.2.take answer.1.value.toNat)

def resize (cols rows : UInt16) : ProcessM Unit := do
  let ret ← sys (.setWinsize (← self).masterFd cols rows)
  check ret (· ≠ 0)

def killProcess (signal : Int32) : ProcessM Unit := do
  let ret ← sys (.kill (← self).pid signal)
  check ret (· ≠ 0)

def waitpid (options : Int32) : ProcessM ℤ := do
  let ret ← sys (.waitpid (← self).pid options)
  check ret (· = -1)
  pure ret.value

theorem waitpid_eq (process : PtyProcess) (options : Int32) :
    waitpid options process = .call (.waitpid process.pid options) fun (ret : Ret) =>
      .pure (if ret.value = -1 then .error ret.error else .ok ret.value,process) := by
  refine congrArg _ (funext fun (ret : Ret) => ?_)
  change (check ret (· = -1) >>= fun _ => (pure ret.value : ProcessM ℤ)) process = _
  by_cases h : ret.value = -1
  · rw [check_bad (by simpa using h),if_pos h]
    rfl
  · rw [check_good (by simpa using h),if_neg h]
    rfl

def closeFd (fd : ℤ) : ProcessM Ret := sys (.close fd)

def closeMasterFd : ProcessM Unit := do
  let ret ← closeFd (← self).masterFd
  check ret (· ≠ 0)

def isRunning : ProcessM Bool := do
  let ret ← sys (.kill (← self).pid 0)
  if ret.value = 0 then pure true
  else if ret.value = -1 then
    if ret.error.rawOsError = some esrch then pure false else fail ret.error
  else pure false

def status : ProcessM String := do
  let ret ← sys (.kill (← self).pid 0)
  if ret.value = 0 then pure "Running"
  else if ret.value = -1 then
    if ret.error.rawOsError = some esrch then pure "Not Running" else fail ret.error
  else pure "Unknown"

/-- The keys and values that no environment can hold. -/
def unsettable (key value : String) : Prop :=
  key = "" ∨ '=' ∈ key.toList ∨ '\x00' ∈ key.toList ∨ '\x00' ∈ value.toList

instance (key value : String) : Decidable (unsettable key value) :=
  inferInstanceAs (Decidable (_ ∨ _))

/-- `std::env::set_var` panics on these. -/
def setVar (key value : String) : ProcessM Unit :=
  if unsettable key value then abort "failed to set environment variable"
  else sys (.setVar key value)

def setEnv (key value : String) : ProcessM Unit := do
  if ← isRunning then
    setVar key value
    discard (writeData s!"export {key}={value}\n".toUTF8.toList)
  else fail ⟨none,"PTY process is not running"⟩

def setLogLevel (level : String) : ProcessM Unit :=
  sys (.setMaxLevel (match level.toLower with
    | "error" => .error
    | "warn" => .warn
    | "info" => .info
    | "debug" => .debug
    | "trace" => .trace
    | _ => .info))

/-- An early return of `open_new_pty`. Its error is the last one after closing the master. -/
def failOpen (masterFd : ℤ) (e : IoError) : ProcessM (ℤ × ℤ) := do
  let ret ← closeFd masterFd
  fail (if ret.value < 0 then ret.error else e)

def openNewPty : ProcessM (ℤ × ℤ) := do
  let opened ← sys .posixOpenpt
  check opened (· < 0)
  let masterFd := opened.value
  let granted ← sys (.grantpt masterFd)
  if granted.value ≠ 0 then failOpen masterFd granted.error else do
  let unlocked ← sys (.unlockpt masterFd)
  if unlocked.value ≠ 0 then failOpen masterFd unlocked.error else do
  let named ← sys (.ptsname masterFd)
  if named.1.value = 0 then failOpen masterFd named.1.error else do
  match named.2 with
  | none => fail ⟨none,"Invalid PTY name"⟩
  | some slaveName => do
    let slave ← sys (.openSlave slaveName)
    if slave.value < 0 then failOpen masterFd slave.error else pure (masterFd,slave.value)

def cleanupFd (masterFd slaveFd : ℤ) : ProcessM Ret := do
  let _ ← closeFd masterFd
  closeFd slaveFd

/-- The child of the fork runs the shell or exits, so only the parent comes back. -/
def spawnNewShell (shellPath : String) : ProcessM Unit := do
  closeMasterFd
  let (newMasterFd,newSlaveFd) ← openNewPty
  modify fun process => { process with masterFd := newMasterFd }
  if '\x00' ∈ shellPath.toList then abort "called Result::unwrap() on an Err value" else do
  let forked ← sys .fork
  if forked.value = -1 then do
    let last ← cleanupFd newMasterFd newSlaveFd
    fail (if last.value < 0 then last.error else forked.error)
  else if forked.value = 0 then abort "internal error: entered unreachable code"
  else do
    let _ ← closeFd newSlaveFd
    modify fun process => { process with pid := forked.value, command := shellPath }

def changeShell (shellPath : String) : ProcessM Unit := do
  killProcess sigterm
  let _ ← attempt (waitpid 0)
  spawnNewShell shellPath

end PtyProcess
end NodeRustPty
