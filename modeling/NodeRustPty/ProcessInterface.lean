import NodeRustPty.EnvExports
import NodeRustPty.ShellForks
import NodeRustPty.TearDown

/-! `PtyProcessInterface`, through which the multiplexer reaches its process, beside the
methods that the platforms have under the same names. -/
namespace NodeRustPty

/-- The calls of these methods on both platforms. -/
inductive ProcSys
  | sys (call : Sys)
  /-- `signal::kill` with `SIGWINCH`. -/
  | sigwinch (pid : ℤ)
  | sleep (milliseconds : ℕ)
  | getWinsize (fd : ℤ)
  deriving DecidableEq

/-- An error of `signal::kill` is known by its text; a window has columns and rows. -/
abbrev ProcSys.Res : ProcSys → Type
  | .sys call => call.Res
  | .sigwinch _ => Option String
  | .sleep _ => Unit
  | .getWinsize _ => Ret × UInt16 × UInt16

abbrev ProcProg := Prog ProcSys ProcSys.Res

abbrev ProcTrace := List (Prog.Event ProcSys ProcSys.Res)

/-- What the multiplexer asks of a process. -/
structure ProcessMethods where
  isRunning : ProcProg (Except IoError Bool)
  killProcess : Int32 → ProcProg (Except IoError Unit)
  waitpid : Int32 → ProcProg (Except IoError ℤ)
  resize : UInt16 → UInt16 → ProcProg (Except IoError Unit)

/-- The trait for a process. -/
def PtyProcessInterface.methods : ProcessMethods where
  isRunning := pure (.ok true)
  killProcess _ := pure (.ok ())
  waitpid _ := pure (.ok 0)
  resize _ _ := pure (.ok ())

namespace PtyProcess

def onProc {α : Type} (m : ProcessM α) (process : PtyProcess) : ProcProg (Except IoError α) :=
  (m process).hoist ProcSys.sys (fun _ res => res) >>= fun result => pure result.1

def methods (process : PtyProcess) : ProcessMethods where
  isRunning := onProc isRunning process
  killProcess signal := onProc (killProcess signal) process
  waitpid options := onProc (waitpid options) process
  resize cols rows := onProc (resize cols rows) process

end PtyProcess

/-- The size is set, the child told of it, and the size read back. -/
def Macos.resize (process : PtyProcess) (cols rows : UInt16) : ProcProg (Except IoError Unit) := do
  let (set : Ret) ← .perform (ProcSys.sys (.setWinsize process.masterFd cols rows))
  if set.value ≠ 0 then pure (.error set.error) else do
  match ← .perform (ProcSys.sigwinch process.pid) with
  | some text => pure (.error ⟨none,text⟩)
  | none => do
    .perform (ProcSys.sleep 200)
    let (got,currentCols,currentRows) ← .perform (ProcSys.getWinsize process.masterFd)
    if got.value ≠ 0 then pure (.error got.error)
    else if currentRows ≠ rows ∨ currentCols ≠ cols then
      pure (.error ⟨none,"Failed to verify window size after resize"⟩)
    else pure (.ok ())

/-- The other methods are as on Linux. -/
def Macos.methods (process : PtyProcess) : ProcessMethods := { process.methods with resize := Macos.resize process }

def Platform.methods : Platform → PtyProcess → ProcessMethods
  | .linux => PtyProcess.methods
  | .macos => Macos.methods

/-! ### The methods of the multiplexer -/

/-- The sessions, and how many signals to shut down were sent to the background task. -/
structure MuxState where
  sessions : Sessions
  shutdowns : ℕ

namespace MuxState

variable (methods : ProcessMethods)

def closeAllSessions (s : MuxState) : MuxState := { s with sessions := s.sessions.clear }

/-- `shutdown_pty` and `force_shutdown_pty`, which differ in the signal. -/
def shutdownWith (signal : Int32) (s : MuxState) : ProcProg (Except String Unit × MuxState) := do
  match ← methods.killProcess signal with
  | .error e => pure (.error e.text,s)
  | .ok _ => do
    match ← methods.waitpid wnohang with
    | .error e => pure (.error e.text,s)
    | .ok _ => pure (.ok (),{ s.closeAllSessions with shutdowns := s.shutdowns+1 })

def shutdownPty (s : MuxState) : ProcProg (Except String Unit × MuxState) := shutdownWith methods sigterm s

def forceShutdownPty (s : MuxState) : ProcProg (Except String Unit × MuxState) := shutdownWith methods sigkill s

def resize (cols rows : UInt16) (s : MuxState) : ProcProg (Except String Unit × MuxState) := do
  match ← methods.resize cols rows with
  | .error e => pure (.error e.text,s)
  | .ok _ => pure (.ok (),s)

def status (s : MuxState) : ProcProg (Except String String × MuxState) := do
  match ← methods.isRunning with
  | .ok true => pure (.ok "Running",s)
  | .ok false => pure (.ok "Terminated",s)
  | .error e => pure (.error e.text,s)

end MuxState

/-! ### The same method twice -/

inductive Method
  | isRunning
  | killProcess (signal : Int32)
  | waitpid (options : Int32)
  | resize (cols rows : UInt16)
  deriving DecidableEq

abbrev Method.Value : Method → Type
  | .isRunning => Bool
  | .waitpid _ => ℤ
  | _ => Unit

def ProcessMethods.run (methods : ProcessMethods) : (method : Method) → ProcProg (Except IoError method.Value)
  | .isRunning => methods.isRunning
  | .killProcess signal => methods.killProcess signal
  | .waitpid options => methods.waitpid options
  | .resize cols rows => methods.resize cols rows

/-- The same calls with the same results, whatever the answers. -/
def SameRuns {α : Type} (p q : ProcProg α) : Prop := ∀ trace result, p.Traces trace result ↔ q.Traces trace result

section

variable {α : Type} {m : ProcessM α} {process : PtyProcess} {trace : ProcTrace}

theorem onProc_call {call : Sys} {result : call.Res → Except IoError α}
    (h : m process = .call call fun res => .pure (result res,process)) :
    PtyProcess.onProc m process = .call (ProcSys.sys call) fun res => .pure (result res) := by
  rw [PtyProcess.onProc,h]
  rfl

theorem isRunning_onProc (process : PtyProcess) : PtyProcess.onProc PtyProcess.isRunning process =
    .call (ProcSys.sys (.kill process.pid 0)) fun (ret : Ret) => .pure (runningResult ret) :=
  onProc_call (isRunning_eq process)

theorem killProcess_onProc (process : PtyProcess) (signal : Int32) :
    PtyProcess.onProc (PtyProcess.killProcess signal) process =
      .call (ProcSys.sys (.kill process.pid signal)) fun (ret : Ret) =>
        .pure (if ret.value ≠ 0 then .error ret.error else .ok ()) :=
  onProc_call (PtyProcess.killProcess_eq process signal)

theorem waitpid_onProc (process : PtyProcess) (options : Int32) :
    PtyProcess.onProc (PtyProcess.waitpid options) process =
      .call (ProcSys.sys (.waitpid process.pid options)) fun (ret : Ret) =>
        .pure (if ret.value = -1 then .error ret.error else .ok ret.value) :=
  onProc_call (PtyProcess.waitpid_eq process options)

theorem resize_onProc (process : PtyProcess) (cols rows : UInt16) :
    PtyProcess.onProc (PtyProcess.resize cols rows) process =
      .call (ProcSys.sys (.setWinsize process.masterFd cols rows)) fun (ret : Ret) =>
        .pure (if ret.value ≠ 0 then .error ret.error else .ok ()) :=
  onProc_call (PtyProcess.resize_eq process cols rows)

end

/-- Every method of a process makes a call first. -/
theorem own_call (platform : Platform) (process : PtyProcess) (method : Method) :
    ∃ call next, (platform.methods process).run method = .call call next := by
  cases method with
  | isRunning => cases platform <;> exact ⟨_,_,isRunning_onProc process⟩
  | killProcess signal => cases platform <;> exact ⟨_,_,killProcess_onProc process signal⟩
  | waitpid options => cases platform <;> exact ⟨_,_,waitpid_onProc process options⟩
  | resize cols rows =>
    cases platform with
    | linux => exact ⟨_,_,resize_onProc process cols rows⟩
    | macos => exact ⟨_,_,rfl⟩

/-- The trait answers by itself. -/
theorem interface_pure (method : Method) : ∃ result, PtyProcessInterface.methods.run method = .pure result := by
  cases method <;> exact ⟨_,rfl⟩

theorem not_sameRuns (platform : Platform) (process : PtyProcess) (method : Method) :
    ¬SameRuns ((platform.methods process).run method) (PtyProcessInterface.methods.run method) := by
  intro h
  obtain ⟨call,next,hcall⟩ := own_call platform process method
  obtain ⟨result,hresult⟩ := interface_pure method
  have hpure : (PtyProcessInterface.methods.run method).Traces [] result := by
    rw [hresult]
    exact .pure result
  have hown := (h [] result).mpr hpure
  rw [hcall] at hown
  obtain ⟨res,rest,htrace,-⟩ := Prog.traces_call.mp hown
  exact absurd htrace nofun

/-! ### What the multiplexer promises -/

inductive MuxRequest
  | shutdownPty | forceShutdownPty
  | resize (cols rows : UInt16)
  deriving DecidableEq

def MuxRequest.run (methods : ProcessMethods) (s : MuxState) : MuxRequest → ProcProg (Except String Unit × MuxState)
  | .shutdownPty => s.shutdownPty methods
  | .forceShutdownPty => s.forceShutdownPty methods
  | .resize cols rows => s.resize methods cols rows

/-- The signal was sent, or the size was set. -/
def MuxRequest.Done (process : PtyProcess) (trace : ProcTrace) : MuxRequest → Prop
  | .shutdownPty => ∃ ret : Ret, ⟨.sys (.kill process.pid sigterm),ret⟩ ∈ trace ∧ ret.value = 0
  | .forceShutdownPty => ∃ ret : Ret, ⟨.sys (.kill process.pid sigkill),ret⟩ ∈ trace ∧ ret.value = 0
  | .resize cols rows => ∃ ret : Ret, ⟨.sys (.setWinsize process.masterFd cols rows),ret⟩ ∈ trace ∧ ret.value = 0

/-- A request that returns `Ok` has been done. -/
def Effective (methods : ProcessMethods) (process : PtyProcess) (request : MuxRequest) : Prop :=
  ∀ s trace s', (request.run methods s).Traces trace (.ok (),s') → request.Done process trace

def stateText (alive : Bool) : String := if alive then "Running" else "Terminated"

/-- When the system says of the child only whether it is alive, a `status` that returns `Ok` says the same. -/
def Reports (methods : ProcessMethods) (process : PtyProcess) (alive : Bool) : Prop :=
  ∀ s trace text s', (MuxState.status methods s).Traces trace (.ok text,s') →
    (∀ ret : Ret, ⟨.sys (.kill process.pid 0),ret⟩ ∈ trace → runningResult ret = .ok alive) → text = stateText alive

variable {process : PtyProcess} {trace : ProcTrace} {s s' : MuxState}

/-- A request that fails whenever its first call does. -/
theorem call_succeeds {α : Type} {op : ProcSys} {good : op.Res → Prop} {first : op.Res → ProcProg (Except IoError α)}
    {next : Except IoError α → ProcProg (Except String Unit × MuxState)}
    (hfirst : ∀ res, ¬good res → ∃ e, first res = .pure (.error e))
    (hnext : ∀ e trace, ¬(next (.error e)).Traces trace (.ok (),s'))
    (h : (Prog.call op first >>= next).Traces trace (.ok (),s')) : ∃ res, ⟨op,res⟩ ∈ trace ∧ good res := by
  obtain ⟨res,rest,rfl,hrest⟩ := Prog.traces_call.mp h
  refine ⟨res,List.mem_cons_self,?_⟩
  by_contra hbad
  obtain ⟨e,he⟩ := hfirst res hbad
  rw [he] at hrest
  exact hnext e rest hrest

theorem not_traces_error (e : String) (s : MuxState) (trace : ProcTrace) :
    ¬(Prog.pure (.error e,s) : ProcProg (Except String Unit × MuxState)).Traces trace (.ok (),s') := by
  intro h
  obtain ⟨-,hresult⟩ := Prog.traces_pure.mp h
  cases hresult

theorem shutdownWith_signals {methods : ProcessMethods} {signal : Int32}
    (hkill : methods.killProcess signal = .call (ProcSys.sys (.kill process.pid signal)) fun (ret : Ret) =>
      .pure (if ret.value ≠ 0 then .error ret.error else .ok ()))
    (h : (s.shutdownWith methods signal).Traces trace (.ok (),s')) :
    ∃ ret : Ret, ⟨.sys (.kill process.pid signal),ret⟩ ∈ trace ∧ ret.value = 0 := by
  rw [MuxState.shutdownWith,hkill] at h
  refine call_succeeds (fun (ret : Ret) hret => ⟨ret.error,?_⟩) (fun e trace => not_traces_error e.text s trace) h
  rw [if_pos hret]

theorem macos_resize_call (process : PtyProcess) (cols rows : UInt16) : ∃ next, Macos.resize process cols rows =
    .call (ProcSys.sys (.setWinsize process.masterFd cols rows)) fun (ret : Ret) =>
      if ret.value ≠ 0 then .pure (.error ret.error) else next := ⟨_,rfl⟩

theorem resize_sets {platform : Platform} {cols rows : UInt16}
    (h : (s.resize (platform.methods process) cols rows).Traces trace (.ok (),s')) :
    ∃ ret : Ret, ⟨.sys (.setWinsize process.masterFd cols rows),ret⟩ ∈ trace ∧ ret.value = 0 := by
  cases platform with
  | linux =>
    have hresize : (Platform.linux.methods process).resize cols rows = _ := resize_onProc process cols rows
    rw [MuxState.resize,hresize] at h
    refine call_succeeds (fun (ret : Ret) hret => ⟨ret.error,?_⟩) (fun e trace => not_traces_error e.text s trace) h
    rw [if_pos hret]
  | macos =>
    obtain ⟨next,hnext⟩ := macos_resize_call process cols rows
    have hresize : (Platform.macos.methods process).resize cols rows = _ := hnext
    rw [MuxState.resize,hresize] at h
    refine call_succeeds (fun (ret : Ret) hret => ⟨ret.error,?_⟩) (fun e trace => not_traces_error e.text s trace) h
    rw [if_pos hret]

/-- Over the methods of the process itself the multiplexer would keep its word. -/
theorem own_effective (platform : Platform) (process : PtyProcess) (request : MuxRequest) :
    Effective (platform.methods process) process request := by
  intro s trace s' h
  cases request with
  | shutdownPty => cases platform <;> exact shutdownWith_signals (killProcess_onProc process sigterm) h
  | forceShutdownPty => cases platform <;> exact shutdownWith_signals (killProcess_onProc process sigkill) h
  | resize cols rows => exact resize_sets h

theorem own_reports (platform : Platform) (process : PtyProcess) (alive : Bool) :
    Reports (platform.methods process) process alive := by
  intro s trace text s' h htells
  have hisRunning : (platform.methods process).isRunning = .call (ProcSys.sys (.kill process.pid 0))
      fun (ret : Ret) => .pure (runningResult ret) := by
    cases platform <;> exact isRunning_onProc process
  rw [MuxState.status,hisRunning] at h
  obtain ⟨(ret : Ret),rest,rfl,hrest⟩ := Prog.traces_call.mp h
  have hret := htells ret List.mem_cons_self
  cases alive with
  | true =>
    simp only [hret] at hrest
    obtain ⟨-,hresult⟩ := Prog.traces_pure.mp hrest
    exact (Except.ok.inj (congrArg Prod.fst hresult)).symm
  | false =>
    simp only [hret] at hrest
    obtain ⟨-,hresult⟩ := Prog.traces_pure.mp hrest
    exact (Except.ok.inj (congrArg Prod.fst hresult)).symm

def noSessions : MuxState := ⟨Sessions.empty,0⟩

/-- Over the trait every request succeeds without a call. -/
theorem interface_not_effective (process : PtyProcess) (request : MuxRequest) :
    ¬Effective PtyProcessInterface.methods process request := by
  intro h
  obtain ⟨s',hrun⟩ : ∃ s', (request.run PtyProcessInterface.methods noSessions).Traces [] (.ok (),s') := by
    cases request <;> exact ⟨_,.pure _⟩
  have hdone := h noSessions [] s' hrun
  cases request <;> exact absurd hdone (by simp [MuxRequest.Done])

theorem interface_reports_iff (process : PtyProcess) (alive : Bool) :
    Reports PtyProcessInterface.methods process alive ↔ alive = true := by
  constructor
  · intro h
    have htext := h noSessions [] "Running" noSessions (.pure _) (by simp)
    cases alive with
    | true => rfl
    | false => exact absurd htext (by decide)
  · rintro rfl s trace text s' h -
    change (Prog.pure (Except.ok "Running",s)).Traces trace (Except.ok text,s') at h
    obtain ⟨-,hresult⟩ := Prog.traces_pure.mp h
    exact (Except.ok.inj (congrArg Prod.fst hresult)).symm

/-- No method of the trait runs as the one of the process does, no shutdown or resize of the
multiplexer that returns `Ok` has been done, and its status is right of a live child only. -/
theorem interface_differs (process : PtyProcess) :
    (∀ platform method,
      ¬SameRuns ((Platform.methods platform process).run method) (PtyProcessInterface.methods.run method)) ∧
    (∀ request, ¬Effective PtyProcessInterface.methods process request) ∧
    ∀ alive, Reports PtyProcessInterface.methods process alive ↔ alive = true :=
  ⟨fun platform method => not_sameRuns platform process method,interface_not_effective process,
    interface_reports_iff process⟩

/-- A SIGTERM that the trait does not send. -/
theorem interface_not_same : ¬∀ (platform : Platform) (process : PtyProcess) (method : Method),
    SameRuns ((platform.methods process).run method) (PtyProcessInterface.methods.run method) :=
  fun h => not_sameRuns .linux ⟨5,42,"/bin/bash"⟩ (.killProcess sigterm)
    (h .linux ⟨5,42,"/bin/bash"⟩ (.killProcess sigterm))

end NodeRustPty
