import NodeRustPty.PtyProcess
import NodeRustPty.Utf8

/-! `pty/commands.rs` and `pty/command_handler.rs`: the loop that owns the process slot
and answers every command on the command's own responder. -/
namespace NodeRustPty

inductive PtyResult
  | success (message : String)
  | data (bytes : Bytes)
  | failure (message : String)
  deriving DecidableEq

/-- A command with the number of its `oneshot` responder. -/
inductive PtyCommand
  | write (data : Bytes) (responder : ℕ)
  | read (responder : ℕ)
  | resize (cols rows : UInt16) (responder : ℕ)
  | execute (command : String) (responder : ℕ)
  | close (responder : ℕ)
  | forceKill (responder : ℕ)
  | killProcess (signal : Int32) (responder : ℕ)
  | waitPid (options : Int32) (responder : ℕ)
  | closeMasterFd (responder : ℕ)
  | broadcast (data : Bytes) (responder : ℕ)
  | readAll (responder : ℕ)
  | readFromSession (sessionId : UInt32) (responder : ℕ)
  | readAllSessions (responder : ℕ)
  | mergeSessions (sessionIds : List UInt32) (responder : ℕ)
  | splitSession (sessionId : UInt32) (responder : ℕ)
  | listSessions (responder : ℕ)
  | setEnv (key value : String) (responder : ℕ)
  | changeShell (shellPath : String) (responder : ℕ)
  | status (responder : ℕ)
  | setLogLevel (level : String) (responder : ℕ)
  | shutdownPty (responder : ℕ)
  | createSession (responder : ℕ)
  | removeSession (sessionId : UInt32) (responder : ℕ)
  | closeAllSessions (responder : ℕ)
  | sendToSession (sessionId : UInt32) (data : Bytes) (responder : ℕ)
  deriving DecidableEq

/-- A method of the session table. -/
inductive TableCall
  | createSession
  | removeSession (sessionId : UInt32)
  | sendToSession (sessionId : UInt32) (data : Bytes)
  | broadcast (data : Bytes)
  | readFromSession (sessionId : UInt32)
  | readAllSessions
  | mergeSessions (sessionIds : List UInt32)
  | splitSession (sessionId : UInt32)
  | closeAllSessions
  | listSessions
  deriving DecidableEq

abbrev TableCall.Value : TableCall → Type
  | .createSession => UInt32
  | .readFromSession _ => Bytes
  | .readAllSessions => List (UInt32 × Bytes)
  | .splitSession _ => UInt32 × UInt32
  | .listSessions => List UInt32
  | _ => Unit

/-- What the handler calls: the system, the session table, and the responders. -/
inductive Call
  | sys (call : Sys)
  | table (call : TableCall)
  | send (responder : ℕ) (result : PtyResult)
  deriving DecidableEq

/-- A method of the table returns its value or the reason of a `napi::Error`. -/
abbrev Call.Res : Call → Type
  | .sys call => call.Res
  | .table call => Except String call.Value
  | .send _ _ => Unit

abbrev HandlerProg := Prog Call Call.Res

/-- The pty slot of the handler. -/
abbrev Slot := Option PtyProcess

/-- The multiplexer's own process value. Its sessions are behind the calls of the table. -/
structure PtyMultiplexer where
  ptyProcess : PtyProcess
  deriving DecidableEq

namespace CommandHandler

def send (responder : ℕ) (result : PtyResult) : HandlerProg Unit := Prog.perform (Call.send responder result)

def table (call : TableCall) : HandlerProg (Except String call.Value) := Prog.perform (Call.table call)

def onSystem {α : Type} (p : SysProg α) : HandlerProg α := p.hoist Call.sys fun _ res => res

/-- How `{}` shows a `napi::Error` made from a reason. -/
def napiError (reason : String) : String := "GenericFailure, " ++ reason

/-! ### Handlers of the process slot -/

def notInitialized : IoError := ⟨none,"PTY process not initialized"⟩

/-- Sends a result on the responder and leaves the slot as given. -/
def answer {α : Type} (slot : Slot) (responder : ℕ) (success : α → PtyResult)
    (failure : String → String) : Except IoError α → HandlerProg Slot
  | .ok a => do
    send responder (success a)
    pure slot
  | .error e => do
    send responder (.failure (failure e.text))
    pure slot

/-- Runs a method on the process in the slot and answers with its result. -/
def answerProcess {α : Type} (slot : Slot) (method : ProcessM α) (responder : ℕ)
    (success : α → PtyResult) (failure : String → String) : HandlerProg Slot := do
  match slot with
  | some process => do
    let (result,process) ← onSystem (method process)
    answer (some process) responder success failure result
  | none => answer none responder success failure (.error notInitialized)

def handleWrite (slot : Slot) (data : Bytes) (responder : ℕ) : HandlerProg Slot :=
  answerProcess slot (PtyProcess.writeData data) responder
    (fun bytesWritten => .success s!"Wrote {bytesWritten} bytes") fun e => s!"Write error: {e}"

def handleRead (slot : Slot) (responder : ℕ) : HandlerProg Slot :=
  answerProcess slot (PtyProcess.readData 4096) responder .data fun e => s!"Read error: {e}"

def handleResize (slot : Slot) (cols rows : UInt16) (responder : ℕ) : HandlerProg Slot :=
  answerProcess slot (PtyProcess.resize cols rows) responder
    (fun _ => .success s!"Resized to cols: {cols}, rows: {rows}") fun e => s!"Resize error: {e}"

def handleExecute (slot : Slot) (command : String) (responder : ℕ) : HandlerProg Slot :=
  answerProcess slot (PtyProcess.writeData s!"{command}\n".toUTF8.toList) responder
    (fun _ => .success s!"Executed command '{command}'")
    fun e => s!"Execution error for command '{command}': {e}"

def handleKillProcess (slot : Slot) (signal : Int32) (responder : ℕ) : HandlerProg Slot :=
  answerProcess slot (PtyProcess.killProcess signal) responder
    (fun _ => .success s!"Sent signal {signal} successfully") fun e => s!"KillProcess error: {e}"

def handleWaitpid (slot : Slot) (options : Int32) (responder : ℕ) : HandlerProg Slot :=
  answerProcess slot (PtyProcess.waitpid options) responder
    (fun pid => .success (toString pid)) fun e => s!"WaitPid error: {e}"

def handleCloseMasterFd (slot : Slot) (responder : ℕ) : HandlerProg Slot :=
  answerProcess slot PtyProcess.closeMasterFd responder
    (fun _ => .success "Closed master_fd successfully") fun e => s!"Close error: {e}"

def handleReadAll (slot : Slot) (responder : ℕ) : HandlerProg Slot :=
  answerProcess slot (PtyProcess.readData 4096) responder .data fun e => s!"ReadAll error: {e}"

def handleSetEnv (slot : Slot) (key value : String) (responder : ℕ) : HandlerProg Slot :=
  answerProcess slot (PtyProcess.setEnv key value) responder
    (fun _ => .success "Environment variable set successfully") fun e => s!"SetEnv error: {e}"

def handleChangeShell (slot : Slot) (shellPath : String) (responder : ℕ) : HandlerProg Slot :=
  answerProcess slot (PtyProcess.changeShell shellPath) responder
    (fun _ => .success "Shell changed successfully") fun e => s!"ChangeShell error: {e}"

def handleStatus (slot : Slot) (responder : ℕ) : HandlerProg Slot :=
  answerProcess slot PtyProcess.status responder .success fun e => s!"Status error: {e}"

def handleSetLogLevel (slot : Slot) (level : String) (responder : ℕ) : HandlerProg Slot :=
  answerProcess slot (PtyProcess.setLogLevel level) responder
    (fun _ => .success "Log level set successfully") fun e => s!"SetLogLevel error: {e}"

/-! ### Handlers that take the process out of the slot -/

/-- Signal, wait and close. Failures to signal and to wait are only logged. -/
def tearDown (signal options : Int32) : ProcessM Unit := do
  let _ ← ProcessM.attempt (PtyProcess.killProcess signal)
  let _ ← ProcessM.attempt (PtyProcess.waitpid options)
  PtyProcess.closeMasterFd

/-- Takes the process, tears it down and answers. `absent` is the result with an empty slot. -/
def answerTaken (slot : Slot) (signal options : Int32) (absent : Except IoError Unit) (responder : ℕ)
    (success : String) (failure : String → String) : HandlerProg Slot := do
  match slot with
  | some process => do
    let (result,_) ← onSystem (tearDown signal options process)
    answer none responder (fun _ => .success success) failure result
  | none => answer none responder (fun _ => .success success) failure absent

def handleClose (slot : Slot) (responder : ℕ) : HandlerProg Slot :=
  answerTaken slot sigterm wnohang (.ok ()) responder "PTY closed successfully"
    fun e => s!"Close error: {e}"

def handleForceKill (slot : Slot) (responder : ℕ) : HandlerProg Slot :=
  answerTaken slot sigkill 0 (.error notInitialized) responder "Force killed PTY process successfully"
    fun e => s!"Force kill error: {e}"

def handleShutdownPty (slot : Slot) (responder : ℕ) : HandlerProg Slot :=
  answerTaken slot sigterm wnohang (.ok ()) responder "PTY shutdown successfully"
    fun e => s!"ShutdownPty error: {e}"

/-! ### Handlers of the multiplexer -/

/-- Runs a method of the multiplexer and answers with its result. -/
def answerMultiplexer {α : Type} (multiplexer : Option PtyMultiplexer)
    (method : PtyMultiplexer → HandlerProg (Except String α)) (responder : ℕ)
    (success : α → String) (failure : String → String) (uninitialized : String) : HandlerProg Unit := do
  match multiplexer with
  | some multiplexer => do
    match ← method multiplexer with
    | .ok a => send responder (.success (success a))
    | .error reason => send responder (.failure (failure (napiError reason)))
  | none => send responder (.failure uninitialized)

/-- The write of `send_to_session` and `broadcast` to the multiplexer's own process. -/
def writeProcess (multiplexer : PtyMultiplexer) (data : Bytes) : HandlerProg (Except String Unit) := do
  let (result,_) ← onSystem (PtyProcess.writeData data multiplexer.ptyProcess)
  pure (match result with
    | .ok _ => .ok ()
    | .error e => .error e.text)

def sendToSession (sessionId : UInt32) (data : Bytes) (multiplexer : PtyMultiplexer) :
    HandlerProg (Except String Unit) := do
  match ← table (.sendToSession sessionId data) with
  | .ok _ => writeProcess multiplexer data
  | .error reason => pure (.error reason)

def broadcast (data : Bytes) (multiplexer : PtyMultiplexer) : HandlerProg (Except String Unit) := do
  match ← table (.broadcast data) with
  | .ok _ => writeProcess multiplexer data
  | .error reason => pure (.error reason)

variable (multiplexer : Option PtyMultiplexer)

def handleCreateSession (responder : ℕ) : HandlerProg Unit :=
  answerMultiplexer multiplexer (fun _ => table .createSession) responder
    (fun sessionId => s!"Session ID: {sessionId}")
    (fun e => s!"CreateSession error: Failed to create session: {e}")
    "CreateSession error: Multiplexer not initialized"

def handleRemoveSession (sessionId : UInt32) (responder : ℕ) : HandlerProg Unit :=
  answerMultiplexer multiplexer (fun _ => table (.removeSession sessionId)) responder
    (fun _ => s!"Removed session {sessionId}")
    (fun e => s!"RemoveSession error: Failed to remove session: {e}")
    "RemoveSession error: Multiplexer not initialized"

def handleSendToSession (sessionId : UInt32) (data : Bytes) (responder : ℕ) : HandlerProg Unit :=
  answerMultiplexer multiplexer (sendToSession sessionId data) responder
    (fun _ => s!"Data sent to session {sessionId}")
    (fun e => s!"SendToSession error: Failed to send data to session {sessionId}: {e}")
    "SendToSession error: Multiplexer not initialized"

def handleCloseAllSessions (responder : ℕ) : HandlerProg Unit :=
  answerMultiplexer multiplexer (fun _ => table .closeAllSessions) responder
    (fun _ => "Closed all sessions successfully")
    (fun e => s!"CloseAllSessions error: Failed to close all sessions: {e}")
    "CloseAllSessions error: Multiplexer not initialized"

def handleListSessions (responder : ℕ) : HandlerProg Unit :=
  answerMultiplexer multiplexer (fun _ => table .listSessions) responder
    (fun sessions => s!"Sessions: {sessions}")
    (fun e => s!"ListSessions error: Failed to list sessions: {e}")
    "ListSessions error: Multiplexer not initialized"

def handleBroadcast (data : Bytes) (responder : ℕ) : HandlerProg Unit :=
  answerMultiplexer multiplexer (broadcast data) responder (fun _ => "Broadcast successful")
    (fun e => s!"Broadcast error: Failed to broadcast data: {e}")
    "Broadcast error: Multiplexer not initialized"

def handleReadFromSession (sessionId : UInt32) (responder : ℕ) : HandlerProg Unit :=
  answerMultiplexer multiplexer (fun _ => table (.readFromSession sessionId)) responder
    Utf8.fromUtf8Lossy (fun e => s!"Failed to read from session {sessionId}: {e}")
    "Multiplexer not initialized"

/-- One line of the answer to `ReadAllSessions`. -/
def sessionLine (entry : UInt32 × Bytes) : String :=
  s!"Session {entry.1}: {Utf8.fromUtf8Lossy entry.2}"

def handleReadAllSessions (responder : ℕ) : HandlerProg Unit :=
  answerMultiplexer multiplexer (fun _ => table .readAllSessions) responder
    (fun sessions => "\n".intercalate (sessions.map sessionLine))
    (fun e => s!"Failed to read sessions: {e}") "Multiplexer not initialized"

def handleMergeSessions (sessionIds : List UInt32) (responder : ℕ) : HandlerProg Unit :=
  answerMultiplexer multiplexer (fun _ => table (.mergeSessions sessionIds)) responder
    (fun _ => s!"Merged sessions {sessionIds}") (fun e => s!"MergeSessions error: {e}")
    "Multiplexer not initialized"

def handleSplitSession (sessionId : UInt32) (responder : ℕ) : HandlerProg Unit :=
  answerMultiplexer multiplexer (fun _ => table (.splitSession sessionId)) responder
    (fun _ => s!"Split session {sessionId} into sub-sessions") (fun e => s!"SplitSession error: {e}")
    "Multiplexer not initialized"

/-! ### The loop -/

/-- A handler of the multiplexer leaves the slot alone. -/
def keeping (slot : Slot) (handler : HandlerProg Unit) : HandlerProg Slot := do
  handler
  pure slot

def handle (slot : Slot) : PtyCommand → HandlerProg Slot
  | .createSession responder => keeping slot (handleCreateSession multiplexer responder)
  | .removeSession sessionId responder =>
    keeping slot (handleRemoveSession multiplexer sessionId responder)
  | .closeAllSessions responder => keeping slot (handleCloseAllSessions multiplexer responder)
  | .listSessions responder => keeping slot (handleListSessions multiplexer responder)
  | .write data responder => handleWrite slot data responder
  | .read responder => handleRead slot responder
  | .resize cols rows responder => handleResize slot cols rows responder
  | .execute command responder => handleExecute slot command responder
  | .close responder => handleClose slot responder
  | .forceKill responder => handleForceKill slot responder
  | .killProcess signal responder => handleKillProcess slot signal responder
  | .waitPid options responder => handleWaitpid slot options responder
  | .closeMasterFd responder => handleCloseMasterFd slot responder
  | .broadcast data responder => keeping slot (handleBroadcast multiplexer data responder)
  | .sendToSession sessionId data responder =>
    keeping slot (handleSendToSession multiplexer sessionId data responder)
  | .readAll responder => handleReadAll slot responder
  | .readFromSession sessionId responder =>
    keeping slot (handleReadFromSession multiplexer sessionId responder)
  | .readAllSessions responder => keeping slot (handleReadAllSessions multiplexer responder)
  | .mergeSessions sessionIds responder =>
    keeping slot (handleMergeSessions multiplexer sessionIds responder)
  | .splitSession sessionId responder =>
    keeping slot (handleSplitSession multiplexer sessionId responder)
  | .setEnv key value responder => handleSetEnv slot key value responder
  | .changeShell shellPath responder => handleChangeShell slot shellPath responder
  | .status responder => handleStatus slot responder
  | .setLogLevel level responder => handleSetLogLevel slot level responder
  | .shutdownPty responder => handleShutdownPty slot responder

/-- The loop ends with the channel or after `ShutdownPty`. -/
def handleCommands (slot : Slot) : List PtyCommand → HandlerProg Slot
  | [] => pure slot
  | .shutdownPty responder::_ => handle multiplexer slot (.shutdownPty responder)
  | command::rest => do
    let slot ← handle multiplexer slot command
    handleCommands slot rest

end CommandHandler
end NodeRustPty
