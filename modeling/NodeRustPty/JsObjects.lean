import NodeRustPty.HashOrder
import NodeRustPty.ShellForks

/-! A `PtyProcess` as an object of JavaScript: the two encoders of `pty/handle.rs` and of the
platforms, and the decoders that read them. An object is a finite map of named properties,
with the native value that it wraps, if any. -/
namespace NodeRustPty
namespace Js

open Std

/-- `Multiplexer` of the platforms, not the one of `pty/multiplexer.rs`. -/
structure Multiplexer where
  sessions : ExtTreeMap UInt32 Int32

def Multiplexer.new : Multiplexer := ⟨∅⟩

structure Process where
  masterFd : Int32
  pid : Int32
  multiplexer : Multiplexer
  command : String

inductive JsValue (Object : Type)
  | number (value : Int32)
  | string (text : String)
  | object (object : Object)

/-- An object whose properties may be objects of the type `Object`. -/
structure JsObject (Object : Type) where
  properties : ExtTreeMap String (JsValue Object)
  wrapped : Option Multiplexer

/-- A call of napi that fails, or an error of the code with its reason. -/
inductive JsError
  | invalidArg
  | numberExpected
  | stringExpected
  | objectExpected
  | reason (text : String)
  deriving DecidableEq

variable {Object : Type}

def createObject : JsObject Object := ⟨∅,none⟩

namespace JsObject

def set (name : String) (value : JsValue Object) (object : JsObject Object) : JsObject Object :=
  { object with properties := object.properties.insert name value }

def get (name : String) (object : JsObject Object) : Option (JsValue Object) := object.properties[name]?

def missing (name : String) : JsError := .reason ("Missing '" ++ name ++ "' field")

def getInt32 (name : String) (object : JsObject Object) : Except JsError Int32 :=
  match object.get name with
  | none => .error (missing name)
  | some (.number value) => .ok value
  | some _ => .error .numberExpected

def getUtf8 (name : String) (object : JsObject Object) : Except JsError String :=
  match object.get name with
  | none => .error (missing name)
  | some (.string text) => .ok text
  | some _ => .error .stringExpected

/-- `Env::unwrap`, which wants an object that was wrapped around a native value. -/
def unwrap (object : JsObject Object) : Except JsError Multiplexer :=
  match object.wrapped with
  | none => .error .invalidArg
  | some multiplexer => .ok multiplexer

end JsObject

/-- The object of a process, which has the one of its multiplexer in it. -/
abbrev JsProcess := JsObject (JsObject Empty)

def Multiplexer.intoJsObject (_ : Multiplexer) : JsObject Empty := createObject.set "type" (.string "Multiplexer")

/-! ### Encoders -/

def ptyProcessToJsObject (ptyProcess : Process) : JsProcess :=
  (createObject.set "pid" (.number ptyProcess.pid)).set "command" (.string ptyProcess.command)

namespace Process

def getMultiplexerJs (p : Process) : JsObject Empty := p.multiplexer.intoJsObject

def intoJsObject (p : Process) : JsProcess :=
  (((createObject.set "pid" (.number p.pid)).set "master_fd" (.number p.masterFd)).set "command"
    (.string p.command)).set "multiplexer" (.object p.getMultiplexerJs)

end Process

/-! ### Decoders -/

namespace Linux

def fromJsObject (object : JsProcess) : Except JsError Process := do
  let pid ← object.getInt32 "pid"
  let masterFd ← object.getInt32 "master_fd"
  let command ← object.getUtf8 "command"
  let multiplexer ← match object.get "multiplexer" with
    | none => .ok Multiplexer.new
    | some (.object multiplexer) => multiplexer.unwrap
    | some _ => .error .objectExpected
  return { pid,masterFd,multiplexer,command }

end Linux

namespace Macos

def fromJsObject (object : JsProcess) : Except JsError Process := do
  let pid ← object.getInt32 "pid"
  let masterFd ← object.getInt32 "master_fd"
  let command ← object.getUtf8 "command"
  return { pid,masterFd,multiplexer := Multiplexer.new,command }

end Macos

def fromJsObject : Platform → JsProcess → Except JsError Process
  | .linux => Linux.fromJsObject
  | .macos => Macos.fromJsObject

inductive Encoder
  | ptyProcessToJsObject | intoJsObject
  deriving DecidableEq

def encode : Encoder → Process → JsProcess
  | .ptyProcessToJsObject => ptyProcessToJsObject
  | .intoJsObject => Process.intoJsObject

/-! ### There and back -/

/-- Decoding gives a process with the same three fields. -/
def ComesBack (platform : Platform) (encoder : Encoder) (p : Process) : Prop :=
  ∃ q, fromJsObject platform (encode encoder p) = .ok q ∧
    q.pid = p.pid ∧ q.masterFd = p.masterFd ∧ q.command = p.command

namespace JsObject

variable {object : JsObject Object} {name other : String} {value : JsValue Object}

@[simp] theorem get_createObject : (createObject : JsObject Object).get name = none := by
  rw [get,createObject]
  exact ExtTreeMap.getElem?_empty

@[simp] theorem get_set : (object.set name value).get other = if other = name then some value else object.get other :=
  getElem?_insert_if object.properties name other value

end JsObject

variable (p : Process)

/-- Nothing writes the descriptor. -/
theorem ptyProcessToJsObject_masterFd : (ptyProcessToJsObject p).getInt32 "master_fd" =
    .error (JsObject.missing "master_fd") := by
  simp [JsObject.getInt32,ptyProcessToJsObject]

theorem ptyProcessToJsObject_pid : (ptyProcessToJsObject p).getInt32 "pid" = .ok p.pid := by
  simp [JsObject.getInt32,ptyProcessToJsObject]

theorem intoJsObject_fields : p.intoJsObject.getInt32 "pid" = .ok p.pid ∧
    p.intoJsObject.getInt32 "master_fd" = .ok p.masterFd ∧ p.intoJsObject.getUtf8 "command" = .ok p.command ∧
    p.intoJsObject.get "multiplexer" = some (.object p.getMultiplexerJs) := by
  simp [JsObject.getInt32,JsObject.getUtf8,Process.intoJsObject]

/-- Whichever platform decodes it, the first field that is missing is the descriptor. -/
theorem fromJsObject_ptyProcessToJsObject (platform : Platform) :
    fromJsObject platform (ptyProcessToJsObject p) = .error (JsObject.missing "master_fd") := by
  cases platform with
  | linux =>
    rw [fromJsObject,Linux.fromJsObject,ptyProcessToJsObject_pid,ptyProcessToJsObject_masterFd]
    rfl
  | macos =>
    rw [fromJsObject,Macos.fromJsObject,ptyProcessToJsObject_pid,ptyProcessToJsObject_masterFd]
    rfl

/-- The object of the multiplexer wraps nothing. -/
theorem linux_fromJsObject_intoJsObject : Linux.fromJsObject p.intoJsObject = .error .invalidArg := by
  obtain ⟨hpid,hmasterFd,hcommand,hmultiplexer⟩ := intoJsObject_fields p
  rw [Linux.fromJsObject,hpid,hmasterFd,hcommand,hmultiplexer]
  rfl

theorem macos_fromJsObject_intoJsObject : Macos.fromJsObject p.intoJsObject =
    .ok { p with multiplexer := Multiplexer.new } := by
  obtain ⟨hpid,hmasterFd,hcommand,-⟩ := intoJsObject_fields p
  rw [Macos.fromJsObject,hpid,hmasterFd,hcommand]
  rfl

/-- A process comes back from its own encoder on macOS only. -/
theorem comesBack_iff (platform : Platform) (encoder : Encoder) (p : Process) :
    ComesBack platform encoder p ↔ platform = .macos ∧ encoder = .intoJsObject := by
  constructor
  · rintro ⟨q,hq,-⟩
    cases encoder with
    | ptyProcessToJsObject =>
      rw [encode,fromJsObject_ptyProcessToJsObject] at hq
      exact absurd hq nofun
    | intoJsObject =>
      cases platform with
      | linux =>
        rw [encode,fromJsObject,linux_fromJsObject_intoJsObject] at hq
        exact absurd hq nofun
      | macos => exact ⟨rfl,rfl⟩
  · rintro ⟨rfl,rfl⟩
    exact ⟨_,macos_fromJsObject_intoJsObject p,rfl,rfl,rfl⟩

/-- The process of a new handle. -/
theorem comesBack_fails : ¬∀ platform encoder p, ComesBack platform encoder p := by
  intro h
  obtain ⟨q,hq,-⟩ := h .macos .ptyProcessToJsObject ⟨5,1234,Multiplexer.new,"/bin/bash"⟩
  rw [encode,fromJsObject_ptyProcessToJsObject] at hq
  exact absurd hq nofun

end Js
end NodeRustPty
