import NodeRustPty.CommandLoop
import NodeRustPty.StrParse

/-! The client side, `pty/handle.rs`: the methods that decode the reply of the command
handler, and the exact set of them whose decoder fits what the handler sends. -/
namespace NodeRustPty

/-- The statuses of napi that the code gives to its own errors; the others by their names. -/
inductive Status
  | unknown | genericFailure
  | other (name : String)
  deriving DecidableEq

structure NapiError where
  status : Status
  reason : String
  deriving DecidableEq

/-- How a request ends: the channel is disconnected, or what awaiting its responder for five
seconds gives. -/
inductive Ending
  | unsent
  | reply (result : PtyResult)
  | dropped
  | timedOut
  deriving DecidableEq

structure SessionData where
  sessionId : UInt32
  data : String
  deriving DecidableEq

structure SplitSessionResult where
  session1 : UInt32
  session2 : UInt32
  deriving DecidableEq

/-- `serde_json::from_str` at the three types that the handle decodes. -/
structure SerdeJson where
  u32s : String → Option (List UInt32)
  u32Pair : String → Option (UInt32 × UInt32)
  sessionData : String → Option (List SessionData)

namespace SerdeJson

def blank (c : Char) : Bool := c = ' ' || c = '\n' || c = '\t' || c = '\r'

/-- The text is empty or starts, after blanks, with something else than an array. -/
def NoArray (text : String) : Prop := (text.toList.dropWhile blank).head? ≠ some '['

/-- Vectors and tuples are read from arrays only. -/
structure ReadsArrays (serde : SerdeJson) : Prop where
  u32s : ∀ text, NoArray text → serde.u32s text = none
  u32Pair : ∀ text, NoArray text → serde.u32Pair text = none
  sessionData : ∀ text, NoArray text → serde.sessionData text = none

theorem noArray_of_head {text : String} (c : Char) (h : text.toList.head? = some c)
    (hblank : blank c = false) (hc : c ≠ '[') : NoArray text := by
  unfold NoArray
  cases htext : text.toList with
  | nil => simp
  | cons d rest =>
    obtain rfl : d = c := by simpa [htext] using h
    simp [hblank,hc]

end SerdeJson

namespace PtyHandle

/-- The texts of a method for the ways in which it gets no usable reply. -/
structure Texts where
  unsent : String
  data : String
  dropped : String
  timedOut : String

/-- How `{}` shows the `SendError` of a disconnected channel. -/
def sendError : String := "sending on a disconnected channel"

/-- The match that every method makes on the ending of its request. -/
def settle {α : Type} (texts : Texts) (decode : String → Except NapiError α) :
    Ending → Except NapiError α
  | .unsent => .error ⟨.genericFailure,texts.unsent⟩
  | .reply (.success message) => decode message
  | .reply (.failure message) => .error ⟨.unknown,message⟩
  | .reply (.data _) => .error ⟨.unknown,texts.data⟩
  | .dropped => .error ⟨.unknown,texts.dropped⟩
  | .timedOut => .error ⟨.unknown,texts.timedOut⟩

/-- A decoder's value or the error that the method reports for its failure. -/
def decoded {α : Type} (status : Status) (reason : String) : Option α → Except NapiError α
  | some a => .ok a
  | none => .error ⟨status,reason⟩

def createSession : Ending → Except NapiError UInt32 :=
  settle {
    unsent := s!"Failed to send create session command: {sendError}"
    data := "Create session operation returned unexpected result"
    dropped := "Create session operation receiver dropped"
    timedOut := "Create session operation timed out" }
  fun message => decoded .unknown "Failed to parse session ID" (StrParse.parseU32 message)

def waitpid : Ending → Except NapiError Int32 :=
  settle {
    unsent := s!"Failed to send waitpid command: {sendError}"
    data := "Waitpid operation returned unexpected result"
    dropped := "Waitpid operation receiver dropped"
    timedOut := "Waitpid operation timed out" }
  fun message => decoded .unknown "Failed to parse PID" (StrParse.parseI32 message)

def readFromSession : Ending → Except NapiError String :=
  settle {
    unsent := s!"Failed to send read from session command: {sendError}"
    data := "Read from session operation returned unexpected data"
    dropped := "Read from session operation receiver dropped"
    timedOut := "Read from session timed out" }
  fun message => .ok message

def removeSession : Ending → Except NapiError Unit :=
  settle {
    unsent := s!"Failed to send remove session command: {sendError}"
    data := "Remove session operation returned unexpected data"
    dropped := "Remove session operation receiver dropped"
    timedOut := "Remove session operation timed out" }
  fun _ => .ok ()

def write : Ending → Except NapiError Unit :=
  settle {
    unsent := s!"Failed to send write command: {sendError}"
    data := "Write operation returned unexpected data"
    dropped := "Write operation receiver dropped"
    timedOut := "Write operation timed out" }
  fun _ => .ok ()

/-- Data is a result here, unlike in the other methods. -/
def execute : Ending → Except NapiError String
  | .unsent => .error ⟨.genericFailure,s!"Failed to send execute command: {sendError}"⟩
  | .reply (.success message) => .ok message
  | .reply (.data bytes) => .ok (Utf8.fromUtf8Lossy bytes)
  | .reply (.failure message) => .error ⟨.unknown,message⟩
  | .dropped => .error ⟨.unknown,"Execute operation receiver dropped"⟩
  | .timedOut => .error ⟨.unknown,"Execute operation timed out"⟩

variable (serde : SerdeJson)

def listSessions : Ending → Except NapiError (List UInt32) :=
  settle {
    unsent := s!"Failed to send list sessions command: {sendError}"
    data := "List sessions operation returned unexpected data"
    dropped := "List sessions operation receiver dropped"
    timedOut := "List sessions operation timed out" }
  fun message => decoded .genericFailure "Failed to deserialize session IDs" (serde.u32s message)

def readAllSessions : Ending → Except NapiError (List SessionData) :=
  settle {
    unsent := s!"Failed to send read all sessions command: {sendError}"
    data := "Read all sessions operation returned unexpected data"
    dropped := "Read all sessions operation receiver dropped"
    timedOut := "Read all sessions timed out" }
  fun message => decoded .genericFailure "Failed to deserialize session data" (serde.sessionData message)

def splitSession : Ending → Except NapiError SplitSessionResult :=
  settle {
    unsent := s!"Failed to send split session command: {sendError}"
    data := "Split session operation returned unexpected data"
    dropped := "Split session operation receiver dropped"
    timedOut := "Split session operation timed out" }
  fun message => decoded .genericFailure "Failed to deserialize split session data"
    ((serde.u32Pair message).map fun pair => ⟨pair.1,pair.2⟩)

/-! ### What a method asks for and what it returns -/

inductive Method
  | createSession
  | listSessions
  | splitSession (sessionId : UInt32)
  | readAllSessions
  | readFromSession (sessionId : UInt32)
  | removeSession (sessionId : UInt32)
  | waitpid (options : Int32)
  deriving DecidableEq

namespace Method

abbrev Value : Method → Type
  | .createSession => UInt32
  | .listSessions => List UInt32
  | .splitSession _ => SplitSessionResult
  | .readAllSessions => List SessionData
  | .readFromSession _ => String
  | .removeSession _ => Unit
  | .waitpid _ => Int32

def command (responder : ℕ) : Method → PtyCommand
  | .createSession => .createSession responder
  | .listSessions => .listSessions responder
  | .splitSession sessionId => .splitSession sessionId responder
  | .readAllSessions => .readAllSessions responder
  | .readFromSession sessionId => .readFromSession sessionId responder
  | .removeSession sessionId => .removeSession sessionId responder
  | .waitpid options => .waitPid options responder

/-- What the method returns. -/
def returns : (method : Method) → Ending → Except NapiError method.Value
  | .createSession => PtyHandle.createSession
  | .listSessions => PtyHandle.listSessions serde
  | .splitSession _ => PtyHandle.splitSession serde
  | .readAllSessions => PtyHandle.readAllSessions serde
  | .readFromSession _ => PtyHandle.readFromSession
  | .removeSession _ => PtyHandle.removeSession
  | .waitpid _ => PtyHandle.waitpid

/-- In this trace the operation behind the method succeeds, and this is its value. -/
def Produces (trace : CommandHandler.Trace) : (method : Method) → method.Value → Prop
  | .createSession,sessionId => ⟨.table .createSession,.ok sessionId⟩ ∈ trace
  | .listSessions,sessionIds => ⟨.table .listSessions,.ok sessionIds⟩ ∈ trace
  | .splitSession sessionId,result =>
    ⟨.table (.splitSession sessionId),.ok (result.session1,result.session2)⟩ ∈ trace
  | .readAllSessions,sessions => ∃ entries, ⟨.table .readAllSessions,.ok entries⟩ ∈ trace ∧
    sessions = entries.map fun entry => ⟨entry.1,Utf8.fromUtf8Lossy entry.2⟩
  | .readFromSession sessionId,text => ∃ data, ⟨.table (.readFromSession sessionId),.ok data⟩ ∈ trace ∧
    text = Utf8.fromUtf8Lossy data
  | .removeSession sessionId,_ => ⟨.table (.removeSession sessionId),.ok ()⟩ ∈ trace
  | .waitpid options,pid => ∃ child ret, ⟨.sys (.waitpid child options),ret⟩ ∈ trace ∧
    ret.value = pid.toInt ∧ pid ≠ -1

/-- The handler replies with the bare value, or the method needs no value. -/
def repliesPlainly : Method → Bool
  | .readFromSession _ => true
  | .removeSession _ => true
  | .waitpid _ => true
  | _ => false

end Method

/-! ### The replies to successful operations -/

section Replies

open CommandHandler

variable {multiplexer : Option PtyMultiplexer} {slot slot' : Slot} {trace : Trace} {responder : ℕ}

theorem replies_of_table {call : TableCall} {success : call.Value → String}
    {failure : String → String} {uninitialized : String} {a : call.Value}
    (h : (keeping slot (answerMultiplexer multiplexer (fun _ => table call) responder success failure
      uninitialized)).Traces trace slot')
    (ha : (⟨Call.table call,.ok a⟩ : Prog.Event Call Call.Res) ∈ trace) :
    replies trace = [(responder,.success (success a))] := by
  cases multiplexer with
  | none =>
    obtain ⟨htrace,-⟩ := traces_send h
    simp [htrace] at ha
  | some multiplexer =>
    obtain ⟨res,rest,rfl,hrest⟩ := Prog.traces_call.mp h
    cases res with
    | error reason =>
      obtain ⟨rfl,-⟩ := traces_send hrest
      simp at ha
    | ok b =>
      obtain ⟨rfl,-⟩ := traces_send hrest
      obtain rfl : a = b := by simpa using ha
      rfl

theorem replies_of_waitpid {options : Int32} {child : ℤ} {ret : Ret}
    (h : (handleWaitpid slot options responder).Traces trace slot')
    (hret : (⟨Call.sys (.waitpid child options),ret⟩ : Prog.Event Call Call.Res) ∈ trace)
    (hvalue : ret.value ≠ -1) : replies trace = [(responder,.success (toString ret.value))] := by
  cases slot with
  | none =>
    obtain ⟨htrace,-⟩ := traces_send h
    simp [htrace] at hret
  | some process =>
    rw [handleWaitpid,answerProcess,PtyProcess.waitpid_eq] at h
    obtain ⟨res,rest,rfl,hrest⟩ := Prog.traces_call.mp h
    change (answer _ _ _ _ (if res.value = -1 then _ else _)).Traces rest slot' at hrest
    split at hrest
    · next hbad =>
      obtain ⟨rfl,-⟩ := traces_send hrest
      obtain ⟨-,rfl⟩ : child = process.pid ∧ ret = res := by simpa using hret
      exact absurd hbad hvalue
    · obtain ⟨rfl,-⟩ := traces_send hrest
      obtain ⟨-,rfl⟩ : child = process.pid ∧ ret = res := by simpa using hret
      rfl

end Replies

theorem decoded_none {α : Type} {status : Status} {reason : String} {a : α} {value : Option α}
    (hvalue : value = none) : decoded status reason value ≠ .ok a := by
  simp [hvalue,decoded]

theorem head_append {front text : String} {c : Char} (h : front.toList.head? = some c) :
    (front ++ text).toList.head? = some c := by
  rw [String.toList_append,List.head?_append,h]
  rfl

theorem noArray_of_front (text : String) {front : String} (h : front.toList.head? = some 'S') :
    SerdeJson.NoArray (front ++ text) :=
  SerdeJson.noArray_of_head 'S' (head_append h) rfl (by decide)

/-- The answer to `ReadAllSessions` is lines of text. -/
theorem noArray_sessionLines (entries : List (UInt32 × Bytes)) :
    SerdeJson.NoArray ("\n".intercalate (entries.map CommandHandler.sessionLine)) := by
  cases entries with
  | nil => simp [SerdeJson.NoArray]
  | cons entry entries =>
    have hline : (CommandHandler.sessionLine entry).toList.head? = some 'S' :=
      head_append (head_append (head_append rfl))
    have hhead : ("\n".intercalate ((entry::entries).map CommandHandler.sessionLine)).toList.head? =
        some 'S' := by
      rw [String.toList_intercalate,List.map_cons,List.map_cons]
      cases entries with
      | nil => simpa using hline
      | cons next entries => simp [List.intercalate_cons_cons,List.head?_append,hline]
    exact SerdeJson.noArray_of_head 'S' hhead rfl (by decide)

variable {serde}

theorem returns_iff_of_replies {method : Method} {value : method.Value} {responder : ℕ}
    {result : PtyResult} {trace : CommandHandler.Trace}
    (h : CommandHandler.replies trace = [(responder,result)]) :
    (∃ result, CommandHandler.replies trace = [(responder,result)] ∧
      method.returns serde (.reply result) = .ok value) ↔
    method.returns serde (.reply result) = .ok value := by
  constructor
  · rintro ⟨result',h',hvalue⟩
    obtain rfl : result = result' := by simpa [h] using h'
    exact hvalue
  · exact fun hvalue => ⟨result,h,hvalue⟩

/-- A method returns the value of its successful operation exactly when the handler replies
with the bare value. -/
theorem returns_produced_iff (serde : SerdeJson) (hserde : serde.ReadsArrays)
    (multiplexer : Option PtyMultiplexer) (slot slot' : Slot) (method : Method) (responder : ℕ)
    (trace : CommandHandler.Trace) (value : method.Value)
    (h : (CommandHandler.handle multiplexer slot (method.command responder)).Traces trace slot')
    (hvalue : method.Produces trace value) :
    (∃ result, CommandHandler.replies trace = [(responder,result)] ∧
      method.returns serde (.reply result) = .ok value) ↔ method.repliesPlainly = true := by
  cases method with
  | createSession =>
    rw [returns_iff_of_replies (replies_of_table h hvalue)]
    have hnone : StrParse.parseU32 s!"Session ID: {value}" = none :=
      StrParse.parseU32_of_head 'S' (by decide) (by decide) (head_append rfl)
    exact iff_of_false (decoded_none hnone) Bool.false_ne_true
  | listSessions =>
    rw [returns_iff_of_replies (replies_of_table h hvalue)]
    have hnone := hserde.u32s s!"Sessions: {value}" (noArray_of_front _ rfl)
    exact iff_of_false (decoded_none hnone) Bool.false_ne_true
  | splitSession sessionId =>
    rw [returns_iff_of_replies (replies_of_table h hvalue)]
    have hnone := hserde.u32Pair s!"Split session {sessionId} into sub-sessions"
      (noArray_of_front _ (head_append rfl))
    exact iff_of_false (decoded_none (by rw [hnone]; rfl)) Bool.false_ne_true
  | readAllSessions =>
    obtain ⟨entries,hentries,-⟩ := hvalue
    rw [returns_iff_of_replies (replies_of_table h hentries)]
    have hnone := hserde.sessionData _ (noArray_sessionLines entries)
    exact iff_of_false (decoded_none hnone) Bool.false_ne_true
  | readFromSession sessionId =>
    obtain ⟨data,hdata,rfl⟩ := hvalue
    rw [returns_iff_of_replies (replies_of_table h hdata)]
    exact iff_of_true rfl rfl
  | removeSession sessionId =>
    rw [returns_iff_of_replies (replies_of_table h hvalue)]
    exact iff_of_true rfl rfl
  | waitpid options =>
    obtain ⟨child,ret,hret,hpid,hne⟩ := hvalue
    have hbad : ret.value ≠ -1 := by
      rw [hpid]
      exact fun hm => hne (Int32.toInt_inj.mp hm)
    rw [returns_iff_of_replies (replies_of_waitpid h hret hbad),hpid]
    refine iff_of_true ?_ rfl
    change decoded _ _ (StrParse.parseI32 (toString value.toInt)) = .ok value
    rw [StrParse.parseI32_toString]
    rfl

/-- A decoder of the empty array. -/
def emptyArrays : SerdeJson where
  u32s text := if text = "[]" then some [] else none
  u32Pair _ := none
  sessionData text := if text = "[]" then some [] else none

theorem emptyArrays_readsArrays : emptyArrays.ReadsArrays := by
  have hne {text : String} (h : SerdeJson.NoArray text) : text ≠ "[]" := by
    rintro rfl
    exact h (by decide)
  exact ⟨fun _ h => if_neg (hne h),fun _ _ => rfl,fun _ h => if_neg (hne h)⟩

theorem returns_produced_hi : (∃ result,
    CommandHandler.replies [⟨.table (.readFromSession 1),.ok [104,105]⟩,⟨.send 0 (.success "hi"),()⟩] =
      [(0,result)] ∧
    (Method.readFromSession 1).returns emptyArrays (.reply result) = .ok "hi") ↔
      (Method.readFromSession 1).repliesPlainly = true :=
  returns_produced_iff emptyArrays emptyArrays_readsArrays (some ⟨⟨5,42,"sh"⟩⟩) none none
    (.readFromSession 1) 0 _ "hi" (.call _ (.call _ (.pure _))) ⟨[104,105],List.mem_cons_self ..,by decide⟩

/-- The first session is created and its id replied, and the method reports an error. -/
theorem createSession_reply_not_parsed :
    (CommandHandler.handle (some ⟨⟨5,42,"sh"⟩⟩) none (.createSession 0)).Traces
      [⟨.table .createSession,Sessions.empty.createSession.1⟩,
        ⟨.send 0 (.success "Session ID: 1"),()⟩] none ∧
      Sessions.empty.createSession.1 = .ok 1 ∧
      createSession (.reply (.success "Session ID: 1")) =
        .error ⟨.unknown,"Failed to parse session ID"⟩ :=
  ⟨.call _ (.call _ (.pure _)),rfl,by decide⟩

end PtyHandle
end NodeRustPty
