import NodeRustPty.SessionRuns
import NodeRustPty.ShortWrites

/-! What `send_to_session` and `broadcast` leave in the sessions when their write fails: the
data is recorded before the write, and nobody takes it back. -/
namespace NodeRustPty

open CommandHandler

/-- The two calls that record their data and then write it. -/
inductive SessionWrite
  | sendToSession (sessionId : UInt32) (data : Bytes)
  | broadcast (data : Bytes)

/-- A write of the trace failed. -/
def WriteFails (trace : Trace) : Prop :=
  ∃ (fd : ℤ) (data : Bytes) (ret : Ret), ⟨.sys (.write fd data),ret⟩ ∈ trace ∧ ret.value < 0

namespace SessionWrite

def data : SessionWrite → Bytes
  | .sendToSession _ data => data
  | .broadcast data => data

def Addresses (id : UInt32) : SessionWrite → Prop
  | .sendToSession sessionId _ => id = sessionId
  | .broadcast _ => True

instance (id : UInt32) (call : SessionWrite) : Decidable (call.Addresses id) := by
  cases call <;> unfold Addresses <;> infer_instance

def run (own : PtyMultiplexer) : SessionWrite → HandlerProg (Except String Unit)
  | .sendToSession sessionId data => CommandHandler.sendToSession sessionId data own
  | .broadcast data => CommandHandler.broadcast data own

/-- The input of every addressed session has grown by the data, and nothing else. -/
def Grown (call : SessionWrite) (m m' : Sessions) : Prop :=
  ∀ id, m'.session? id = (m.session? id).map fun buffers =>
    if call.Addresses id then (buffers.1 ++ call.data,buffers.2) else buffers

/-- After an error all buffers are as before, and after a success the data is recorded. -/
def Records (call : SessionWrite) (m m' : Sessions) : Except String Unit → Prop
  | .error _ => ∀ id, m'.session? id = m.session? id
  | .ok _ => call.Grown m m'

variable {call : SessionWrite} {m m' : Sessions}

theorem grown_sendToSession (m : Sessions) (sessionId : UInt32) (data : Bytes) :
    (sendToSession sessionId data).Grown m (m.sendToSession sessionId data).2 := by
  intro id
  obtain ⟨hown,hrest⟩ := m.sendToSession_spec sessionId data
  by_cases hid : id = sessionId
  · subst hid
    simpa [Addresses,SessionWrite.data] using hown
  · rw [(hrest id hid).2]
    simp [Addresses,hid]

theorem grown_broadcast (m : Sessions) (data : Bytes) : (broadcast data).Grown m (m.broadcast data) := by
  intro id
  simpa [Addresses,SessionWrite.data,Sessions.broadcast] using m.session?_modifyInputs id (· ++ data)

/-- Recording the data changes nothing exactly when there is none or nobody to record it. -/
theorem unchanged_iff (h : call.Grown m m') : (∀ id, m'.session? id = m.session? id) ↔
    call.data = [] ∨ ∀ id ∈ m.map, ¬call.Addresses id := by
  constructor
  · intro hsame
    refine or_iff_not_imp_right.mpr fun hlive => ?_
    obtain ⟨id,hid,haddressed⟩ : ∃ id ∈ m.map, call.Addresses id := by simpa using hlive
    obtain ⟨buffers,hbuffers⟩ := Option.isSome_iff_exists.mp ((m.session?_isSome id).mpr hid)
    have hgrown := h id
    rw [hsame id,hbuffers,Option.map_some,if_pos haddressed,Option.some.injEq] at hgrown
    have hinput : buffers.1 ++ [] = buffers.1 ++ call.data := by
      rw [List.append_nil]
      exact congrArg Prod.fst hgrown
    exact (List.append_cancel_left hinput).symm
  · intro hnone id
    rw [h id]
    cases hs : m.session? id with
    | none => rfl
    | some buffers =>
      have hid : id ∈ m.map := Sessions.mem_of_session? hs
      rcases hnone with hdata | hdead
      · simp [hdata]
      · simp [hdead id hid]

theorem writeFails_cons_table {call : TableCall} {answer : Except String call.Value} {trace : Trace} :
    WriteFails (⟨.table call,answer⟩::trace) ↔ WriteFails trace := by
  simp [WriteFails]

theorem writeFails_write {fd : ℤ} {data : Bytes} {ret : Ret} :
    WriteFails [⟨.sys (.write fd data),ret⟩] ↔ ret.value < 0 :=
  exists_write_singleton fun _ ret => ret.value < 0

/-- Either the session is not there and nothing happens, or the data is recorded and then
written, and the write decides the result. -/
theorem run_cases {own : PtyMultiplexer} {trace : Trace} {result : Except String Unit}
    {order : HashOrder UInt32 PtySession} (h : (call.run own).Traces trace result) (hm : Replays order m trace m') :
    (m' = m ∧ ¬WriteFails trace ∧ ∃ reason, result = .error reason) ∨
    (call.Grown m m' ∧ ∃ ret : Ret, (WriteFails trace ↔ ret.value < 0) ∧
      result = if ret.value < 0 then .error ret.error.text else .ok ()) := by
  cases call with
  | sendToSession sessionId data =>
    obtain ⟨found,rest,rfl,hrest⟩ := Prog.traces_call.mp h
    obtain ⟨hfound,hm'⟩ := hm
    cases found with
    | error reason =>
      obtain ⟨rfl,rfl⟩ := Prog.traces_pure.mp hrest
      have hsame := TableCall.outcome_error hfound.symm
      refine .inl ⟨hm'.trans hsame,?_,reason,rfl⟩
      simp [WriteFails]
    | ok value =>
      have hwrite : (writeProcess own data).Traces rest result := hrest
      obtain ⟨fd,ret,rfl,rfl⟩ := writeProcess_traces hwrite
      obtain rfl : m' = _ := hm'
      exact .inr ⟨grown_sendToSession m sessionId data,ret,writeFails_cons_table.trans writeFails_write,rfl⟩
  | broadcast data =>
    obtain ⟨found,rest,rfl,hrest⟩ := Prog.traces_call.mp h
    obtain ⟨rfl,hm'⟩ := hm
    have hwrite : (writeProcess own data).Traces rest result := hrest
    obtain ⟨fd,ret,rfl,rfl⟩ := writeProcess_traces hwrite
    obtain rfl : m' = _ := hm'
    exact .inr ⟨grown_broadcast m data,ret,writeFails_cons_table.trans writeFails_write,rfl⟩

/-- The buffers agree with the result exactly when the write went well or recording the data
changed nothing. -/
theorem records_iff (own : PtyMultiplexer) (call : SessionWrite) (order : HashOrder UInt32 PtySession)
    (m m' : Sessions) (trace : Trace) (result : Except String Unit) (h : (call.run own).Traces trace result)
    (hm : Replays order m trace m') :
    call.Records m m' result ↔
      (WriteFails trace → call.data = [] ∨ ∀ id ∈ m.map, ¬call.Addresses id) := by
  rcases run_cases h hm with ⟨rfl,hwrite,reason,rfl⟩ | ⟨hgrown,ret,hwrite,rfl⟩
  · exact iff_of_true (fun _ => rfl) fun hfails => absurd hfails hwrite
  · by_cases hbad : ret.value < 0
    · rw [if_pos hbad,hwrite]
      have hunchanged : call.Records m m' (.error ret.error.text) ↔ _ := unchanged_iff hgrown
      rw [hunchanged]
      exact ⟨fun hnone _ => hnone,fun hnone => hnone hbad⟩
    · rw [if_neg hbad,hwrite]
      exact iff_of_true hgrown fun hfails => absurd hfails hbad

/-- Data for session 1, whose write answers with this. -/
def letterTrace (ret : Ret) : Trace :=
  [⟨.table (.sendToSession 1 [108]),(.ok () : Except String Unit)⟩,⟨.sys (.write 5 [108]),ret⟩]

def one : Sessions := Sessions.empty.insertNew 1 [] []

theorem replays_letter (ret : Ret) : Replays .sorted one (letterTrace ret) (one.sendToSession 1 [108]).2 := by
  have hone : (1 : UInt32) ∈ one.map := Registry.mem_insertNew.mpr (.inl rfl)
  exact ⟨by simp [TableCall.outcome,Sessions.sendToSession,hone],rfl⟩

theorem letter_recorded : (sendToSession 1 [108]).Records one (one.sendToSession 1 [108]).2 (.ok ()) := by
  refine (records_iff ⟨⟨5,42,"sh"⟩⟩ (sendToSession 1 [108]) .sorted one _ (letterTrace ⟨1,⟨none,""⟩⟩) (.ok ())
    (.call _ (.call _ (.pure _))) (replays_letter _)).mpr fun hfails => ?_
  rw [letterTrace,writeFails_cons_table,writeFails_write] at hfails
  exact absurd hfails (by decide)

/-- The write fails with EIO, and the session keeps the letter that nobody has written. -/
theorem letter_not_taken_back :
    ((sendToSession 1 [108]).run ⟨⟨5,42,"sh"⟩⟩).Traces (letterTrace ⟨-1,⟨some 5,"EIO"⟩⟩) (.error "EIO") ∧
    Replays .sorted one (letterTrace ⟨-1,⟨some 5,"EIO"⟩⟩) (one.sendToSession 1 [108]).2 ∧
    one.session? 1 = some ([],[]) ∧ (one.sendToSession 1 [108]).2.session? 1 = some ([108],[]) ∧
    ¬(sendToSession 1 [108]).Records one (one.sendToSession 1 [108]).2 (.error "EIO") := by
  have hbefore : one.session? 1 = some ([],[]) := by decide
  have hafter : (one.sendToSession 1 [108]).2.session? 1 = some ([108],[]) := by decide
  refine ⟨.call _ (.call _ (.pure _)),replays_letter _,hbefore,hafter,fun hrecords => ?_⟩
  have hsame := hrecords 1
  rw [hbefore,hafter] at hsame
  exact absurd hsame (by decide)

end SessionWrite
end NodeRustPty
