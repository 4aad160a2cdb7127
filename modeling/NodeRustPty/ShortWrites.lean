import NodeRustPty.PtyHandle
import NodeRustPty.TearDown
import NodeRustPty.Utf8Encoding

/-! How much of its data a call that reports success has written. Every path makes one
`write(2)` and takes any count for success. -/
namespace NodeRustPty

open CommandHandler

namespace PtyProcess

theorem writeData_eq (process : PtyProcess) (data : Bytes) :
    writeData data process = .call (.write process.masterFd data) fun (ret : Ret) =>
      .pure (if ret.value < 0 then .error ret.error else .ok ret.value.toNat,process) := by
  refine congrArg _ (funext fun (ret : Ret) => ?_)
  change (check ret (· < 0) >>= fun _ => (pure ret.value.toNat : ProcessM ℕ)) process = _
  by_cases h : ret.value < 0
  · rw [check_bad (by simpa using h),if_pos h]
    rfl
  · rw [check_good (by simpa using h),if_neg h]
    rfl

end PtyProcess

/-- The calls that are to write data: two of the handle, two of the multiplexer. -/
inductive WriteCall
  | write (data : String)
  | execute (command : String)
  | sendToSession (multiplexer : PtyMultiplexer) (sessionId : UInt32) (data : Bytes)
  | broadcast (multiplexer : PtyMultiplexer) (data : Bytes)

/-- What the descriptor accepted of the writes of a trace. -/
def accepted (trace : Trace) : Bytes :=
  trace.flatMap fun event => match event with
    | ⟨.sys (.write _ data),ret⟩ => data.take (ret : Ret).value.toNat
    | _ => []

/-- A write of the trace took less than it was offered, and did not fail. -/
def Short (trace : Trace) : Prop :=
  ∃ (fd : ℤ) (data : Bytes) (ret : Ret), ⟨.sys (.write fd data),ret⟩ ∈ trace ∧ 0 ≤ ret.value ∧
    ret.value < data.length

/-- An ending that a client with responder 0 may get from this trace. -/
def Offers (trace : Trace) (ending : Ending) : Prop :=
  ∀ result, ending = .reply result → (0,result) ∈ replies trace

namespace WriteCall

def payload : WriteCall → Bytes
  | .write data => data.toUTF8.toList
  | .execute command => s!"{command}\n".toUTF8.toList
  | .sendToSession _ _ data => data
  | .broadcast _ data => data

/-- The calls that it makes, in a handler with this multiplexer and slot. -/
def Runs (multiplexer : Option PtyMultiplexer) (slot : Slot) : WriteCall → Trace → Prop
  | .write data,trace => ∃ slot', (handle multiplexer slot (.write data.toUTF8.toList 0)).Traces trace slot'
  | .execute command,trace => ∃ slot', (handle multiplexer slot (.execute command 0)).Traces trace slot'
  | .sendToSession own sessionId data,trace =>
    ∃ result, (CommandHandler.sendToSession sessionId data own).Traces trace result
  | .broadcast own data,trace => ∃ result, (CommandHandler.broadcast data own).Traces trace result

/-- In a run with this trace the call can report a success. -/
def Succeeds : WriteCall → Trace → Prop
  | .write _,trace => ∃ ending, Offers trace ending ∧ PtyHandle.write ending = .ok ()
  | .execute _,trace => ∃ ending message, Offers trace ending ∧ PtyHandle.execute ending = .ok message
  | .sendToSession own sessionId data,trace => (CommandHandler.sendToSession sessionId data own).Traces trace (.ok ())
  | .broadcast own data,trace => (CommandHandler.broadcast data own).Traces trace (.ok ())

end WriteCall

/-! ### One write in each trace -/

/-- The trace has no write and no success, or one write of all the data and success with any
count. -/
def OneWrite (payload : Bytes) (trace : Trace) (succeeds : Prop) : Prop :=
  ¬Short trace ∧ ¬succeeds ∨ ∃ ret : Ret, accepted trace = payload.take ret.value.toNat ∧
    (Short trace ↔ 0 ≤ ret.value ∧ ret.value < payload.length) ∧ (succeeds ↔ 0 ≤ ret.value)

/-- Then success means that all was accepted exactly when the write was not short. -/
theorem OneWrite.complete_iff {payload : Bytes} {trace : Trace} {succeeds : Prop}
    (h : OneWrite payload trace succeeds) : (succeeds → accepted trace = payload) ↔ ¬Short trace := by
  rcases h with ⟨hshort,hfails⟩ | ⟨ret,haccepted,hshort,hsucceeds⟩
  · exact iff_of_true (fun hs => absurd hs hfails) hshort
  · rw [hshort,hsucceeds,haccepted]
    have htake : payload.take ret.value.toNat = payload ↔ payload.length ≤ ret.value.toNat := List.take_eq_self_iff _
    rw [htake]
    constructor
    · rintro hall ⟨hnonneg,hlt⟩
      have := hall hnonneg
      omega
    · intro hnot hnonneg
      by_contra hlt
      exact hnot ⟨hnonneg,by omega⟩

theorem mem_short {trace : Trace} : Short trace ↔ ∃ event ∈ trace, Short [event] := by
  constructor
  · rintro ⟨fd,data,ret,hmem,h⟩
    exact ⟨_,hmem,fd,data,ret,List.mem_singleton.mpr rfl,h⟩
  · rintro ⟨event,hmem,fd,data,ret,hevent,h⟩
    rw [← List.mem_singleton.mp hevent] at hmem
    exact ⟨fd,data,ret,hmem,h⟩

/-- What holds of the write of a trace with one event. -/
theorem exists_write_singleton {fd : ℤ} {data : Bytes} {ret : Ret} (P : Bytes → Ret → Prop) :
    (∃ (fd' : ℤ) (data' : Bytes) (ret' : Ret), (⟨.sys (.write fd' data'),ret'⟩ : Prog.Event Call Call.Res) ∈
      [(⟨.sys (.write fd data),ret⟩ : Prog.Event Call Call.Res)] ∧ P data' ret') ↔ P data ret := by
  constructor
  · rintro ⟨fd',data',ret',hmem,h⟩
    simp only [List.mem_singleton,Sigma.mk.injEq,Call.sys.injEq,Sys.write.injEq] at hmem
    obtain ⟨⟨rfl,rfl⟩,hret⟩ := hmem
    rwa [eq_of_heq hret] at h
  · intro h
    exact ⟨fd,data,ret,List.mem_singleton.mpr rfl,h⟩

theorem short_write {fd : ℤ} {data : Bytes} {ret : Ret} :
    Short [⟨.sys (.write fd data),ret⟩] ↔ 0 ≤ ret.value ∧ ret.value < data.length :=
  exists_write_singleton fun data ret => 0 ≤ ret.value ∧ ret.value < data.length

theorem not_short_send {responder : ℕ} {result : PtyResult} : ¬Short [⟨.send responder result,()⟩] := by
  rintro ⟨fd,data,ret,hmem,-⟩
  simp at hmem

theorem not_short_table {call : TableCall} {result : Except String call.Value} :
    ¬Short [⟨.table call,result⟩] := by
  rintro ⟨fd,data,ret,hmem,-⟩
  simp at hmem

section Handle

variable {slot slot' : Slot} {data : Bytes} {responder : ℕ} {success : ℕ → String} {failure : String → String}
  {trace : Trace}

/-- A handler that writes makes one write and answers, or only answers with a failure. -/
theorem answerProcess_writeData_traces
    (h : (answerProcess slot (PtyProcess.writeData data) responder (fun n => .success (success n)) failure).Traces
      trace slot') :
    (∃ message, trace = [⟨.send responder (.failure message),()⟩]) ∨
    ∃ (fd : ℤ) (ret : Ret), trace = [⟨.sys (.write fd data),ret⟩,⟨.send responder
      (if ret.value < 0 then .failure (failure ret.error.text) else .success (success ret.value.toNat)),()⟩] := by
  cases slot with
  | none =>
    obtain ⟨htrace,-⟩ := traces_send h
    exact .inl ⟨_,htrace⟩
  | some process =>
    change (onSystem (PtyProcess.writeData data process) >>= _).Traces trace slot' at h
    rw [PtyProcess.writeData_eq] at h
    obtain ⟨ret,rest,rfl,hrest⟩ := Prog.traces_call.mp h
    refine .inr ⟨process.masterFd,ret,?_⟩
    have hanswer : (answer (some process) responder (fun n => .success (success n)) failure
        (if (ret : Ret).value < 0 then .error (ret : Ret).error else .ok (ret : Ret).value.toNat)).Traces
        rest slot' := hrest
    split at hanswer
    · next hbad =>
      obtain ⟨rfl,-⟩ := traces_send hanswer
      rw [if_pos hbad]
    · next hgood =>
      obtain ⟨rfl,-⟩ := traces_send hanswer
      rw [if_neg hgood]

theorem oneWrite_answerProcess
    (h : (answerProcess slot (PtyProcess.writeData data) responder (fun n => .success (success n)) failure).Traces
      trace slot') {succeeds : Prop}
    (hok : ∀ message, (responder,.success message) ∈ replies trace → succeeds)
    (hreply : succeeds → ∃ result, (responder,result) ∈ replies trace ∧ ∀ message, result ≠ .failure message) :
    OneWrite data trace succeeds := by
  rcases answerProcess_writeData_traces h with ⟨message,rfl⟩ | ⟨fd,ret,rfl⟩
  · refine .inl ⟨not_short_send,fun hs => ?_⟩
    obtain ⟨result,hmem,hresult⟩ := hreply hs
    exact hresult message (by simpa [replies] using hmem)
  · refine .inr ⟨ret,by simp [accepted],?_,?_⟩
    · rw [mem_short]
      simp only [List.mem_cons,List.not_mem_nil,or_false,exists_eq_or_imp,exists_eq_left,short_write,
        not_short_send]
    · by_cases hbad : ret.value < 0
      · refine iff_of_false (fun hs => ?_) (by omega)
        obtain ⟨result,hmem,hresult⟩ := hreply hs
        exact hresult (failure ret.error.text) (by simpa [replies,hbad] using hmem)
      · exact iff_of_true (hok (success ret.value.toNat) (by simp [replies,hbad])) (by omega)

end Handle

section Multiplexer

variable {own : PtyMultiplexer} {data : Bytes} {trace : Trace} {result : Except String Unit}

theorem writeProcess_traces (h : (writeProcess own data).Traces trace result) :
    ∃ (fd : ℤ) (ret : Ret), trace = [⟨.sys (.write fd data),ret⟩] ∧
      result = if ret.value < 0 then .error ret.error.text else .ok () := by
  change (onSystem (PtyProcess.writeData data own.ptyProcess) >>= _).Traces trace result at h
  rw [PtyProcess.writeData_eq] at h
  obtain ⟨ret,rest,rfl,hrest⟩ := Prog.traces_call.mp h
  obtain ⟨rfl,rfl⟩ := Prog.traces_pure.mp hrest
  refine ⟨own.ptyProcess.masterFd,ret,rfl,?_⟩
  by_cases hbad : (ret : Ret).value < 0
  · simp [hbad]
  · simp [hbad]

/-- A method of the multiplexer calls the table and writes only if that went well. -/
theorem oneWrite_table (call : TableCall) {next : Except String call.Value → HandlerProg (Except String Unit)}
    (hwrites : ∀ value, next (.ok value) = writeProcess own data)
    (hfails : ∀ reason, next (.error reason) = .pure (.error reason))
    (h : (table call >>= next).Traces trace result) :
    OneWrite data trace ((table call >>= next).Traces trace (.ok ())) := by
  have hsucceeds : (table call >>= next).Traces trace (.ok ()) ↔ result = .ok () := by
    constructor
    · intro hok
      exact h.unique hok
    · rintro rfl
      exact h
  rw [OneWrite,hsucceeds]
  obtain ⟨found,rest,rfl,hcalled⟩ := Prog.traces_call.mp h
  have hrest : (next found).Traces rest result := hcalled
  cases found with
  | error reason =>
    rw [hfails] at hrest
    obtain ⟨rfl,rfl⟩ := Prog.traces_pure.mp hrest
    exact .inl ⟨not_short_table,by simp⟩
  | ok value =>
    rw [hwrites] at hrest
    obtain ⟨fd,ret,rfl,rfl⟩ := writeProcess_traces hrest
    refine .inr ⟨ret,by simp [accepted],?_,?_⟩
    · rw [mem_short]
      simp only [List.mem_cons,List.not_mem_nil,or_false,exists_eq_or_imp,exists_eq_left,short_write,
        not_short_table,false_or]
    · by_cases hbad : ret.value < 0
      · simp [hbad]
      · simp [hbad]
        omega

end Multiplexer

namespace WriteCall

theorem offers_reply {trace : Trace} {result : PtyResult} (h : (0,result) ∈ replies trace) :
    Offers trace (.reply result) := by
  rintro other hother
  obtain rfl := Ending.reply.inj hother
  exact h

theorem write_reply {data : String} {trace : Trace} (h : (write data).Succeeds trace) :
    ∃ result, (0,result) ∈ replies trace ∧ ∀ message, result ≠ .failure message := by
  obtain ⟨ending,hoffers,hok⟩ := h
  cases ending with
  | reply result =>
    refine ⟨result,hoffers _ rfl,?_⟩
    rintro message rfl
    simp [PtyHandle.write,PtyHandle.settle] at hok
  | unsent | dropped | timedOut => simp [PtyHandle.write,PtyHandle.settle] at hok

theorem execute_reply {command : String} {trace : Trace} (h : (execute command).Succeeds trace) :
    ∃ result, (0,result) ∈ replies trace ∧ ∀ message, result ≠ .failure message := by
  obtain ⟨ending,text,hoffers,hok⟩ := h
  cases ending with
  | reply result =>
    refine ⟨result,hoffers _ rfl,?_⟩
    rintro message rfl
    simp [PtyHandle.execute] at hok
  | unsent | dropped | timedOut => simp [PtyHandle.execute] at hok

theorem oneWrite {multiplexer : Option PtyMultiplexer} {slot : Slot} {call : WriteCall} {trace : Trace}
    (h : call.Runs multiplexer slot trace) : OneWrite call.payload trace (call.Succeeds trace) := by
  cases call with
  | write data =>
    obtain ⟨slot',h⟩ := h
    rw [handle,handleWrite] at h
    exact oneWrite_answerProcess h (fun message hmem => ⟨_,offers_reply hmem,rfl⟩) write_reply
  | execute command =>
    obtain ⟨slot',h⟩ := h
    rw [handle,handleExecute] at h
    exact oneWrite_answerProcess h (fun message hmem => ⟨_,message,offers_reply hmem,rfl⟩) execute_reply
  | sendToSession own sessionId data =>
    obtain ⟨result,h⟩ := h
    exact oneWrite_table (.sendToSession sessionId data) (fun _ => rfl) (fun _ => rfl) h
  | broadcast own data =>
    obtain ⟨result,h⟩ := h
    exact oneWrite_table (.broadcast data) (fun _ => rfl) (fun _ => rfl) h

/-- A call that can report success has had all its data accepted, in order, exactly when no
write of it was short. -/
theorem complete_iff_not_short (multiplexer : Option PtyMultiplexer) (slot : Slot) (call : WriteCall) (trace : Trace)
    (h : call.Runs multiplexer slot trace) : (call.Succeeds trace → accepted trace = call.payload) ↔ ¬Short trace :=
  (oneWrite h).complete_iff

def executed (command : String) : PtyResult := .success s!"Executed command '{command}'"

/-- The path of `execute("ls")` when the descriptor takes so many of its three bytes. -/
def lineTrace (count : ℤ) : Trace := [⟨.sys (.write 5 [108,115,10]),(⟨count,⟨none,""⟩⟩ : Ret)⟩,
  ⟨.send 0 (executed "ls"),()⟩]

theorem payload_line : (execute "ls").payload = [108,115,10] := by
  rw [payload,Utf8.toUTF8_toList]
  decide

theorem runs_line : (execute "ls").Runs none (some ⟨5,42,"sh"⟩) (lineTrace 3) ∧
    (execute "ls").Runs none (some ⟨5,42,"sh"⟩) (lineTrace 1) := by
  have hpayload := payload_line
  rw [payload] at hpayload
  unfold Runs
  simp only [handle,handleExecute,hpayload]
  exact ⟨⟨some ⟨5,42,"sh"⟩,.call _ (.call _ (.pure _))⟩,⟨some ⟨5,42,"sh"⟩,.call _ (.call _ (.pure _))⟩⟩

theorem succeeds_line (count : ℤ) : (execute "ls").Succeeds (lineTrace count) :=
  ⟨_,_,offers_reply (List.mem_singleton.mpr rfl),rfl⟩

/-- All of the line is accepted. -/
theorem complete_line : accepted (lineTrace 3) = (execute "ls").payload := by
  refine (complete_iff_not_short none (some ⟨5,42,"sh"⟩) (execute "ls") (lineTrace 3) runs_line.1).mpr ?_
    (succeeds_line 3)
  rw [lineTrace,mem_short]
  simp only [List.mem_cons,List.not_mem_nil,or_false,exists_eq_or_imp,exists_eq_left,short_write,not_short_send]
  decide

/-- One byte of the line is accepted, and the command is a success. -/
theorem line_not_complete : (execute "ls").Runs none (some ⟨5,42,"sh"⟩) (lineTrace 1) ∧
    (execute "ls").Succeeds (lineTrace 1) ∧ accepted (lineTrace 1) = [108] ∧
    accepted (lineTrace 1) ≠ (execute "ls").payload := by
  refine ⟨runs_line.2,succeeds_line 1,rfl,?_⟩
  rw [payload_line]
  decide

end WriteCall
end NodeRustPty
