import NodeRustPty.ConcurrentSplit

/-! Which bytes a split keeps: every byte that the session holds gets a number, and the numbers go
where the bytes go, into the copies of the split and out with the reads. -/
namespace NodeRustPty

open Std

/-- The bytes that the session has held, in the order of their numbers, and the numbers of those
that are in its buffers, that reads of it returned, and that the split has copied. -/
structure ByteNumbers where
  values : Bytes
  input : List ℕ
  output : List ℕ
  returned : List ℕ
  inputCopy : List ℕ
  outputCopy1 : List ℕ
  outputCopy2 : List ℕ
  deriving DecidableEq

/-- The numbers stand for these bytes. -/
def Spells (values : Bytes) (numbers : List ℕ) (bytes : Bytes) : Prop :=
  numbers.map (fun n => values[n]?) = bytes.map some

section Spelling

variable {values : Bytes} {numbers numbers' : List ℕ} {bytes bytes' : Bytes}

theorem spells_nil : Spells values [] [] := rfl

theorem Spells.append (h : Spells values numbers bytes) (h' : Spells values numbers' bytes') :
    Spells values (numbers ++ numbers') (bytes ++ bytes') := by
  rw [Spells,List.map_append,List.map_append,h,h']

theorem Spells.take (h : Spells values numbers bytes) (k : ℕ) : Spells values (numbers.take k) (bytes.take k) := by
  rw [Spells,List.map_take,List.map_take,h]

theorem Spells.drop (h : Spells values numbers bytes) (k : ℕ) : Spells values (numbers.drop k) (bytes.drop k) := by
  rw [Spells,List.map_drop,List.map_drop,h]

theorem Spells.length (h : Spells values numbers bytes) : numbers.length = bytes.length := by
  simpa using congrArg List.length h

/-- Bytes that come later have later numbers. -/
theorem Spells.later (h : Spells values numbers bytes) (more : Bytes) : Spells (values ++ more) numbers bytes := by
  rw [Spells,← h]
  refine List.map_congr_left fun n hn => ?_
  have hvalue : values[n]? ∈ bytes.map some := h ▸ List.mem_map_of_mem hn
  obtain ⟨byte,-,hbyte⟩ := List.mem_map.mp hvalue
  exact List.getElem?_append_left (List.getElem?_eq_some_iff.mp hbyte.symm).1

theorem spells_next (values data more : Bytes) :
    Spells (values ++ data ++ more) (List.range' values.length data.length) data := by
  refine List.ext_getElem? fun i => ?_
  rw [List.getElem?_map,List.getElem?_map]
  by_cases hi : i < data.length
  · rw [List.getElem?_range' hi,List.getElem?_eq_getElem hi,Option.map_some,Option.map_some,List.append_assoc,
      List.getElem?_append_right (by omega)]
    rw [show values.length+1*i-values.length = i by omega,List.getElem?_append_left hi,List.getElem?_eq_getElem hi]
  · have hlength : (List.range' values.length data.length).length ≤ i := by
      rw [List.length_range']
      omega
    rw [List.getElem?_eq_none hlength,List.getElem?_eq_none (Nat.le_of_not_lt hi)]
    rfl

end Spelling

namespace ByteNumbers

/-- The numbers of what comes in next. -/
def next (numbers : ByteNumbers) (data : Bytes) : List ℕ := List.range' numbers.values.length data.length

/-- The two halves of the input that was copied. -/
def input1 (numbers : ByteNumbers) : List ℕ := numbers.inputCopy.take (numbers.inputCopy.length/2)

def input2 (numbers : ByteNumbers) : List ℕ := numbers.inputCopy.drop (numbers.inputCopy.length/2)

end ByteNumbers

/-- A split with the numbers of the bytes. -/
structure NumberedSplit where
  split : Splitting
  numbers : ByteNumbers

namespace NumberedSplit

section Steps

variable (sessionId : UInt32)

def start (m : Sessions) : NumberedSplit :=
  let buffers := (m.session? sessionId).getD ([],[])
  ⟨Splitting.start sessionId m,
    { values := buffers.1 ++ buffers.2
      input := List.range' 0 buffers.1.length
      output := List.range' buffers.1.length buffers.2.length
      returned := []
      inputCopy := []
      outputCopy1 := []
      outputCopy2 := [] }⟩

def numbersStep (s : NumberedSplit) : SplitEvent → ByteNumbers
  | .split =>
    match s.split.phase with
    | .ready => { s.numbers with inputCopy := s.numbers.input }
    | .measured _ outputHalfSize => { s.numbers with outputCopy1 := s.numbers.output.take outputHalfSize }
    | .firstHalf _ outputHalfSize _ => { s.numbers with outputCopy2 := s.numbers.output.drop outputHalfSize }
    | .bothFiled _ _ => { s.numbers with input := [],output := [] }
    | _ => s.numbers
  | .read =>
    if sessionId ∈ s.split.sessions.map then
      { s.numbers with returned := s.numbers.returned ++ s.numbers.output,output := [] }
    else s.numbers
  | .send data =>
    if sessionId ∈ s.split.sessions.map then
      { s.numbers with values := s.numbers.values ++ data,input := s.numbers.input ++ s.numbers.next data }
    else s.numbers
  | .append buffer data =>
    if s.split.sessions.bufferOf sessionId = some buffer then
      { s.numbers with values := s.numbers.values ++ data,output := s.numbers.output ++ s.numbers.next data }
    else s.numbers

def step (s : NumberedSplit) (event : SplitEvent) : NumberedSplit :=
  ⟨s.split.step sessionId event,s.numbersStep sessionId event⟩

def run (s : NumberedSplit) (events : List SplitEvent) : NumberedSplit := events.foldl (step sessionId) s

/-- A session has the bytes with these numbers, its output perhaps with later output behind them. -/
def Has (s : NumberedSplit) (id : UInt32) (input output : List ℕ) : Prop :=
  ∃ inputBytes outputBytes more, s.split.sessions.session? id = some (inputBytes,outputBytes ++ more) ∧
    Spells s.numbers.values input inputBytes ∧ Spells s.numbers.values output outputBytes

/-- Each byte that the session has held was returned by a read or is in one of the two new sessions. -/
structure Accounted (s : NumberedSplit) (newSession1Id newSession2Id : UInt32) : Prop where
  held : s.split.held = s.numbers.values
  returned : Spells s.numbers.values s.numbers.returned s.split.returned
  first : s.Has newSession1Id s.numbers.input1 s.numbers.outputCopy1
  second : s.Has newSession2Id s.numbers.input2 s.numbers.outputCopy2
  all : ∀ n < s.numbers.values.length, n ∈ s.numbers.returned ∨
    n ∈ s.numbers.input1 ++ s.numbers.outputCopy1 ∨ n ∈ s.numbers.input2 ++ s.numbers.outputCopy2

/-- No slice panicked, and once the split is over no byte is lost. -/
def Conserved (s : NumberedSplit) : Prop :=
  match s.split.phase with
  | .panicked => False
  | .returned newSession1Id newSession2Id => s.Accounted newSession1Id newSession2Id
  | _ => True

/-- The two slices find the half they look for, the new ids do not come round to the session's
own, and at the removal the session has no byte that was not copied. -/
def calm (s : NumberedSplit) : SplitEvent → Bool
  | .split =>
    match s.split.phase with
    | .measured sessionClone outputHalfSize =>
      outputHalfSize ≤ (s.split.sessions.buffers sessionClone.outputBuffer).length
    | .firstHalf sessionClone outputHalfSize _ =>
      outputHalfSize ≤ (s.split.sessions.buffers sessionClone.outputBuffer).length
    | .bothHalves _ =>
      (s.split.sessions.map.keys.max?.getD 0)+1 ≠ sessionId ∧ (s.split.sessions.map.keys.max?.getD 0)+1+1 ≠ sessionId
    | .bothFiled _ _ =>
      (∀ n ∈ s.numbers.input, n ∈ s.numbers.inputCopy) ∧
        ∀ n ∈ s.numbers.output, n ∈ s.numbers.outputCopy1 ++ s.numbers.outputCopy2
    | _ => true
  | _ => true

/-- Every step of the run meets the condition in its state. -/
def allCalm (s : NumberedSplit) : List SplitEvent → Bool
  | [] => true
  | event::events => s.calm sessionId event && allCalm (s.step sessionId event) events

end Steps

variable {sessionId : UInt32} {s s' : NumberedSplit}

/-! ### The calls next to the split -/

/-- What is in the two buffers of the session. -/
def own (sessionId : UInt32) (s : NumberedSplit) : Bytes × Bytes :=
  (s.split.sessions.session? sessionId).getD ([],[])

/-- The numbers follow the bytes, and so far each byte was returned or is in the session. -/
structure Kept (sessionId : UInt32) (s : NumberedSplit) : Prop where
  held : s.split.held = s.numbers.values
  returned : Spells s.numbers.values s.numbers.returned s.split.returned
  input : Spells s.numbers.values s.numbers.input (s.own sessionId).1
  output : Spells s.numbers.values s.numbers.output (s.own sessionId).2
  all : ∀ n < s.numbers.values.length, n ∈ s.numbers.returned ∨ n ∈ s.numbers.input ∨ n ∈ s.numbers.output

/-- What the other calls leave to the split between two of its steps. -/
structure Beside (sessionId : UInt32) (s s' : NumberedSplit) : Prop where
  phase : s'.split.phase = s.split.phase
  inputCopy : s'.numbers.inputCopy = s.numbers.inputCopy
  outputCopy1 : s'.numbers.outputCopy1 = s.numbers.outputCopy1
  outputCopy2 : s'.numbers.outputCopy2 = s.numbers.outputCopy2
  later : ∃ more, s'.numbers.values = s.numbers.values ++ more
  kept : s.Kept sessionId → s'.Kept sessionId
  buffer : s'.split.sessions.bufferOf sessionId = s.split.sessions.bufferOf sessionId
  other : ∀ {id : UInt32} {input output : Bytes}, id ≠ sessionId →
    s.split.sessions.session? id = some (input,output) → ∃ more, s'.split.sessions.session? id = some (input,output ++ more)
  dead : s.split.sessions.session? sessionId = none → s'.split.sessions.session? sessionId = none ∧
    s'.split.held = s.split.held ∧ s'.split.returned = s.split.returned ∧ s'.numbers = s.numbers

theorem Beside.spells (h : Beside sessionId s s') {numbers : List ℕ} {bytes : Bytes}
    (hspells : Spells s.numbers.values numbers bytes) : Spells s'.numbers.values numbers bytes := by
  obtain ⟨more,hmore⟩ := h.later
  rw [hmore]
  exact hspells.later more

theorem Beside.has (h : Beside sessionId s s') {id : UInt32} (hid : id ≠ sessionId) {input output : List ℕ}
    (hhas : s.Has id input output) : s'.Has id input output := by
  obtain ⟨inputBytes,outputBytes,more,hsession,hinput,houtput⟩ := hhas
  obtain ⟨more',hsession'⟩ := h.other hid hsession
  rw [List.append_assoc] at hsession'
  exact ⟨inputBytes,outputBytes,more ++ more',hsession',h.spells hinput,h.spells houtput⟩

/-- Nothing that `Kept` speaks of differs. -/
theorem Kept.congr (h : s.Kept sessionId) (hheld : s'.split.held = s.split.held)
    (hreturned : s'.split.returned = s.split.returned) (hnumbers : s'.numbers = s.numbers)
    (hown : s'.split.sessions.session? sessionId = s.split.sessions.session? sessionId) : s'.Kept sessionId := by
  have hsame : s'.own sessionId = s.own sessionId := congrArg (Option.getD · ([],[])) hown
  refine ⟨?_,?_,?_,?_,?_⟩
  · rw [hheld,hnumbers,h.held]
  · rw [hreturned,hnumbers]
    exact h.returned
  · rw [hsame,hnumbers]
    exact h.input
  · rw [hsame,hnumbers]
    exact h.output
  · rw [hnumbers]
    exact h.all

/-- A call that finds no session. -/
theorem beside_dead (hphase : s'.split.phase = s.split.phase) (hheld : s'.split.held = s.split.held)
    (hreturned : s'.split.returned = s.split.returned) (hnumbers : s'.numbers = s.numbers)
    (hown : s'.split.sessions.session? sessionId = s.split.sessions.session? sessionId)
    (hbuffer : s'.split.sessions.bufferOf sessionId = s.split.sessions.bufferOf sessionId)
    (hother : ∀ {id : UInt32} {input output : Bytes}, id ≠ sessionId →
      s.split.sessions.session? id = some (input,output) →
      ∃ more, s'.split.sessions.session? id = some (input,output ++ more)) : Beside sessionId s s' where
  phase := hphase
  inputCopy := by rw [hnumbers]
  outputCopy1 := by rw [hnumbers]
  outputCopy2 := by rw [hnumbers]
  later := ⟨[],by rw [hnumbers,List.append_nil]⟩
  kept h := h.congr hheld hreturned hnumbers hown
  buffer := hbuffer
  other := hother
  dead h := ⟨hown.trans h,hheld,hreturned,hnumbers⟩

theorem untouched_other {m m' : Sessions} (h : ∀ x, x ≠ sessionId → m.Untouched m' x) {id : UInt32}
    {input output : Bytes} (hid : id ≠ sessionId) (hsession : m.session? id = some (input,output)) :
    ∃ more, m'.session? id = some (input,output ++ more) :=
  ⟨[],by rw [List.append_nil,(h id hid).2,hsession]⟩

theorem bufferOf_readFromSession (m : Sessions) (id : UInt32) :
    (m.readFromSession id).2.bufferOf id = m.bufferOf id := by
  unfold Sessions.readFromSession
  split <;> rfl

theorem bufferOf_sendToSession (m : Sessions) (id : UInt32) (data : Bytes) :
    (m.sendToSession id data).2.bufferOf id = m.bufferOf id := by
  unfold Sessions.sendToSession
  split
  · unfold Sessions.bufferOf Sessions.modifyInput Sessions.withMap
    rw [ExtTreeMap.getElem?_modify_self,Option.map_map]
    rfl
  · rfl

theorem beside_read (sessionId : UInt32) (s : NumberedSplit) : Beside sessionId s (s.step sessionId .read) := by
  obtain ⟨hresult,hown,hrest⟩ := s.split.sessions.readFromSession_spec sessionId
  have hbuffer := bufferOf_readFromSession s.split.sessions sessionId
  cases hs : s.split.sessions.session? sessionId with
  | none =>
    rw [hs] at hresult hown
    have hsplit : s.split.step sessionId .read =
        { s.split with sessions := (s.split.sessions.readFromSession sessionId).2 } := by
      simp only [Splitting.step]
      split
      · next heq => rw [heq] at hresult; cases hresult
      · next heq => rw [heq]
    have hnumbers : s.numbersStep sessionId .read = s.numbers := if_neg (Sessions.session?_eq_none.mp hs)
    rw [step,hsplit,hnumbers]
    exact beside_dead rfl rfl rfl rfl (hown.trans hs.symm) hbuffer fun hid h => untouched_other hrest hid h
  | some buffers =>
    rw [hs] at hresult hown
    have hsplit : s.split.step sessionId .read = { s.split with
        sessions := (s.split.sessions.readFromSession sessionId).2
        returned := s.split.returned ++ buffers.2 } := by
      simp only [Splitting.step]
      split
      · next heq =>
        rw [heq] at hresult ⊢
        rw [Except.ok.inj hresult]
      · next heq => rw [heq] at hresult; cases hresult
    have hnumbers : s.numbersStep sessionId .read =
        { s.numbers with returned := s.numbers.returned ++ s.numbers.output,output := [] } :=
      if_pos (Sessions.mem_of_session? hs)
    have hbefore : s.own sessionId = buffers := by rw [own,hs]; rfl
    rw [step,hsplit,hnumbers]
    refine ⟨rfl,rfl,rfl,rfl,⟨[],(List.append_nil _).symm⟩,fun h => ?_,hbuffer,
      fun hid h => untouched_other hrest hid h,fun h => by rw [hs] at h; cases h⟩
    have hinput := h.input
    have houtput := h.output
    rw [hbefore] at hinput houtput
    refine ⟨h.held,h.returned.append houtput,?_,?_,fun n hn => ?_⟩
    · simpa [own,hown] using hinput
    · simpa [own,hown] using spells_nil
    · rcases h.all n hn with h | h | h
      · exact .inl (List.mem_append_left _ h)
      · exact .inr (.inl h)
      · exact .inl (List.mem_append_right _ h)

/-- A byte is one of those before or has one of the next numbers. -/
theorem mem_next {numbers : ByteNumbers} {data : Bytes} {n : ℕ} (h : n < (numbers.values ++ data).length) :
    n < numbers.values.length ∨ n ∈ numbers.next data := by
  rw [List.length_append] at h
  rw [ByteNumbers.next,List.mem_range'_1]
  omega

theorem beside_send (sessionId : UInt32) (s : NumberedSplit) (data : Bytes) :
    Beside sessionId s (s.step sessionId (.send data)) := by
  obtain ⟨hown,hrest⟩ := s.split.sessions.sendToSession_spec sessionId data
  have hbuffer := bufferOf_sendToSession s.split.sessions sessionId data
  cases hs : s.split.sessions.session? sessionId with
  | none =>
    have hdead : sessionId ∉ s.split.sessions.map := Sessions.session?_eq_none.mp hs
    have hsplit : s.split.step sessionId (.send data) = s.split := by
      simp only [Splitting.step,Sessions.sendToSession,if_neg hdead]
    have hnumbers : s.numbersStep sessionId (.send data) = s.numbers := if_neg hdead
    rw [step,hsplit,hnumbers]
    exact beside_dead rfl rfl rfl rfl rfl rfl fun _ h => ⟨[],by rw [List.append_nil,h]⟩
  | some buffers =>
    rw [hs] at hown
    have hlive : sessionId ∈ s.split.sessions.map := Sessions.mem_of_session? hs
    have hsplit : s.split.step sessionId (.send data) = { s.split with
        sessions := (s.split.sessions.sendToSession sessionId data).2
        held := s.split.held ++ data } := by
      simp only [Splitting.step,Sessions.sendToSession,if_pos hlive]
    have hnumbers : s.numbersStep sessionId (.send data) =
        { s.numbers with values := s.numbers.values ++ data,input := s.numbers.input ++ s.numbers.next data } :=
      if_pos hlive
    have hbefore : s.own sessionId = buffers := by rw [own,hs]; rfl
    rw [step,hsplit,hnumbers]
    refine ⟨rfl,rfl,rfl,rfl,⟨data,rfl⟩,fun h => ?_,hbuffer,
      fun hid h => untouched_other hrest hid h,fun h => by rw [hs] at h; cases h⟩
    have hinput := h.input.later data
    have houtput := h.output.later data
    have hnext := spells_next s.numbers.values data []
    rw [hbefore] at hinput houtput
    rw [List.append_nil] at hnext
    refine ⟨congrArg (· ++ data) h.held,h.returned.later data,?_,?_,fun n hn => ?_⟩
    · simpa [own,hown,ByteNumbers.next] using hinput.append hnext
    · simpa [own,hown] using houtput
    · rcases mem_next hn with hbefore | hnew
      · exact (h.all n hbefore).imp_right (Or.imp_left (List.mem_append_left _))
      · exact .inr (.inl (List.mem_append_right _ hnew))

theorem beside_append (sessionId : UInt32) (s : NumberedSplit) (buffer : ℕ) (data : Bytes) :
    Beside sessionId s (s.step sessionId (.append buffer data)) := by
  have hsessions := Splitting.session?_append s.split.sessions buffer data
  have hother {id : UInt32} {input output : Bytes} (h : s.split.sessions.session? id = some (input,output)) :
      ∃ more, (s.split.sessions.setBuffer buffer (s.split.sessions.buffers buffer ++ data)).session? id =
        some (input,output ++ more) := by
    rw [hsessions id,h,Option.map_some]
    by_cases hb : s.split.sessions.bufferOf id = some buffer
    · exact ⟨data,by rw [if_pos hb]⟩
    · exact ⟨[],by rw [if_neg hb,List.append_nil]⟩
  by_cases hb : s.split.sessions.bufferOf sessionId = some buffer
  · have hsplit : s.split.step sessionId (.append buffer data) = { s.split with
        sessions := s.split.sessions.setBuffer buffer (s.split.sessions.buffers buffer ++ data)
        held := s.split.held ++ data } := by simp only [Splitting.step,if_pos hb]
    have hnumbers : s.numbersStep sessionId (.append buffer data) =
        { s.numbers with values := s.numbers.values ++ data,output := s.numbers.output ++ s.numbers.next data } :=
      if_pos hb
    have hlive : s.split.sessions.session? sessionId ≠ none := fun h => by
      rw [Splitting.bufferOf_eq_none h] at hb
      cases hb
    obtain ⟨buffers,hs⟩ := Option.ne_none_iff_exists'.mp hlive
    have hbefore : s.own sessionId = buffers := by rw [own,hs]; rfl
    have hown := hsessions sessionId
    rw [hs,Option.map_some,if_pos hb] at hown
    rw [step,hsplit,hnumbers]
    refine ⟨rfl,rfl,rfl,rfl,⟨data,rfl⟩,fun h => ?_,rfl,fun _ h => hother h,fun h => absurd h hlive⟩
    have hinput := h.input.later data
    have houtput := h.output.later data
    have hnext := spells_next s.numbers.values data []
    rw [hbefore] at hinput houtput
    rw [List.append_nil] at hnext
    refine ⟨congrArg (· ++ data) h.held,h.returned.later data,?_,?_,fun n hn => ?_⟩
    · simpa [own,hown] using hinput
    · simpa [own,hown,ByteNumbers.next] using houtput.append hnext
    · rcases mem_next hn with hbefore | hnew
      · exact (h.all n hbefore).imp_right (Or.imp_right (List.mem_append_left _))
      · exact .inr (.inr (List.mem_append_right _ hnew))
  · have hsplit : s.split.step sessionId (.append buffer data) = { s.split with
        sessions := s.split.sessions.setBuffer buffer (s.split.sessions.buffers buffer ++ data) } := by
      simp only [Splitting.step,if_neg hb]
    have hnumbers : s.numbersStep sessionId (.append buffer data) = s.numbers := if_neg hb
    have hown := hsessions sessionId
    simp only [if_neg hb,Prod.mk.eta,Option.map_id'] at hown
    rw [step,hsplit,hnumbers]
    exact beside_dead rfl rfl rfl rfl hown rfl fun _ h => hother h

theorem beside_of_ne_split (sessionId : UInt32) (s : NumberedSplit) {event : SplitEvent} (h : event ≠ .split) :
    Beside sessionId s (s.step sessionId event) := by
  cases event with
  | split => exact absurd rfl h
  | read => exact beside_read sessionId s
  | send data => exact beside_send sessionId s data
  | append buffer data => exact beside_append sessionId s buffer data

/-! ### The invariant of a run -/

/-- The numbers of the input that the clone copied, and the output buffer that it shares. -/
structure Cloned (sessionId : UInt32) (s : NumberedSplit) (sessionClone : PtySession) : Prop where
  kept : s.Kept sessionId
  input : Spells s.numbers.values s.numbers.inputCopy sessionClone.inputBuffer
  buffer : s.split.sessions.bufferOf sessionId = some sessionClone.outputBuffer

structure Copied (s : NumberedSplit) (copy : SplitCopy) : Prop where
  input : Spells s.numbers.values s.numbers.inputCopy copy.sessionClone.inputBuffer
  output1 : Spells s.numbers.values s.numbers.outputCopy1 copy.output1
  output2 : Spells s.numbers.values s.numbers.outputCopy2 copy.output2

/-- The new ids are not the session's own. -/
def Apart (sessionId newSession1Id newSession2Id : UInt32) : Prop :=
  newSession1Id ≠ sessionId ∧ newSession2Id ≠ sessionId

/-- What is known at each point of the split: until the removal nothing is lost, and the new
sessions have what they were given. -/
def Invariant (sessionId : UInt32) (s : NumberedSplit) : Prop :=
  match s.split.phase with
  | .ready => s.Kept sessionId
  | .cloned sessionClone => s.Cloned sessionId sessionClone
  | .measured sessionClone _ => s.Cloned sessionId sessionClone
  | .firstHalf sessionClone _ output1 =>
    s.Cloned sessionId sessionClone ∧ Spells s.numbers.values s.numbers.outputCopy1 output1
  | .bothHalves copy => s.Kept sessionId ∧ s.Copied copy
  | .scanned copy newSession1Id =>
    s.Kept sessionId ∧ s.Copied copy ∧ Apart sessionId newSession1Id (newSession1Id+1)
  | .oneFiled copy newSession1Id =>
    s.Kept sessionId ∧ s.Copied copy ∧ Apart sessionId newSession1Id (newSession1Id+1) ∧
      s.Has newSession1Id s.numbers.input1 s.numbers.outputCopy1
  | .bothFiled _ newSession1Id =>
    s.Kept sessionId ∧ Apart sessionId newSession1Id (newSession1Id+1) ∧
      s.Has newSession1Id s.numbers.input1 s.numbers.outputCopy1 ∧
      s.Has (newSession1Id+1) s.numbers.input2 s.numbers.outputCopy2
  | .returned newSession1Id newSession2Id =>
    s.split.sessions.session? sessionId = none ∧ Apart sessionId newSession1Id newSession2Id ∧
      s.Accounted newSession1Id newSession2Id
  | .notFound => True
  | .panicked => False

theorem Beside.cloned (hb : Beside sessionId s s') {sessionClone : PtySession}
    (h : s.Cloned sessionId sessionClone) : s'.Cloned sessionId sessionClone where
  kept := hb.kept h.kept
  input := by
    rw [hb.inputCopy]
    exact hb.spells h.input
  buffer := hb.buffer.trans h.buffer

theorem Beside.copied (hb : Beside sessionId s s') {copy : SplitCopy} (h : s.Copied copy) : s'.Copied copy where
  input := by
    rw [hb.inputCopy]
    exact hb.spells h.input
  output1 := by
    rw [hb.outputCopy1]
    exact hb.spells h.output1
  output2 := by
    rw [hb.outputCopy2]
    exact hb.spells h.output2

theorem Beside.first (hb : Beside sessionId s s') {id : UInt32} (hid : id ≠ sessionId)
    (h : s.Has id s.numbers.input1 s.numbers.outputCopy1) : s'.Has id s'.numbers.input1 s'.numbers.outputCopy1 := by
  rw [ByteNumbers.input1,hb.inputCopy,hb.outputCopy1]
  exact hb.has hid h

theorem Beside.second (hb : Beside sessionId s s') {id : UInt32} (hid : id ≠ sessionId)
    (h : s.Has id s.numbers.input2 s.numbers.outputCopy2) : s'.Has id s'.numbers.input2 s'.numbers.outputCopy2 := by
  rw [ByteNumbers.input2,hb.inputCopy,hb.outputCopy2]
  exact hb.has hid h

/-- After the removal no call reaches the session, so what was accounted for stays so. -/
theorem Beside.accounted (hb : Beside sessionId s s') {a b : UInt32} (hapart : Apart sessionId a b)
    (hdead : s.split.sessions.session? sessionId = none) (h : s.Accounted a b) : s'.Accounted a b := by
  obtain ⟨-,hheld,hreturned,hnumbers⟩ := hb.dead hdead
  refine ⟨?_,?_,hb.first hapart.1 h.first,hb.second hapart.2 h.second,?_⟩
  · rw [hheld,hnumbers,h.held]
  · rw [hreturned,hnumbers]
    exact h.returned
  · rw [hnumbers]
    exact h.all

theorem invariant_beside (h : s.Invariant sessionId) (hb : Beside sessionId s s') : s'.Invariant sessionId := by
  unfold Invariant at h ⊢
  rw [hb.phase]
  cases hp : s.split.phase <;> rw [hp] at h
  case ready => exact hb.kept h
  case cloned | measured => exact hb.cloned h
  case firstHalf =>
    obtain ⟨hcloned,houtput1⟩ := h
    refine ⟨hb.cloned hcloned,?_⟩
    rw [hb.outputCopy1]
    exact hb.spells houtput1
  case bothHalves => exact ⟨hb.kept h.1,hb.copied h.2⟩
  case scanned => exact ⟨hb.kept h.1,hb.copied h.2.1,h.2.2⟩
  case oneFiled =>
    obtain ⟨hkept,hcopied,hapart,hfirst⟩ := h
    exact ⟨hb.kept hkept,hb.copied hcopied,hapart,hb.first hapart.1 hfirst⟩
  case bothFiled =>
    obtain ⟨hkept,hapart,hfirst,hsecond⟩ := h
    exact ⟨hb.kept hkept,hapart,hb.first hapart.1 hfirst,hb.second hapart.2 hsecond⟩
  case returned =>
    obtain ⟨hdead,hapart,haccounted⟩ := h
    exact ⟨(hb.dead hdead).1,hapart,hb.accounted hapart hdead haccounted⟩
  case notFound => trivial
  case panicked => exact h.elim

/-! ### The steps of the split -/

/-- The output that the session has is the buffer that the clone shares. -/
theorem Cloned.output {sessionClone : PtySession} (h : s.Cloned sessionId sessionClone) :
    Spells s.numbers.values s.numbers.output (s.split.sessions.buffers sessionClone.outputBuffer) := by
  have houtput := h.kept.output
  obtain ⟨session,hsession,hbuffer⟩ := Option.map_eq_some_iff.mp h.buffer
  rw [own,Sessions.session?,hsession] at houtput
  rw [← hbuffer]
  exact houtput

/-- Filing a new session leaves the old one as it is. -/
theorem Kept.filed (h : s.Kept sessionId) {id : UInt32} (hid : id ≠ sessionId) (input output : Bytes)
    (phase : SplitPhase) :
    (⟨{ s.split with sessions := s.split.sessions.insertNew id input output, phase := phase },s.numbers⟩ :
      NumberedSplit).Kept sessionId :=
  h.congr rfl rfl rfl (Sessions.insertNew_untouched hid.symm input output).2

theorem has_filed {id : UInt32} {input output : List ℕ} {inputBytes outputBytes : Bytes}
    (hinput : Spells s.numbers.values input inputBytes) (houtput : Spells s.numbers.values output outputBytes)
    (phase : SplitPhase) :
    (⟨{ s.split with sessions := s.split.sessions.insertNew id inputBytes outputBytes, phase := phase },s.numbers⟩ :
      NumberedSplit).Has id input output :=
  ⟨inputBytes,outputBytes,[],by rw [List.append_nil,Sessions.session?_insertNew,if_pos rfl],hinput,houtput⟩

/-- Another session keeps its bytes. -/
theorem Has.untouched {id : UInt32} {input output : List ℕ} (h : s.Has id input output)
    (hsame : s'.split.sessions.session? id = s.split.sessions.session? id)
    (hvalues : s'.numbers.values = s.numbers.values) : s'.Has id input output := by
  obtain ⟨inputBytes,outputBytes,more,hsession,hinput,houtput⟩ := h
  rw [← hvalues] at hinput houtput
  exact ⟨inputBytes,outputBytes,more,hsame.trans hsession,hinput,houtput⟩

theorem mem_halves {numbers : ByteNumbers} {n : ℕ} (h : n ∈ numbers.inputCopy) :
    n ∈ numbers.input1 ∨ n ∈ numbers.input2 := by
  rw [← List.take_append_drop (numbers.inputCopy.length/2) numbers.inputCopy] at h
  exact List.mem_append.mp h

/-- What was in the session at the removal is in the halves. -/
theorem moved {n : ℕ} (hkept : n ∈ s.numbers.returned ∨ n ∈ s.numbers.input ∨ n ∈ s.numbers.output)
    (hinput : ∀ n ∈ s.numbers.input, n ∈ s.numbers.inputCopy)
    (houtput : ∀ n ∈ s.numbers.output, n ∈ s.numbers.outputCopy1 ++ s.numbers.outputCopy2) :
    n ∈ s.numbers.returned ∨ n ∈ s.numbers.input1 ++ s.numbers.outputCopy1 ∨
      n ∈ s.numbers.input2 ++ s.numbers.outputCopy2 := by
  simp only [List.mem_append] at houtput ⊢
  rcases hkept with hreturned | hin | hout
  · exact .inl hreturned
  · exact .inr ((mem_halves (hinput n hin)).imp .inl .inl)
  · exact .inr ((houtput n hout).imp .inr .inr)

theorem invariant_split (h : s.Invariant sessionId) (hcalm : s.calm sessionId .split) :
    (s.step sessionId .split).Invariant sessionId := by
  unfold Invariant at h
  unfold calm at hcalm
  cases hp : s.split.phase <;> rw [hp] at h hcalm <;> simp only [decide_eq_true_eq] at h hcalm
  case ready =>
    cases hs : s.split.sessions.map[sessionId]? with
    | none => simp only [step,Splitting.step,Splitting.splitStep,hp,hs,Invariant]
    | some sessionClone =>
      simp only [step,Splitting.step,Splitting.splitStep,numbersStep,hp,hs,Invariant]
      have hinput := h.input
      rw [own,Sessions.session?,hs] at hinput
      refine ⟨⟨h.held,h.returned,h.input,h.output,h.all⟩,hinput,?_⟩
      simp only [Sessions.bufferOf,hs,Option.map_some]
  case cloned sessionClone =>
    simp only [step,Splitting.step,Splitting.splitStep,numbersStep,hp,Invariant]
    exact ⟨h.kept.congr rfl rfl rfl rfl,h.input,h.buffer⟩
  case measured sessionClone outputHalfSize =>
    simp only [step,Splitting.step,Splitting.splitStep,numbersStep,hp,if_pos hcalm,Invariant]
    exact ⟨⟨⟨h.kept.held,h.kept.returned,h.kept.input,h.kept.output,h.kept.all⟩,h.input,h.buffer⟩,
      h.output.take outputHalfSize⟩
  case firstHalf sessionClone outputHalfSize output1 =>
    simp only [step,Splitting.step,Splitting.splitStep,numbersStep,hp,if_pos hcalm,Invariant]
    obtain ⟨hcloned,houtput1⟩ := h
    have hkept := hcloned.kept
    exact ⟨⟨hkept.held,hkept.returned,hkept.input,hkept.output,hkept.all⟩,
      hcloned.input,houtput1,hcloned.output.drop outputHalfSize⟩
  case bothHalves copy =>
    simp only [step,Splitting.step,Splitting.splitStep,numbersStep,hp,Invariant]
    exact ⟨h.1.congr rfl rfl rfl rfl,⟨h.2.input,h.2.output1,h.2.output2⟩,hcalm⟩
  case scanned copy newSession1Id =>
    simp only [step,Splitting.step,Splitting.splitStep,numbersStep,hp,Invariant]
    obtain ⟨hkept,hcopied,hapart⟩ := h
    have hlength := hcopied.input.length
    refine ⟨hkept.filed hapart.1 _ _ _,⟨hcopied.input,hcopied.output1,hcopied.output2⟩,hapart,
      has_filed ?_ hcopied.output1 _⟩
    rw [ByteNumbers.input1,SplitCopy.input1,hlength]
    exact hcopied.input.take _
  case oneFiled copy newSession1Id =>
    simp only [step,Splitting.step,Splitting.splitStep,numbersStep,hp,Invariant]
    obtain ⟨hkept,hcopied,hapart,hfirst⟩ := h
    have hne : newSession1Id ≠ newSession1Id+1 := (Registry.succ_ne _).symm
    have hlength := hcopied.input.length
    refine ⟨hkept.filed hapart.2 _ _ _,hapart,
      hfirst.untouched (Sessions.insertNew_untouched hne copy.input2 copy.output2).2 rfl,
      has_filed ?_ hcopied.output2 _⟩
    rw [ByteNumbers.input2,SplitCopy.input2,hlength]
    exact hcopied.input.drop _
  case bothFiled copy newSession1Id =>
    simp only [step,Splitting.step,Splitting.splitStep,numbersStep,hp,Invariant]
    obtain ⟨hkept,hapart,hfirst,hsecond⟩ := h
    have hsame {id : UInt32} (hid : id ≠ sessionId) := (Sessions.erase_untouched (m := s.split.sessions) hid).2
    refine ⟨by rw [Sessions.session?_erase,if_pos rfl],hapart,hkept.held,hkept.returned,
      hfirst.untouched (hsame hapart.1) rfl,hsecond.untouched (hsame hapart.2) rfl,fun n hn => ?_⟩
    exact moved (s := s) (hkept.all n hn) hcalm.1 hcalm.2
  case returned newSession1Id newSession2Id =>
    simp only [step,Splitting.step,Splitting.splitStep,numbersStep,hp,Invariant]
    exact h
  case notFound => simp only [step,Splitting.step,Splitting.splitStep,hp,Invariant]

theorem invariant_step (h : s.Invariant sessionId) {event : SplitEvent} (hcalm : s.calm sessionId event) :
    (s.step sessionId event).Invariant sessionId := by
  by_cases he : event = .split
  · subst he
    exact invariant_split h hcalm
  · exact invariant_beside h (beside_of_ne_split sessionId s he)

theorem run_invariant {before after : List SplitEvent} (h : s.Invariant sessionId)
    (hcalm : s.allCalm sessionId (before ++ after)) : (s.run sessionId before).Invariant sessionId := by
  induction before generalizing s with
  | nil => exact h
  | cons event before ih =>
    rw [List.cons_append,allCalm,Bool.and_eq_true] at hcalm
    exact ih (invariant_step h hcalm.1) hcalm.2

theorem Invariant.conserved (h : s.Invariant sessionId) : s.Conserved := by
  unfold Invariant at h
  unfold Conserved
  cases hp : s.split.phase <;> rw [hp] at h
  case panicked => exact h
  case returned => exact h.2.2
  all_goals trivial

/-- At the start the numbers count through the input and on through the output. -/
theorem start_kept (sessionId : UInt32) (m : Sessions) : (start sessionId m).Kept sessionId := by
  have hheld : m.contents sessionId = ((m.session? sessionId).getD ([],[])).1 ++
      ((m.session? sessionId).getD ([],[])).2 := by
    rw [Sessions.contents]
    cases m.session? sessionId <;> rfl
  refine ⟨hheld,spells_nil,?_,?_,fun n hn => .inr ?_⟩
  · exact spells_next [] _ _
  · have houtput := spells_next ((m.session? sessionId).getD ([],[])).1 ((m.session? sessionId).getD ([],[])).2 []
    rwa [List.append_nil] at houtput
  · simp only [start,List.length_append] at hn
    simp only [start,List.mem_range'_1]
    omega

/-- In a run whose steps all meet the condition the split never panics, and after it every byte
that the session has held was returned by a read or is in a new session. -/
theorem split_conserved (sessionId : UInt32) (m : Sessions) (events : List SplitEvent)
    (hcalm : (start sessionId m).allCalm sessionId events) :
    ∀ before after, events = before ++ after → ((start sessionId m).run sessionId before).Conserved := by
  rintro before after rfl
  have hstart : (start sessionId m).Invariant sessionId := start_kept sessionId m
  exact (run_invariant hstart hcalm).conserved

/-- Output that comes before the locks is split, and output that comes after them is read. -/
theorem split_conserved_read : ((start 1 (Splitting.printed [97])).run 1 [.split,.append 0 [98],.split,.split,
    .split,.append 0 [99],.read,.split,.split,.split,.split]).Conserved :=
  split_conserved 1 _ _ (by decide) _ [] rfl

/-- The split of a session with a send after its clone and output after its third lock. -/
def interrupted : NumberedSplit := (start 1 (Splitting.printed [97,98])).run 1 [.split,.send [113],.split,
  .split,.split,.append 0 [99],.split,.split,.split,.split]

/-- A read between the first two locks makes the slice panic, and what comes after the clone or
after the third lock is in neither new session. -/
theorem split_not_conserved :
    ((start 1 (Splitting.printed [97,98])).run 1 [.split,.split,.read,.split]).split.phase = .panicked ∧
    interrupted.split.phase = .returned 2 3 ∧ interrupted.split.held = [108,115,97,98,113,99] ∧
    interrupted.split.returned = [] ∧ interrupted.split.sessions.contents 2 = [108,97] ∧
    interrupted.split.sessions.contents 3 = [115,98] ∧ ¬interrupted.Conserved := by
  have hphase : interrupted.split.phase = .returned 2 3 := by decide
  refine ⟨by decide,hphase,by decide,by decide,by decide,by decide,fun hc => ?_⟩
  rw [Conserved,hphase] at hc
  -- The sent byte has number 4.
  have hall := hc.all 4 (by decide)
  exact absurd hall (by decide)

end NumberedSplit
end NodeRustPty
