import NodeRustPty.SessionRuns

/-! `split_session` step by step. It copies the input at once, but looks at the output
buffer three times under three separate locks, files the halves and only then takes the
session out of the map; reads, sends and appends come between any two of its steps. -/
namespace NodeRustPty

open Std

/-- What the split has copied: its clone of the session, and the halves of the output. -/
structure SplitCopy where
  sessionClone : PtySession
  output1 : Bytes
  output2 : Bytes
  deriving DecidableEq

def SplitCopy.input1 (copy : SplitCopy) : Bytes :=
  copy.sessionClone.inputBuffer.take (copy.sessionClone.inputBuffer.length/2)

def SplitCopy.input2 (copy : SplitCopy) : Bytes :=
  copy.sessionClone.inputBuffer.drop (copy.sessionClone.inputBuffer.length/2)

/-- Where the split is. The map is scanned after the last lock; `newSession1Id` is known from then on. -/
inductive SplitPhase
  | ready
  | cloned (sessionClone : PtySession)
  | measured (sessionClone : PtySession) (outputHalfSize : ℕ)
  | firstHalf (sessionClone : PtySession) (outputHalfSize : ℕ) (output1 : Bytes)
  | bothHalves (copy : SplitCopy)
  | scanned (copy : SplitCopy) (newSession1Id : UInt32)
  | oneFiled (copy : SplitCopy) (newSession1Id : UInt32)
  | bothFiled (copy : SplitCopy) (newSession1Id : UInt32)
  | returned (newSession1Id newSession2Id : UInt32)
  | notFound
  | panicked
  deriving DecidableEq

/-- A step of the split or of a call next to it: a read of the session, a send to it, or an append
of a `dispatch_output` to any buffer. -/
inductive SplitEvent
  | split
  | read
  | send (data : Bytes)
  | append (buffer : ℕ) (data : Bytes)

/-- The state with two records: all the session has held, and all that reads of it returned. -/
structure Splitting where
  sessions : Sessions
  phase : SplitPhase
  held : Bytes
  returned : Bytes

/-- Everything in the two buffers of a session. -/
def Sessions.contents (m : Sessions) (id : UInt32) : Bytes :=
  ((m.session? id).map fun buffers => buffers.1 ++ buffers.2).getD []

def Sessions.bufferOf (m : Sessions) (id : UInt32) : Option ℕ := m.map[id]?.map PtySession.outputBuffer

namespace Splitting

section Steps

variable (sessionId : UInt32)

def start (m : Sessions) : Splitting := ⟨m,.ready,m.contents sessionId,[]⟩

/-- The next step of the split. The two slices panic when the buffer is shorter than the half. -/
def splitStep (s : Splitting) : Splitting :=
  match s.phase with
  | .ready =>
    match s.sessions.map[sessionId]? with
    | some sessionClone => { s with phase := .cloned sessionClone }
    | none => { s with phase := .notFound }
  | .cloned sessionClone =>
    let output := s.sessions.buffers sessionClone.outputBuffer
    { s with phase := .measured sessionClone (output.length/2) }
  | .measured sessionClone outputHalfSize =>
    let output := s.sessions.buffers sessionClone.outputBuffer
    if outputHalfSize ≤ output.length then
      { s with phase := .firstHalf sessionClone outputHalfSize (output.take outputHalfSize) }
    else { s with phase := .panicked }
  | .firstHalf sessionClone outputHalfSize output1 =>
    let output := s.sessions.buffers sessionClone.outputBuffer
    if outputHalfSize ≤ output.length then
      { s with phase := .bothHalves ⟨sessionClone,output1,output.drop outputHalfSize⟩ }
    else { s with phase := .panicked }
  | .bothHalves copy =>
    { s with phase := .scanned copy ((s.sessions.map.keys.max?.getD 0)+1) }
  | .scanned copy newSession1Id =>
    { s with
      sessions := s.sessions.insertNew newSession1Id copy.input1 copy.output1
      phase := .oneFiled copy newSession1Id }
  | .oneFiled copy newSession1Id =>
    { s with
      sessions := s.sessions.insertNew (newSession1Id+1) copy.input2 copy.output2
      phase := .bothFiled copy newSession1Id }
  | .bothFiled _ newSession1Id =>
    { s with sessions := s.sessions.erase sessionId, phase := .returned newSession1Id (newSession1Id+1) }
  | .returned _ _ => s
  | .notFound => s
  | .panicked => s

def step (s : Splitting) : SplitEvent → Splitting
  | .split => s.splitStep sessionId
  | .read =>
    match s.sessions.readFromSession sessionId with
    | (.ok data,m) => { s with sessions := m, returned := s.returned ++ data }
    | (.error _,m) => { s with sessions := m }
  | .send data =>
    match s.sessions.sendToSession sessionId data with
    | (.ok _,m) => { s with sessions := m, held := s.held ++ data }
    | (.error _,m) => { s with sessions := m }
  | .append buffer data =>
    { s with
      sessions := s.sessions.setBuffer buffer (s.sessions.buffers buffer ++ data)
      held := if s.sessions.bufferOf sessionId = some buffer then s.held ++ data else s.held }

def run (s : Splitting) (events : List SplitEvent) : Splitting := events.foldl (step sessionId) s

end Steps

/-! ### The calls next to the split -/

theorem session?_append (m : Sessions) (buffer : ℕ) (data : Bytes) (x : UInt32) :
    (m.setBuffer buffer (m.buffers buffer ++ data)).session? x = (m.session? x).map fun buffers =>
      (buffers.1,if m.bufferOf x = some buffer then buffers.2 ++ data else buffers.2) := by
  unfold Sessions.session? Sessions.bufferOf
  rw [Sessions.map_setBuffer]
  cases hx : m.map[x]? with
  | none => rfl
  | some session =>
    by_cases hb : session.outputBuffer = buffer
    · simp [Sessions.setBuffer,hb]
    · simp [Sessions.setBuffer,hb]

theorem bufferOf_eq_none {m : Sessions} {id : UInt32} (h : m.session? id = none) : m.bufferOf id = none := by
  rw [Sessions.session?,Option.map_eq_none_iff] at h
  rw [Sessions.bufferOf,h]
  rfl

variable {sessionId : UInt32}

/-- Without other calls in between the steps do what `split_session` does at once. -/
theorem run_alone {m : Sessions} {session : PtySession} (hs : m.map[sessionId]? = some session) :
    ∃ newSession1Id newSession2Id, (m.splitSession sessionId).1 = .ok (newSession1Id,newSession2Id) ∧
    (start sessionId m).run sessionId (List.replicate 8 .split) =
      ⟨(m.splitSession sessionId).2,.returned newSession1Id newSession2Id,m.contents sessionId,[]⟩ := by
  have hhalf : (m.buffers session.outputBuffer).length/2 ≤ (m.buffers session.outputBuffer).length :=
    Nat.div_le_self _ _
  refine ⟨(m.map.keys.max?.getD 0)+1,(m.map.keys.max?.getD 0)+1+1,by simp [Sessions.splitSession,hs],?_⟩
  simp only [run,List.replicate,List.foldl,step,start,splitStep,hs,if_pos hhalf,Sessions.splitSession,
    SplitCopy.input1,SplitCopy.input2]

/-- A session that is not there ends it at once. -/
theorem run_alone_dead {m : Sessions} (hs : m.map[sessionId]? = none) :
    (start sessionId m).run sessionId (List.replicate 8 .split) = ⟨m,.notFound,m.contents sessionId,[]⟩ := by
  simp only [run,List.replicate,List.foldl,step,start,splitStep,hs]

/-- The ids of the halves follow the largest live one. -/
theorem split_ids {m : Sessions} (hm : m.Bounded) {sessionId a b : UInt32} (hid : sessionId ∈ m.map)
    (h : (m.splitSession sessionId).1 = .ok (a,b)) : ∃ maxId ∈ m.map, (∀ x ∈ m.map, x ≤ maxId) ∧
    a.toNat = maxId.toNat+1 ∧ b.toNat = a.toNat+1 := by
  obtain ⟨top,hmax⟩ := Registry.max?_of_mem hid
  obtain ⟨m',hsplit,-⟩ := Registry.splitSession_live hid hmax
  obtain ⟨htop,hle⟩ := Sessions.max?_keys hmax
  obtain ⟨hnext,hnext'⟩ := hm.next_toNat htop
  rw [hsplit] at h
  cases h
  exact ⟨top,htop,hle,hnext,hnext'⟩

/-- A split alone, from any table whose ids leave room: the halves get the next two ids and
everything that the session had, and no other session changes. -/
theorem split_alone (m : Sessions) (hm : m.Bounded) (sessionId : UInt32) :
    (∀ input output, m.session? sessionId = some (input,output) → ∃ a b m' input1 output1 input2 output2,
      (start sessionId m).run sessionId (List.replicate 8 .split) = ⟨m',.returned a b,m.contents sessionId,[]⟩ ∧
      m.splitSession sessionId = (.ok (a,b),m') ∧
      (∃ maxId ∈ m.map, (∀ x ∈ m.map, x ≤ maxId) ∧ a.toNat = maxId.toNat+1 ∧ b.toNat = a.toNat+1) ∧
      sessionId ∉ m'.map ∧ m'.session? a = some (input1,output1) ∧ m'.session? b = some (input2,output2) ∧
      input1 ++ input2 = input ∧ output1 ++ output2 = output ∧
      input1.length = input.length/2 ∧ output1.length = output.length/2 ∧
      ∀ x, x ≠ a → x ≠ b → x ≠ sessionId → m.Untouched m' x) ∧
    (m.session? sessionId = none →
      (start sessionId m).run sessionId (List.replicate 8 .split) = ⟨m,.notFound,m.contents sessionId,[]⟩ ∧
      m.splitSession sessionId = (.error (Sessions.notFound sessionId),m)) := by
  constructor
  · intro input output hs
    obtain ⟨session,hsession,-⟩ := Option.map_eq_some_iff.mp hs
    have hid : sessionId ∈ m.map := Sessions.mem_of_session? hs
    obtain ⟨a,b,hresult,-,-,-,ha,hb,hgone,hrest⟩ := Sessions.splitSession_spec hm hs
    obtain ⟨a',b',hresult',hrun⟩ := run_alone hsession
    obtain ⟨rfl,rfl⟩ : a = a' ∧ b = b' := by simpa [hresult] using hresult'
    refine ⟨a,b,(m.splitSession sessionId).2,_,_,_,_,hrun,Prod.ext hresult rfl,split_ids hm hid hresult,hgone,ha,hb,
      List.take_append_drop _ _,List.take_append_drop _ _,?_,?_,hrest⟩
    · exact List.length_take_of_le (Nat.div_le_self _ _)
    · exact List.length_take_of_le (Nat.div_le_self _ _)
  · intro hs
    have hdead : sessionId ∉ m.map := Sessions.session?_eq_none.mp hs
    exact ⟨run_alone_dead (Std.ExtTreeMap.getElem?_eq_none hdead),Registry.splitSession_dead hdead⟩

/-- A line of output before the split. -/
def printed (output : Bytes) : Sessions := Sessions.empty.insertNew 1 [108,115] output

theorem printed_bounded (output : Bytes) : (printed output).Bounded := by
  intro id hid
  rcases Registry.mem_insertNew.mp hid with rfl | hempty
  · decide
  · exact absurd hempty ExtTreeMap.not_mem_empty

/-- An odd output: the second half is the longer one. -/
theorem split_alone_printed : ∃ a b m', (printed [97,98,99]).splitSession 1 = (.ok (a,b),m') ∧ 1 ∉ m'.map ∧
    ∃ input1 output1 input2 output2, m'.session? a = some (input1,output1) ∧ m'.session? b = some (input2,output2) ∧
    input1 ++ input2 = [108,115] ∧ output1 ++ output2 = [97,98,99] ∧ input1.length = 1 ∧ output1.length = 1 := by
  have hs : (printed [97,98,99]).session? 1 = some ([108,115],[97,98,99]) := by decide
  obtain ⟨a,b,m',input1,output1,input2,output2,-,hsplit,-,hgone,ha,hb,hinput,houtput,hfirst,hfirst',-⟩ :=
    (split_alone _ (printed_bounded [97,98,99]) 1).1 _ _ hs
  exact ⟨a,b,m',hsplit,hgone,input1,output1,input2,output2,ha,hb,hinput,houtput,hfirst,hfirst'⟩

end Splitting
end NodeRustPty
