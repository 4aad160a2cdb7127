import NodeRustPty.SessionRuns

/-! What one session can learn from another. All sessions share one process: what is sent
to one is written to its PTY, and what the PTY answers is dispatched to all. -/
namespace NodeRustPty

open Std

namespace Sessions

/-! ### Tables that differ in their inputs only -/

structure SameOutputs (m m' : Sessions) : Prop where
  entries : ∀ id : UInt32, m.map[id]?.map PtySession.identity = m'.map[id]?.map PtySession.identity
  buffers : m.buffers = m'.buffers
  next : m.next = m'.next

theorem sameOutputs_refl (m : Sessions) : m.SameOutputs m := ⟨fun _ => rfl,rfl,rfl⟩

theorem appendAll_next (data : Bytes) (buffers : List ℕ) (m : Sessions) :
    (m.appendAll data buffers).next = m.next := by
  induction buffers generalizing m with
  | nil => rfl
  | cons buffer buffers ih => exact ih _

theorem mem_snapshot_iff {m : Sessions} {order : HashOrder UInt32 PtySession} {buffer : ℕ} :
    buffer ∈ m.snapshot order ↔
      ∃ (id : UInt32) (session : PtySession), m.map[id]? = some session ∧ session.outputBuffer = buffer := by
  simp only [snapshot,List.mem_map,Prod.exists,order.mem_entries]

namespace SameOutputs

variable {m m' : Sessions} {id : UInt32}

theorem lookup (h : m.SameOutputs m') (id : UInt32) : m.map[id]? = none ∧ m'.map[id]? = none ∨
    ∃ session session' : PtySession, m.map[id]? = some session ∧ m'.map[id]? = some session' ∧
      session.outputBuffer = session'.outputBuffer := by
  have he := h.entries id
  cases hm : m.map[id]? with
  | none =>
    rw [hm,Option.map_none,eq_comm,Option.map_eq_none_iff] at he
    exact .inl ⟨rfl,he⟩
  | some session =>
    rw [hm,Option.map_some,eq_comm,Option.map_eq_some_iff] at he
    obtain ⟨session',hs,hidentity⟩ := he
    exact .inr ⟨session,session',rfl,hs,(congrArg Prod.snd hidentity).symm⟩

theorem mem_iff (h : m.SameOutputs m') (id : UInt32) : id ∈ m.map ↔ id ∈ m'.map := by
  rw [ExtTreeMap.mem_iff_isSome_getElem?,ExtTreeMap.mem_iff_isSome_getElem?]
  rcases h.lookup id with ⟨hm,hm'⟩ | ⟨session,session',hm,hm',-⟩ <;> simp [hm,hm']

theorem keys_eq (h : m.SameOutputs m') : m.map.keys = m'.map.keys := by
  have hmap : m.map.map (fun _ => PtySession.identity) = m'.map.map fun _ => PtySession.identity := by
    apply ExtTreeMap.ext_getElem?
    intro id
    rw [ExtTreeMap.getElem?_map,ExtTreeMap.getElem?_map]
    exact h.entries id
  have hkeys := congrArg ExtTreeMap.keys hmap
  rwa [ExtTreeMap.keys_map,ExtTreeMap.keys_map] at hkeys

/-! ### Changes of both tables -/

theorem insertNew (h : m.SameOutputs m') (id : UInt32) (input input' output : Bytes) :
    (m.insertNew id input output).SameOutputs (m'.insertNew id input' output) := by
  refine ⟨fun x => ?_,?_,?_⟩
  · rw [map_insertNew,map_insertNew,getElem?_insert_if,getElem?_insert_if,h.next]
    split
    · rfl
    · exact h.entries x
  · show Function.update m.buffers m.next output = Function.update m'.buffers m'.next output
    rw [h.buffers,h.next]
  · show m.next+1 = m'.next+1
    rw [h.next]

theorem erase (h : m.SameOutputs m') (id : UInt32) : (m.erase id).SameOutputs (m'.erase id) := by
  refine ⟨fun x => ?_,h.buffers,h.next⟩
  rw [map_erase,map_erase,getElem?_erase_if,getElem?_erase_if]
  split
  · rfl
  · exact h.entries x

theorem modifyInput (h : m.SameOutputs m') (id : UInt32) (f f' : Bytes → Bytes) :
    (m.modifyInput id f).SameOutputs (m'.modifyInput id f') := by
  refine ⟨fun x => ?_,h.buffers,h.next⟩
  have hx := getElem?_modify_if m.map id x fun session => { session with inputBuffer := f session.inputBuffer }
  have hx' := getElem?_modify_if m'.map id x fun session => { session with inputBuffer := f' session.inputBuffer }
  refine (congrArg _ hx).trans (Eq.trans ?_ (congrArg _ hx').symm)
  split
  · rw [Option.map_map,Option.map_map]
    exact h.entries x
  · exact h.entries x

theorem modifyInputs (h : m.SameOutputs m') (f f' : Bytes → Bytes) :
    (m.modifyInputs f).SameOutputs (m'.modifyInputs f') := by
  refine ⟨fun x => ?_,h.buffers,h.next⟩
  unfold Sessions.modifyInputs withMap
  rw [ExtTreeMap.getElem?_map,ExtTreeMap.getElem?_map,Option.map_map,Option.map_map]
  exact h.entries x

theorem clear (h : m.SameOutputs m') : m.clear.SameOutputs m'.clear := ⟨fun _ => rfl,h.buffers,h.next⟩

theorem setBuffer (h : m.SameOutputs m') (buffer : ℕ) (data : Bytes) :
    (m.setBuffer buffer data).SameOutputs (m'.setBuffer buffer data) := by
  refine ⟨h.entries,?_,h.next⟩
  show Function.update m.buffers buffer data = Function.update m'.buffers buffer data
  rw [h.buffers]

/-! ### The methods -/

theorem createSession (h : m.SameOutputs m') : m.createSession.2.SameOutputs m'.createSession.2 := by
  simp only [Sessions.createSession,h.keys_eq]
  exact h.insertNew _ [] [] []

theorem sendToSession (h : m.SameOutputs m') (id : UInt32) (data data' : Bytes) :
    (m.sendToSession id data).2.SameOutputs (m'.sendToSession id data').2 := by
  unfold Sessions.sendToSession
  by_cases hid : id ∈ m.map
  · rw [if_pos hid,if_pos ((h.mem_iff id).mp hid)]
    exact h.modifyInput id (· ++ data) (· ++ data')
  · rw [if_neg hid,if_neg ((h.mem_iff id).not.mp hid)]
    exact h

theorem removeSession (h : m.SameOutputs m') (id : UInt32) :
    (m.removeSession id).2.SameOutputs (m'.removeSession id).2 := by
  unfold Sessions.removeSession
  by_cases hid : id ∈ m.map
  · rw [if_pos hid,if_pos ((h.mem_iff id).mp hid)]
    exact h.erase id
  · rw [if_neg hid,if_neg ((h.mem_iff id).not.mp hid)]
    exact h

theorem readFromSession (h : m.SameOutputs m') (id : UInt32) :
    (m.readFromSession id).1 = (m'.readFromSession id).1 ∧
      (m.readFromSession id).2.SameOutputs (m'.readFromSession id).2 := by
  unfold Sessions.readFromSession
  rcases h.lookup id with ⟨hm,hm'⟩ | ⟨session,session',hm,hm',hbuffer⟩
  · rw [hm,hm']
    exact ⟨rfl,h⟩
  · rw [hm,hm']
    refine ⟨by simp only [hbuffer,h.buffers],?_⟩
    simp only [hbuffer]
    exact h.setBuffer _ _

theorem splitSession (h : m.SameOutputs m') (id : UInt32) :
    (m.splitSession id).2.SameOutputs (m'.splitSession id).2 := by
  unfold Sessions.splitSession
  rcases h.lookup id with ⟨hm,hm'⟩ | ⟨session,session',hm,hm',hbuffer⟩
  · rw [hm,hm']
    exact h
  · rw [hm,hm']
    simp only [hbuffer,h.buffers,h.keys_eq]
    exact ((h.insertNew _ _ _ _).insertNew _ _ _ _).erase id

/-- Taking sessions out of both tables takes the same buffers. -/
theorem takeSessions (h : m.SameOutputs m') (ids : List UInt32) :
    List.Forall₂ (fun entry entry' : UInt32 × PtySession => entry.2.outputBuffer = entry'.2.outputBuffer)
        (m.takeSessions ids).1 (m'.takeSessions ids).1 ∧
      (m.takeSessions ids).2.SameOutputs (m'.takeSessions ids).2 := by
  induction ids generalizing m m' with
  | nil => exact ⟨.nil,h⟩
  | cons id ids ih =>
    unfold Sessions.takeSessions
    rcases h.lookup id with ⟨hm,hm'⟩ | ⟨session,session',hm,hm',hbuffer⟩
    · rw [hm,hm']
      exact ih h
    · rw [hm,hm']
      obtain ⟨hentries,hrest⟩ := ih (h.erase id)
      exact ⟨.cons hbuffer hentries,hrest⟩

theorem mergeInto {primary primary' : PtySession} (hprimary : primary.outputBuffer = primary'.outputBuffer)
    {entries entries' : List (UInt32 × PtySession)}
    (hentries : List.Forall₂ (fun entry entry' => entry.2.outputBuffer = entry'.2.outputBuffer) entries entries')
    {s s' : Locked} (h : s.sessions.SameOutputs s'.sessions) :
    (entries.foldl (Sessions.mergeInto primary) s).sessions.SameOutputs
      (entries'.foldl (Sessions.mergeInto primary') s').sessions := by
  induction hentries generalizing s s' with
  | nil => exact h
  | @cons entry entry' rest rest' hbuffer _ ih =>
    refine ih ?_
    show (s.sessions.setBuffer primary.outputBuffer _).SameOutputs (s'.sessions.setBuffer primary'.outputBuffer _)
    simp only [Locked.acquire,hprimary,hbuffer,h.buffers]
    exact h.setBuffer _ _

theorem writeBack {primary primary' : PtySession} (hprimary : primary.outputBuffer = primary'.outputBuffer)
    (id : UInt32) {s s' : Locked} (h : s.sessions.SameOutputs s'.sessions) :
    (Sessions.writeBack id primary s).sessions.SameOutputs (Sessions.writeBack id primary' s').sessions := by
  unfold Sessions.writeBack
  rcases h.lookup id with ⟨hm,hm'⟩ | ⟨updated,updated',hm,hm',hbuffer⟩
  · rw [hm,hm']
    exact h
  · rw [hm,hm']
    have hinput := h.modifyInput id (fun _ => primary.inputBuffer) fun _ => primary'.inputBuffer
    show ((s.sessions.modifyInput id _).setBuffer updated.outputBuffer _).SameOutputs
      ((s'.sessions.modifyInput id _).setBuffer updated'.outputBuffer _)
    simp only [Locked.acquire,Locked.update,hprimary,hbuffer,hinput.buffers]
    exact hinput.setBuffer _ _

theorem mergeSessions (h : m.SameOutputs m') (ids : List UInt32) :
    (m.mergeSessions ids).2.sessions.SameOutputs (m'.mergeSessions ids).2.sessions := by
  cases ids with
  | nil => exact h
  | cons id rest =>
    unfold Sessions.mergeSessions
    rcases h.lookup id with ⟨hm,hm'⟩ | ⟨primary,primary',hm,hm',hbuffer⟩
    · simp only [hm,hm']
      exact h
    · simp only [hm,hm']
      obtain ⟨hentries,hrest⟩ := h.takeSessions rest
      exact writeBack hbuffer id (mergeInto hbuffer hentries hrest)

theorem snapshot_iff (h : m.SameOutputs m') (order order' : HashOrder UInt32 PtySession) (buffer : ℕ) :
    buffer ∈ m.snapshot order ↔ buffer ∈ m'.snapshot order' := by
  rw [mem_snapshot_iff,mem_snapshot_iff]
  refine exists_congr fun id => ?_
  rcases h.lookup id with ⟨hm,hm'⟩ | ⟨session,session',hm,hm',hbuffer⟩
  · simp [hm,hm']
  · simp [hm,hm',hbuffer]

/-- The same data is dispatched to the same buffers. -/
theorem dispatchOutput (h : m.SameOutputs m') (order order' : HashOrder UInt32 PtySession) (data : Bytes) :
    (m.dispatchOutput order data).SameOutputs (m'.dispatchOutput order' data) := by
  have hmap (order : HashOrder UInt32 PtySession) (m : Sessions) : (m.dispatchOutput order data).map = m.map :=
    appendAll_map data _ m
  refine ⟨fun id => ?_,?_,?_⟩
  · rw [hmap,hmap]
    exact h.entries id
  · funext buffer
    unfold Sessions.dispatchOutput
    rw [appendAll_buffers data (m.snapshot_nodup order),appendAll_buffers data (m'.snapshot_nodup order')]
    simp only [h.snapshot_iff order order' buffer,h.buffers]
  · exact (appendAll_next data _ m).trans (h.next.trans (appendAll_next data _ m').symm)

/-- A method of the table, where one session may be sent something else. -/
theorem outcome (h : m.SameOutputs m') (order : HashOrder UInt32 PtySession) (call : TableCall) :
    (call.outcome order m).2.SameOutputs (call.outcome order m').2 := by
  cases call with
  | createSession => exact h.createSession
  | removeSession sessionId => exact h.removeSession sessionId
  | sendToSession sessionId data => exact h.sendToSession sessionId data data
  | broadcast data => exact h.modifyInputs (· ++ data) (· ++ data)
  | readFromSession sessionId => exact (h.readFromSession sessionId).2
  | mergeSessions sessionIds => exact h.mergeSessions sessionIds
  | splitSession sessionId => exact h.splitSession sessionId
  | closeAllSessions => exact h.clear
  | readAllSessions => exact h
  | listSessions => exact h

end SameOutputs
end Sessions

/-! ### The multiplexer and its process -/

/-- The multiplexer on a PTY: what has been written to it, and how many bytes of its
output have been read. -/
structure Multiplexed where
  sessions : Sessions
  written : Bytes
  taken : ℕ

/-- The methods that touch the sessions or the PTY. -/
inductive MultiplexerOp
  | call (order : HashOrder UInt32 PtySession) (tableCall : TableCall)
  | setEnv (key value : String)
  | changeShell (shellPath : String)
  | shutdownPty
  | forceShutdownPty
  | dispatchOutput (order : HashOrder UInt32 PtySession) (data : Bytes)
  | readAndDispatch (order : HashOrder UInt32 PtySession)
  | readFromPty

namespace Multiplexed

def start : Multiplexed := ⟨.empty,[],0⟩

/-- What a successful call of the table writes to the process. -/
def written? : (call : TableCall) → Except String call.Value → Bytes
  | .sendToSession _ data, .ok _ => data
  | .broadcast data, .ok _ => data
  | _, _ => []

/-- `read_data` into a buffer of 4096 bytes. -/
def readData (output : Bytes → Bytes) (s : Multiplexed) : Bytes :=
  ((output s.written).drop s.taken).take 4096

/-- `output` is what the PTY has put out after these bytes. The process takes every write
whole, and a signal does not stop it: `kill_process` of the trait does nothing. -/
def apply (output : Bytes → Bytes) (s : Multiplexed) : MultiplexerOp → Multiplexed
  | .call order tableCall =>
    let (result,sessions) := tableCall.outcome order s.sessions
    { s with sessions := sessions, written := s.written ++ written? tableCall result }
  | .setEnv key value =>
    { s with written := s.written ++ ("export " ++ key ++ "=\"" ++ value ++ "\"\n").toUTF8.toList }
  | .changeShell shellPath => { s with written := s.written ++ ("exec " ++ shellPath ++ "\n").toUTF8.toList }
  | .shutdownPty => { s with sessions := s.sessions.closeAllSessions }
  | .forceShutdownPty => { s with sessions := s.sessions.closeAllSessions }
  | .dispatchOutput order data => { s with sessions := s.sessions.dispatchOutput order data }
  | .readAndDispatch order =>
    let data := s.readData output
    if data = [] then s
    else { s with sessions := s.sessions.dispatchOutput order data, taken := s.taken+data.length }
  | .readFromPty => { s with taken := s.taken+(s.readData output).length }

def run (output : Bytes → Bytes) (ops : List MultiplexerOp) : Multiplexed := ops.foldl (apply output) start

end Multiplexed

/-- The same operation, but for the data that is sent to this session. -/
inductive MultiplexerOp.SameBut (a : UInt32) : MultiplexerOp → MultiplexerOp → Prop
  | same (op : MultiplexerOp) : SameBut a op op
  | sent (order : HashOrder UInt32 PtySession) (data data' : Bytes) :
    SameBut a (.call order (.sendToSession a data)) (.call order (.sendToSession a data'))

namespace Multiplexed

/-! ### A process that does not answer -/

/-- What two runs have in common when the output does not depend on what is written. -/
structure Alike (s s' : Multiplexed) : Prop where
  sessions : s.sessions.SameOutputs s'.sessions
  taken : s.taken = s'.taken

variable {output : Bytes → Bytes} {s s' : Multiplexed} {a : UInt32}

theorem apply_alike (hoblivious : ∀ w w', output w = output w') (h : Alike s s') {op op' : MultiplexerOp}
    (hop : op.SameBut a op') : Alike (apply output s op) (apply output s' op') := by
  have hread : s.readData output = s'.readData output := by
    rw [readData,readData,hoblivious s.written s'.written,h.taken]
  cases hop with
  | sent order data data' => exact ⟨h.sessions.sendToSession a data data',h.taken⟩
  | same =>
    cases op with
    | call order tableCall => exact ⟨h.sessions.outcome order tableCall,h.taken⟩
    | setEnv key value => exact ⟨h.sessions,h.taken⟩
    | changeShell shellPath => exact ⟨h.sessions,h.taken⟩
    | shutdownPty => exact ⟨h.sessions.clear,h.taken⟩
    | forceShutdownPty => exact ⟨h.sessions.clear,h.taken⟩
    | dispatchOutput order data => exact ⟨h.sessions.dispatchOutput order order data,h.taken⟩
    | readAndDispatch order =>
      simp only [apply,hread,h.taken]
      split
      · exact h
      · exact ⟨h.sessions.dispatchOutput order order _,rfl⟩
    | readFromPty =>
      simp only [apply,hread,h.taken]
      exact ⟨h.sessions,rfl⟩

theorem run_alike (hoblivious : ∀ w w', output w = output w') {ops ops' : List MultiplexerOp}
    (hops : List.Forall₂ (MultiplexerOp.SameBut a) ops ops') : Alike (run output ops) (run output ops') := by
  have hfold {s s' : Multiplexed} (h : Alike s s') : Alike (ops.foldl (apply output) s) (ops'.foldl (apply output) s') := by
    induction hops generalizing s s' with
    | nil => exact h
    | cons hop _ ih => exact ih (apply_alike hoblivious h hop)
  exact hfold ⟨Sessions.sameOutputs_refl _,rfl⟩

/-! ### A process that answers -/

/-- A session has got everything that was read, and at least this many bytes were. -/
structure CaughtUp (output : Bytes → Bytes) (x : UInt32) (least : ℕ) (s : Multiplexed) : Prop where
  received : (s.sessions.session? x).map Prod.snd = some ((output s.written).take s.taken)
  least : min least (output s.written).length ≤ s.taken

/-- A round reads another byte, if there is one. -/
theorem CaughtUp.readAndDispatch {x : UInt32} {least : ℕ} (h : CaughtUp output x least s)
    (order : HashOrder UInt32 PtySession) :
    CaughtUp output x (least+1) (apply output s (.readAndDispatch order)) ∧
      (apply output s (.readAndDispatch order)).written = s.written := by
  have hleast := h.least
  have hlength : (s.readData output).length = min 4096 ((output s.written).length-s.taken) := by simp [readData]
  simp only [apply]
  split
  · next hempty =>
    rw [hempty,List.length_nil] at hlength
    refine ⟨⟨h.received,?_⟩,rfl⟩
    omega
  · refine ⟨⟨?_,?_⟩,rfl⟩
    · have hmore : (s.readData output) = ((output s.written).drop s.taken).take (s.readData output).length := by
        conv_lhs => rw [readData]
        rw [hlength,← List.length_drop,← List.take_eq_take_min]
      obtain ⟨buffers,hbuffers,houtput⟩ := Option.map_eq_some_iff.mp h.received
      rw [Sessions.session?_dispatchOutput,hbuffers,Option.map_some,Option.map_some,houtput,List.take_add,← hmore]
    · show min (least+1) (output s.written).length ≤ s.taken+(s.readData output).length
      omega

theorem CaughtUp.rounds {x : UInt32} (h : CaughtUp output x 0 s) (order : HashOrder UInt32 PtySession) (rounds : ℕ) :
    CaughtUp output x rounds ((List.replicate rounds (.readAndDispatch order)).foldl (apply output) s) ∧
      ((List.replicate rounds (.readAndDispatch order)).foldl (apply output) s).written = s.written := by
  induction rounds with
  | zero => exact ⟨h,rfl⟩
  | succ rounds ih =>
    rw [List.replicate_succ',List.foldl_append]
    obtain ⟨hnext,hwritten⟩ := ih.1.readAndDispatch order
    exact ⟨hnext,hwritten.trans ih.2⟩

/-- Two sessions are created, the first one is sent these bytes, and rounds follow. -/
def askFirst (w : Bytes) (rounds : ℕ) : List MultiplexerOp :=
  [.call .sorted .createSession,.call .sorted .createSession,.call .sorted (.sendToSession 1 w)] ++
    List.replicate rounds (.readAndDispatch .sorted)

theorem askFirst_sameBut (w w' : Bytes) (rounds : ℕ) :
    List.Forall₂ (MultiplexerOp.SameBut 1) (askFirst w rounds) (askFirst w' rounds) := by
  refine List.rel_append (.cons (.same _) (.cons (.same _) (.cons (.sent _ w w') .nil))) ?_
  exact List.forall₂_same.mpr fun op _ => .same op

/-- Then the second one reads what the PTY has answered. -/
theorem askFirst_answer (output : Bytes → Bytes) (w : Bytes) {rounds : ℕ} (h : (output w).length ≤ rounds) :
    ((run output (askFirst w rounds)).sessions.readFromSession 2).1 = .ok (output w) := by
  let sent : Multiplexed := run output
    [.call .sorted .createSession,.call .sorted .createSession,.call .sorted (.sendToSession 1 w)]
  have hlive : (1 : UInt32) ∈ Sessions.empty.createSession.2.createSession.2.map := by decide
  have hsent : sent = ⟨(Sessions.empty.createSession.2.createSession.2.sendToSession 1 w).2,w,0⟩ := by
    have hok : (Sessions.empty.createSession.2.createSession.2.sendToSession 1 w).1 = .ok () :=
      congrArg Prod.fst (if_pos hlive)
    simp [sent,run,start,apply,TableCall.outcome,hok,written?]
  have hsecond : sent.sessions.session? 2 = some ([],[]) := by
    rw [hsent]
    have hother := (Sessions.empty.createSession.2.createSession.2.sendToSession_spec 1 w).2 2 (by decide)
    exact hother.2.trans (by decide)
  have hwritten : sent.written = w := by rw [hsent]
  have hstart : CaughtUp output 2 0 sent := by
    refine ⟨?_,by simp⟩
    rw [hsecond,hsent]
    rfl
  obtain ⟨hcaught,hlast⟩ := hstart.rounds .sorted rounds
  have hrun : run output (askFirst w rounds) =
      (List.replicate rounds (.readAndDispatch .sorted)).foldl (apply output) sent := List.foldl_append
  have hall : (output w).take (run output (askFirst w rounds)).taken = output w := by
    have hleast := hcaught.least
    rw [hlast,hwritten] at hleast
    rw [hrun]
    refine List.take_of_length_le ?_
    omega
  rw [(Sessions.readFromSession_spec _ 2).1,hrun,hcaught.received,hlast,hwritten,← hrun,hall]
  rfl

/-- Whatever is sent to one session, the others read the same, exactly when the PTY puts
out the same whatever is written to it. -/
theorem sessions_isolated_iff (output : Bytes → Bytes) :
    (∀ (a b : UInt32) (ops ops' : List MultiplexerOp), b ≠ a → List.Forall₂ (MultiplexerOp.SameBut a) ops ops' →
      ((run output ops).sessions.readFromSession b).1 = ((run output ops').sessions.readFromSession b).1) ↔
    ∀ w w', output w = output w' := by
  constructor
  · intro h w w'
    let rounds := max (output w).length (output w').length
    have hsame := h 1 2 (askFirst w rounds) (askFirst w' rounds) (by decide) (askFirst_sameBut w w' rounds)
    rw [askFirst_answer output w (le_max_left _ _),askFirst_answer output w' (le_max_right _ _)] at hsame
    exact Except.ok.inj hsame
  · intro h a b ops ops' _ hops
    exact ((run_alike h hops).sessions.readFromSession b).1

/-- The second session reads what the first one was sent. -/
theorem sessions_echo : ¬ ∀ (a b : UInt32) (ops ops' : List MultiplexerOp), b ≠ a →
    List.Forall₂ (MultiplexerOp.SameBut a) ops ops' →
      ((run id ops).sessions.readFromSession b).1 = ((run id ops').sessions.readFromSession b).1 := by
  intro h
  have hsame := h 1 2 (askFirst [120] 1) (askFirst [121] 1) (by decide) (askFirst_sameBut [120] [121] 1)
  rw [askFirst_answer id [120] (by decide),askFirst_answer id [121] (by decide)] at hsame
  exact absurd (Except.ok.inj hsame) (by decide)

end Multiplexed
end NodeRustPty
