import NodeRustPty.HashOrder

/-! The session table of `pty/multiplexer.rs`. An output buffer sits behind an
`Arc`, so it is an address in a heap that every clone of the session shares. -/
namespace NodeRustPty

open Std

abbrev Bytes := List UInt8

structure PtySession where
  streamId : UInt32
  inputBuffer : Bytes
  outputBuffer : ℕ
  deriving DecidableEq

/-- The map entry and the buffer that a session has for good. -/
def PtySession.identity (session : PtySession) : UInt32 × ℕ := (session.streamId,session.outputBuffer)

abbrev SessionMap := ExtTreeMap UInt32 PtySession

/-- `sessions` of `PtyMultiplexer` with the heap of output buffers. Entries are filed under
their own id, and no two of them share a buffer. -/
structure Sessions where
  map : SessionMap
  buffers : ℕ → Bytes
  next : ℕ
  key_eq : ∀ {id : UInt32} {session : PtySession}, map[id]? = some session → session.streamId = id
  allocated : ∀ {id : UInt32} {session : PtySession}, map[id]? = some session → session.outputBuffer < next
  unshared : ∀ {id id' : UInt32} {session session' : PtySession}, map[id]? = some session →
    map[id']? = some session' → session.outputBuffer = session'.outputBuffer → id = id'

namespace Sessions

/-- What a caller can see of a session: its input and output. -/
def session? (m : Sessions) (id : UInt32) : Option (Bytes × Bytes) :=
  m.map[id]?.map fun session => (session.inputBuffer,m.buffers session.outputBuffer)

/-! ### Changes of the table that keep it well formed -/

def empty : Sessions where
  map := ∅
  buffers _ := []
  next := 0
  key_eq h := by simp at h
  allocated h := by simp at h
  unshared h := by simp at h

/-- Files a session under `id` with a new output buffer. -/
def insertNew (m : Sessions) (id : UInt32) (input output : Bytes) : Sessions where
  map := m.map.insert id ⟨id,input,m.next⟩
  buffers := Function.update m.buffers m.next output
  next := m.next+1
  key_eq {x session} h := by
    rw [getElem?_insert_if] at h
    split at h
    · cases h
      exact Eq.symm ‹_›
    · exact m.key_eq h
  allocated {x session} h := by
    rw [getElem?_insert_if] at h
    split at h
    · cases h
      exact Nat.lt_succ_self _
    · exact Nat.lt_succ_of_lt (m.allocated h)
  unshared {x y session session'} h h' e := by
    rw [getElem?_insert_if] at h h'
    split at h <;> split at h'
    · exact ‹x = id›.trans ‹y = id›.symm
    · cases h
      exact absurd e (m.allocated h').ne'
    · cases h'
      exact absurd e (m.allocated h).ne
    · exact m.unshared h h' e

/-- Any change of the map that keeps the identities of the entries that stay. -/
def withMap (m : Sessions) (map : SessionMap) (h : ∀ {id : UInt32} {session : PtySession}, map[id]? = some session →
    ∃ old : PtySession, m.map[id]? = some old ∧ session.identity = old.identity) : Sessions where
  map := map
  buffers := m.buffers
  next := m.next
  key_eq hx := by
    obtain ⟨old,ho,he⟩ := h hx
    exact (congrArg Prod.fst he).trans (m.key_eq ho)
  allocated hx := by
    obtain ⟨old,ho,he⟩ := h hx
    exact (congrArg Prod.snd he).trans_lt (m.allocated ho)
  unshared hx hy e := by
    obtain ⟨old,ho,he⟩ := h hx
    obtain ⟨old',ho',he'⟩ := h hy
    exact m.unshared ho ho' ((congrArg Prod.snd he).symm.trans (e.trans (congrArg Prod.snd he')))

def erase (m : Sessions) (id : UInt32) : Sessions :=
  m.withMap (m.map.erase id) fun {x session} h => by
    rw [getElem?_erase_if] at h
    split at h
    · simp at h
    · exact ⟨session,h,rfl⟩

def modifyInput (m : Sessions) (id : UInt32) (f : Bytes → Bytes) : Sessions :=
  m.withMap (m.map.modify id fun session => { session with inputBuffer := f session.inputBuffer })
    fun {x session} h => by
      rw [getElem?_modify_if] at h
      split at h
      · obtain ⟨old,ho,rfl⟩ := Option.map_eq_some_iff.mp h
        exact ⟨old,ho,rfl⟩
      · exact ⟨session,h,rfl⟩

def modifyInputs (m : Sessions) (f : Bytes → Bytes) : Sessions :=
  m.withMap (m.map.map fun _ session => { session with inputBuffer := f session.inputBuffer })
    fun {x session} h => by
      rw [ExtTreeMap.getElem?_map] at h
      obtain ⟨old,ho,rfl⟩ := Option.map_eq_some_iff.mp h
      exact ⟨old,ho,rfl⟩

def clear (m : Sessions) : Sessions := m.withMap ∅ fun h => by simp at h

def setBuffer (m : Sessions) (buffer : ℕ) (data : Bytes) : Sessions :=
  { m with buffers := Function.update m.buffers buffer data }

@[simp] theorem map_empty : empty.map = ∅ := rfl
@[simp] theorem map_insertNew (m : Sessions) (id : UInt32) (input output : Bytes) :
    (m.insertNew id input output).map = m.map.insert id ⟨id,input,m.next⟩ := rfl
@[simp] theorem map_erase (m : Sessions) (id : UInt32) : (m.erase id).map = m.map.erase id := rfl
@[simp] theorem map_clear (m : Sessions) : m.clear.map = ∅ := rfl
@[simp] theorem map_setBuffer (m : Sessions) (buffer : ℕ) (data : Bytes) :
    (m.setBuffer buffer data).map = m.map := rfl

/-! ### What the changes do to every session -/

variable (m : Sessions) (id x : UInt32)

@[simp] theorem session?_empty : empty.session? x = none := by simp [session?]

theorem session?_insertNew (input output : Bytes) :
    (m.insertNew id input output).session? x = if x = id then some (input,output) else m.session? x := by
  unfold session?
  rw [map_insertNew,getElem?_insert_if]
  split
  · simp [insertNew]
  · cases h : m.map[x]? with
    | none => rfl
    | some session => simp [insertNew,(m.allocated h).ne]

theorem session?_erase : (m.erase id).session? x = if x = id then none else m.session? x := by
  unfold session?
  rw [map_erase,getElem?_erase_if]
  split <;> rfl

theorem session?_modifyInput (f : Bytes → Bytes) :
    (m.modifyInput id f).session? x =
      if x = id then (m.session? x).map fun data => (f data.1,data.2) else m.session? x := by
  unfold session? modifyInput withMap
  rw [getElem?_modify_if]
  split
  · simp only [Option.map_map]
    rfl
  · rfl

theorem session?_modifyInputs (f : Bytes → Bytes) :
    (m.modifyInputs f).session? x = (m.session? x).map fun data => (f data.1,data.2) := by
  unfold session? modifyInputs withMap
  rw [ExtTreeMap.getElem?_map,Option.map_map,Option.map_map]
  rfl

@[simp] theorem session?_clear : m.clear.session? x = none := by simp [session?]

theorem session?_setBuffer {session : PtySession} (h : m.map[id]? = some session) (data : Bytes) :
    (m.setBuffer session.outputBuffer data).session? x =
      if x = id then some (session.inputBuffer,data) else m.session? x := by
  unfold session?
  rw [map_setBuffer]
  split
  · next e => simp [e,h,setBuffer]
  · next hne =>
    cases hx : m.map[x]? with
    | none => rfl
    | some session' =>
      have hb : session'.outputBuffer ≠ session.outputBuffer := fun e => hne (m.unshared hx h e)
      simp [setBuffer,hb]

theorem session?_isSome : (m.session? x).isSome ↔ x ∈ m.map := by
  rw [session?,Option.isSome_map,ExtTreeMap.mem_iff_isSome_getElem?]

theorem session?_eq_none {m : Sessions} {x : UInt32} : m.session? x = none ↔ x ∉ m.map := by
  rw [← session?_isSome,Option.not_isSome_iff_eq_none]

theorem mem_of_session? {m : Sessions} {x : UInt32} {buffers : Bytes × Bytes} (h : m.session? x = some buffers) :
    x ∈ m.map := by
  rw [← session?_isSome,h]
  rfl

/-! ### The methods of the multiplexer -/

/-- What a method returns, with the table it leaves. -/
abbrev Outcome (α : Type) := Except String α × Sessions

def notFound (sessionId : UInt32) : String := s!"Session ID {sessionId} not found"

def createSession : Outcome UInt32 :=
  let streamId := match m.map.keys.max? with
    | some maxId => maxId+1
    | none => 1
  (.ok streamId,m.insertNew streamId [] [])

/-- `send_to_session` up to its write to the process. -/
def sendToSession (sessionId : UInt32) (data : Bytes) : Outcome Unit :=
  if sessionId ∈ m.map then (.ok (),m.modifyInput sessionId (· ++ data))
  else (.error (notFound sessionId),m)

/-- `broadcast` up to its write to the process. -/
def broadcast (data : Bytes) : Sessions := m.modifyInputs (· ++ data)

def readFromSession (sessionId : UInt32) : Outcome Bytes :=
  match m.map[sessionId]? with
  | some session => (.ok (m.buffers session.outputBuffer),m.setBuffer session.outputBuffer [])
  | none => (.error (notFound sessionId),m)

def readAllSessions (order : HashOrder UInt32 PtySession) : List (UInt32 × Bytes) :=
  (order.entries m.map).map fun entry => (entry.1,m.buffers entry.2.outputBuffer)

def removeSession (sessionId : UInt32) : Outcome Unit :=
  if sessionId ∈ m.map then (.ok (),m.erase sessionId) else (.error (notFound sessionId),m)

def splitSession (sessionId : UInt32) : Outcome (UInt32 × UInt32) :=
  match m.map[sessionId]? with
  | none => (.error (notFound sessionId),m)
  | some session =>
    let input := session.inputBuffer
    let output := m.buffers session.outputBuffer
    let inputHalfSize := input.length/2
    let outputHalfSize := output.length/2
    let newSession1Id := (m.map.keys.max?.getD 0)+1
    let newSession2Id := newSession1Id+1
    let m := m.insertNew newSession1Id (input.take inputHalfSize) (output.take outputHalfSize)
    let m := m.insertNew newSession2Id (input.drop inputHalfSize) (output.drop outputHalfSize)
    (.ok (newSession1Id,newSession2Id),m.erase sessionId)

def closeAllSessions : Sessions := m.clear

def listSessions (order : HashOrder UInt32 PtySession) : List UInt32 :=
  (order.entries m.map).map Prod.fst

/-- The buffers that a `dispatch_output` starting now will append to, one for each entry. -/
def snapshot (order : HashOrder UInt32 PtySession) : List ℕ :=
  (order.entries m.map).map fun entry => entry.2.outputBuffer

theorem mem_snapshot (order : HashOrder UInt32 PtySession) {id : UInt32} {session : PtySession}
    (h : m.map[id]? = some session) : session.outputBuffer ∈ m.snapshot order :=
  List.mem_map.mpr ⟨(id,session),(order.mem_entries _ _ _).mpr h,rfl⟩

theorem snapshot_nodup (order : HashOrder UInt32 PtySession) : (m.snapshot order).Nodup := by
  have hnodup : (order.entries m.map).Nodup := by
    refine (order.entries_distinct m.map).imp ?_
    rintro a b hne rfl
    exact hne ReflCmp.compare_self
  refine hnodup.map_on ?_
  rintro ⟨k,a⟩ ha ⟨l,b⟩ hb e
  have ha' := (order.mem_entries _ k a).mp ha
  have hb' := (order.mem_entries _ l b).mp hb
  obtain rfl := m.unshared ha' hb' e
  rw [ha',Option.some.injEq] at hb'
  rw [hb']

end Sessions
end NodeRustPty
