import NodeRustPty.Multiplexer

/-! The output streams of the sessions. `dispatch_output` takes a snapshot of all
entries and appends to their buffers one by one, in any order and between the
other calls; a session that stays live loses nothing and gets nothing twice. -/
namespace NodeRustPty

open Std

/-- A call of `dispatch_output`: its data and the buffers it has not locked yet. -/
structure Dispatch where
  data : Bytes
  pending : List ℕ

/-- What was done to the output buffers, as far as their contents changed hands. -/
inductive Transfer
  | taken (sessionId : UInt32) (data : Bytes)
  | appended (call buffer : ℕ) (data : Bytes)

structure Streams where
  sessions : Sessions
  calls : List Dispatch
  history : List Transfer

inductive StreamEvent
  | create
  | remove (sessionId : UInt32)
  | send (sessionId : UInt32) (data : Bytes)
  | broadcast (data : Bytes)
  | read (sessionId : UInt32)
  | readAll
  | dispatch (data : Bytes)
  | append (call buffer : ℕ)

namespace Streams

def start : Streams := ⟨.empty,[],[]⟩

section Steps

variable (order : HashOrder UInt32 PtySession)

/-- One step. Only an append can be impossible: its future must be there and not be done. -/
def step (s : Streams) : StreamEvent → Option Streams
  | .create => some { s with sessions := s.sessions.createSession.2 }
  | .remove sessionId => some { s with sessions := (s.sessions.removeSession sessionId).2 }
  | .send sessionId data => some { s with sessions := (s.sessions.sendToSession sessionId data).2 }
  | .broadcast data => some { s with sessions := s.sessions.broadcast data }
  | .read sessionId =>
    match s.sessions.readFromSession sessionId with
    | (.ok data,m) => some { s with sessions := m, history := s.history ++ [.taken sessionId data] }
    | (.error _,m) => some { s with sessions := m }
  | .readAll => some s
  | .dispatch data => some { s with calls := s.calls ++ [⟨data,s.sessions.snapshot order⟩] }
  | .append call buffer =>
    match s.calls[call]? with
    | none => none
    | some d =>
      if buffer ∈ d.pending then
        some ⟨s.sessions.setBuffer buffer (s.sessions.buffers buffer ++ d.data),
          s.calls.set call { d with pending := d.pending.erase buffer },
          s.history ++ [.appended call buffer d.data]⟩
      else none

def run (s : Streams) : List StreamEvent → Option Streams
  | [] => some s
  | event::events => (step order s event).bind fun s' => run s' events

end Steps

/-- The buffer of a live session. -/
def bufferOf (s : Streams) (id : UInt32) : Option ℕ := s.sessions.map[id]?.map PtySession.outputBuffer

/-- Everything that `read_from_session(id)` returned. -/
def returned (id : UInt32) (history : List Transfer) : Bytes :=
  history.flatMap fun transfer => match transfer with
    | .taken sessionId data => if sessionId = id then data else []
    | .appended _ _ _ => []

/-- All chunks appended to a buffer. -/
def received (buffer : ℕ) (history : List Transfer) : Bytes :=
  history.flatMap fun transfer => match transfer with
    | .taken _ _ => []
    | .appended _ target data => if target = buffer then data else []

/-- The chunks that one call of `dispatch_output` appended to a buffer. -/
def appendedBy (call buffer : ℕ) (history : List Transfer) : List Bytes :=
  history.flatMap fun transfer => match transfer with
    | .taken _ _ => []
    | .appended caller target data => if caller = call ∧ target = buffer then [data] else []

theorem returned_append (id : UInt32) (past more : List Transfer) :
    returned id (past ++ more) = returned id past ++ returned id more := List.flatMap_append

theorem received_append (buffer : ℕ) (past more : List Transfer) :
    received buffer (past ++ more) = received buffer past ++ received buffer more := List.flatMap_append

theorem appendedBy_append (call buffer : ℕ) (past more : List Transfer) :
    appendedBy call buffer (past ++ more) = appendedBy call buffer past ++ appendedBy call buffer more :=
  List.flatMap_append

/-- What holds of a session with this buffer after the transfers `since` it was created, where
the calls of `dispatch_output` from number `first` on have started with it in the map. -/
structure Conserved (id : UInt32) (buffer first : ℕ) (since : List Transfer) (s : Streams) : Prop where
  kept : returned id since ++ s.sessions.buffers buffer = received buffer since
  once : ∀ call d, first ≤ call → s.calls[call]? = some d →
    appendedBy call buffer since ++ List.replicate (d.pending.count buffer) d.data = [d.data]
  later : ∀ call, s.calls.length ≤ call → appendedBy call buffer since = []

section Run

variable {order : HashOrder UInt32 PtySession} {s s' : Streams} {id : UInt32} {buffer first : ℕ}
  {since : List Transfer}

theorem bufferOf_eq_some : s.bufferOf id = some buffer ↔
    ∃ session, s.sessions.map[id]? = some session ∧ session.outputBuffer = buffer := by
  simp [bufferOf]

/-- A snapshot has one future for every live session. -/
theorem count_snapshot (h : s.bufferOf id = some buffer) :
    (s.sessions.snapshot order).count buffer = 1 := by
  obtain ⟨session,hs,rfl⟩ := bufferOf_eq_some.mp h
  exact List.count_eq_one_of_mem (s.sessions.snapshot_nodup order)
    (s.sessions.mem_snapshot order hs)

theorem Conserved.read (h : Conserved id buffer first since s) (hs : s.bufferOf id = some buffer)
    {sessionId : UInt32} {session : PtySession} (hx : s.sessions.map[sessionId]? = some session) :
    Conserved id buffer first
      (since ++ [.taken sessionId (s.sessions.buffers session.outputBuffer)])
      { s with
        sessions := s.sessions.setBuffer session.outputBuffer []
        history := s.history ++ [.taken sessionId (s.sessions.buffers session.outputBuffer)] } where
  kept := by
    obtain ⟨own,ho,rfl⟩ := bufferOf_eq_some.mp hs
    by_cases hid : sessionId = id
    · subst hid
      obtain rfl : own = session := Option.some.inj (ho.symm.trans hx)
      simpa [returned,received,Sessions.setBuffer] using h.kept
    · have hb : own.outputBuffer ≠ session.outputBuffer := fun e =>
        hid (s.sessions.unshared ho hx e).symm
      simpa [returned,received,Sessions.setBuffer,hid,hb] using h.kept
  once call d hcall hd := by simpa [appendedBy] using h.once call d hcall hd
  later call hcall := by simpa [appendedBy] using h.later call hcall

theorem Conserved.dispatch (h : Conserved id buffer first since s) (hs : s.bufferOf id = some buffer)
    (data : Bytes) : Conserved id buffer first since
      { s with calls := s.calls ++ [⟨data,s.sessions.snapshot order⟩] } where
  kept := h.kept
  once call d hcall hd := by
    by_cases hlt : call < s.calls.length
    · rw [List.getElem?_append_left hlt] at hd
      exact h.once call d hcall hd
    · rw [List.getElem?_append_right (by omega)] at hd
      have hz : call-s.calls.length = 0 := by
        by_contra hne
        rw [List.getElem?_eq_none (by simp; omega)] at hd
        simp at hd
      rw [hz] at hd
      obtain rfl : ⟨data,s.sessions.snapshot order⟩ = d := by simpa using hd
      simp [h.later call (by omega),count_snapshot hs]
  later call hcall := h.later call (by simp at hcall; omega)

theorem Conserved.append (h : Conserved id buffer first since s) {call target : ℕ} {d : Dispatch}
    (hd : s.calls[call]? = some d) (hp : target ∈ d.pending) :
    Conserved id buffer first (since ++ [.appended call target d.data])
      ⟨s.sessions.setBuffer target (s.sessions.buffers target ++ d.data),
        s.calls.set call { d with pending := d.pending.erase target },
        s.history ++ [.appended call target d.data]⟩ where
  kept := by
    rw [returned_append,received_append,← h.kept]
    by_cases hb : target = buffer
    · subst hb
      simp [returned,received,Sessions.setBuffer]
    · have hb' : buffer ≠ target := fun e => hb e.symm
      simp [returned,received,Sessions.setBuffer,hb,hb']
  once other e hother he := by
    rw [appendedBy_append]
    by_cases ho : other = call
    · subst ho
      have hlt : other < s.calls.length := (List.getElem?_eq_some_iff.mp hd).1
      rw [List.getElem?_set_self hlt,Option.some.injEq] at he
      subst he
      have hold := h.once other d hother hd
      by_cases hb : target = buffer
      · subst hb
        -- the future was pending, so nothing was appended before and it was the only one
        have hcount : 0 < d.pending.count target := List.count_pos_iff.mpr hp
        have hlen := congrArg List.length hold
        simp only [List.length_append,List.length_replicate,List.length_singleton] at hlen
        have hnone : appendedBy other target since = [] := List.eq_nil_of_length_eq_zero (by omega)
        have hone : d.pending.count target = 1 := by omega
        rw [hnone,List.count_erase_self,hone]
        simp [appendedBy]
      · simpa [appendedBy,hb,List.count_erase_of_ne (Ne.symm hb)] using hold
    · rw [List.getElem?_set_ne (Ne.symm ho)] at he
      simpa [appendedBy,Ne.symm ho] using h.once other e hother he
  later other hother := by
    rw [List.length_set] at hother
    have hlt : call < s.calls.length := (List.getElem?_eq_some_iff.mp hd).1
    have hne : call ≠ other := by omega
    rw [appendedBy_append,h.later other hother]
    simp [appendedBy,hne]

end Run

end Streams
end NodeRustPty
