import NodeRustPty.CommandLoop
import NodeRustPty.Transitions

/-! Everyone who reads from the PTY. What `read_and_dispatch` takes goes to every session;
`Read`, `ReadAll` and `read_from_pty` take bytes from the same stream for their caller. -/
namespace NodeRustPty

open Transitions

/-! ### What the direct readers call -/

/-- `read_from_pty` of the multiplexer. No bytes are an empty buffer. -/
def PtyMultiplexer.readFromPty (multiplexer : PtyMultiplexer) : SysProg (Except IoError Bytes) := do
  let (result,_) ← PtyProcess.readData 4096 multiplexer.ptyProcess
  pure result

namespace PtyProcess

theorem readData_eq (process : PtyProcess) (length : ℕ) :
    readData length process = .call (.read process.masterFd length) fun (answer : Ret × Bytes) =>
      .pure (if answer.1.value < 0 then .error answer.1.error
        else .ok (answer.2.take answer.1.value.toNat),process) := by
  refine congrArg _ (funext fun (answer : Ret × Bytes) => ?_)
  change (check answer.1 (· < 0) >>= fun _ =>
    (pure (answer.2.take answer.1.value.toNat) : ProcessM Bytes)) process = _
  by_cases h : answer.1.value < 0
  · rw [check_bad (by simpa using h),if_pos h]
    rfl
  · rw [check_good (by simpa using h),if_neg h]
    rfl

end PtyProcess

namespace CommandHandler

/-- A handler that answers with one read. -/
theorem traces_readData {process : PtyProcess} {responder : ℕ} {failure : String → String} {trace : Trace}
    {slot : Slot} (h : (answerProcess (some process) (PtyProcess.readData 4096) responder .data failure).Traces
      trace slot) : ∃ (answer : Ret × Bytes) (result : PtyResult),
    trace = [⟨.sys (.read process.masterFd 4096),answer⟩,⟨.send responder result,()⟩] ∧
      (0 ≤ answer.1.value → result = .data (answer.2.take answer.1.value.toNat)) := by
  rw [answerProcess,PtyProcess.readData_eq] at h
  obtain ⟨read,rest,rfl,hrest⟩ := Prog.traces_call.mp h
  have hanswer : (answer (some process) responder .data failure (if read.1.value < 0 then .error read.1.error
      else .ok (read.2.take read.1.value.toNat))).Traces rest slot := hrest
  by_cases hread : read.1.value < 0
  · rw [if_pos hread] at hanswer
    obtain ⟨rfl,-⟩ := traces_send hanswer
    exact ⟨read,_,rfl,fun hnonneg => by omega⟩
  · rw [if_neg hread] at hanswer
    obtain ⟨rfl,-⟩ := traces_send hanswer
    exact ⟨read,_,rfl,fun _ => rfl⟩

/-- `Read` and `ReadAll` make one read and answer with it: no session is told of the bytes. -/
theorem handle_directRead {multiplexer : Option PtyMultiplexer} {process : PtyProcess} {responder : ℕ}
    {command : PtyCommand} (hcommand : command = .read responder ∨ command = .readAll responder) {trace : Trace}
    {slot : Slot} (h : (handle multiplexer (some process) command).Traces trace slot) :
    ∃ (answer : Ret × Bytes) (result : PtyResult),
      trace = [⟨.sys (.read process.masterFd 4096),answer⟩,⟨.send responder result,()⟩] ∧
        (0 ≤ answer.1.value → result = .data (answer.2.take answer.1.value.toNat)) := by
  rcases hcommand with rfl | rfl
  · exact traces_readData h
  · exact traces_readData h

end CommandHandler

/-- So does `read_from_pty`, for its caller. -/
theorem PtyMultiplexer.traces_readFromPty {multiplexer : PtyMultiplexer} {trace : List (Prog.Event Sys Sys.Res)}
    {result : Except IoError Bytes} (h : multiplexer.readFromPty.Traces trace result) :
    ∃ answer : Ret × Bytes, trace = [⟨.read multiplexer.ptyProcess.masterFd 4096,answer⟩] ∧
      (0 ≤ answer.1.value → result = .ok (answer.2.take answer.1.value.toNat)) := by
  rw [readFromPty,PtyProcess.readData_eq] at h
  obtain ⟨answer,rest,rfl,hrest⟩ := Prog.traces_call.mp h
  obtain ⟨rfl,hresult⟩ := Prog.traces_pure.mp hrest
  refine ⟨answer,rfl,fun hnonneg => ?_⟩
  rw [← hresult]
  exact if_neg (by omega)

/-! ### Readers of one PTY -/

/-- The calls that give what they read to their caller. -/
inductive DirectReader
  | read
  | readAll
  | readFromPty

/-- Where a call of `read_and_dispatch` is. A chunk is the list of the positions that its
bytes have in the stream of the PTY. -/
inductive DispatchCall
  | idle
  | holding (chunk : List ℕ)
  | dispatching (chunk pending : List ℕ)

/-- What the call has taken. -/
def DispatchCall.chunk : DispatchCall → List ℕ
  | .idle => []
  | .holding chunk => chunk
  | .dispatching chunk _ => chunk

/-- What the call will still append to a buffer of a session that stays. -/
def DispatchCall.owed (buffer : ℕ) : DispatchCall → List ℕ
  | .idle => []
  | .holding chunk => chunk
  | .dispatching chunk pending => if buffer ∈ pending then chunk else []

theorem DispatchCall.owed_subset (call : DispatchCall) (buffer : ℕ) : call.owed buffer ⊆ call.chunk := by
  cases call with
  | idle | holding chunk => exact List.Subset.refl _
  | dispatching chunk pending =>
    rw [owed]
    split
    · exact List.Subset.refl _
    · exact List.nil_subset _

/-- Background calls `ι` and direct readers on one PTY. `emitted` and `taken` count the
bytes of its stream, `log` keeps the positions of those appended to each buffer. -/
structure PtyReads (ι : Type) where
  sessions : Sessions
  emitted : ℕ
  taken : ℕ
  calls : ι → DispatchCall
  log : ℕ → List ℕ
  returned : List (DirectReader × List ℕ)

inductive ReadEvent (ι : Type)
  | emit (count : ℕ)
  | read (call : ι) (count : ℕ)
  | dispatch (call : ι) (order : HashOrder UInt32 PtySession)
  | append (call : ι) (buffer : ℕ)
  | finish (call : ι)
  | direct (reader : DirectReader) (count : ℕ)
  | sessions (change : Sessions → Sessions)

/-- The event comes from a reader or the PTY. -/
def ReadEvent.Own {ι : Type} (event : ReadEvent ι) : Prop := ∀ change, event ≠ .sessions change

namespace PtyReads

variable {ι : Type} [DecidableEq ι]

def start (m : Sessions) : PtyReads ι where
  sessions := m
  emitted := 0
  taken := 0
  calls := fun _ => .idle
  log := fun _ => []
  returned := []

/-- The result of one `read_data` into a buffer of 4096 bytes. -/
def Readable (s : PtyReads ι) (count : ℕ) : Prop := count ≤ 4096 ∧ s.taken+count ≤ s.emitted

/-- The positions of the next bytes. -/
def nextChunk (s : PtyReads ι) (count : ℕ) : List ℕ := List.range' s.taken count

omit [DecidableEq ι] in
theorem mem_nextChunk {s : PtyReads ι} {count p : ℕ} :
    p ∈ s.nextChunk count ↔ s.taken ≤ p ∧ p < s.taken+count := List.mem_range'_1

/-- The PTY emits bytes, a reader makes one step, or other methods change the sessions. A
background read without bytes, or one that would block, changes nothing. -/
inductive Step (bytes : ℕ → UInt8) : PtyReads ι → ReadEvent ι → PtyReads ι → Prop
  | emit (s : PtyReads ι) (count : ℕ) : Step bytes s (.emit count) { s with emitted := s.emitted+count }
  | read {s : PtyReads ι} {call : ι} {count : ℕ} (hcall : s.calls call = .idle) (hpos : 0 < count)
      (hread : s.Readable count) : Step bytes s (.read call count) { s with
        taken := s.taken+count
        calls := Function.update s.calls call (.holding (s.nextChunk count)) }
  | dispatch {s : PtyReads ι} {call : ι} {chunk : List ℕ} (order : HashOrder UInt32 PtySession)
      (hcall : s.calls call = .holding chunk) : Step bytes s (.dispatch call order) { s with
        calls := Function.update s.calls call (.dispatching chunk (s.sessions.snapshot order)) }
  | append {s : PtyReads ι} {call : ι} {chunk pending : List ℕ} {buffer : ℕ}
      (hcall : s.calls call = .dispatching chunk pending) (hbuffer : buffer ∈ pending) :
      Step bytes s (.append call buffer) { s with
        sessions := s.sessions.setBuffer buffer (s.sessions.buffers buffer ++ chunk.map bytes)
        calls := Function.update s.calls call (.dispatching chunk (pending.erase buffer))
        log := Function.update s.log buffer (s.log buffer ++ chunk) }
  | finish {s : PtyReads ι} {call : ι} {chunk : List ℕ} (hcall : s.calls call = .dispatching chunk []) :
      Step bytes s (.finish call) { s with calls := Function.update s.calls call .idle }
  | direct {s : PtyReads ι} (reader : DirectReader) {count : ℕ} (hread : s.Readable count) :
      Step bytes s (.direct reader count) { s with
        taken := s.taken+count
        returned := s.returned ++ [(reader,s.nextChunk count)] }
  | sessions (s : PtyReads ι) (change : Sessions → Sessions) :
      Step bytes s (.sessions change) { s with sessions := change s.sessions }

/-! ### What has been taken -/

/-- Nothing is appended, owed or returned that no one has taken. -/
structure Taken (s : PtyReads ι) : Prop where
  log : ∀ buffer, ∀ p ∈ s.log buffer, p < s.taken
  calls : ∀ call, ∀ p ∈ (s.calls call).chunk, p < s.taken
  returned : ∀ read ∈ s.returned, ∀ p ∈ read.2, p < s.taken

/-- The byte is in the buffer, or a call that is under way will append it. -/
def Received (s : PtyReads ι) (buffer p : ℕ) : Prop :=
  p ∈ s.log buffer ∨ ∃ call, p ∈ (s.calls call).owed buffer

/-- The byte was returned to the caller of a direct read. -/
def Returned (s : PtyReads ι) (p : ℕ) : Prop := ∃ read ∈ s.returned, p ∈ read.2

variable {bytes : ℕ → UInt8} {s s' : PtyReads ι} {event : ReadEvent ι}

omit [DecidableEq ι] in
theorem start_taken (m : Sessions) : (start m : PtyReads ι).Taken where
  log _ _ h := by simp [start] at h
  calls _ _ h := by simp [start,DispatchCall.chunk] at h
  returned _ h := by simp [start] at h

theorem mem_appended {log : ℕ → List ℕ} {chunk : List ℕ} {buffer other p : ℕ} :
    p ∈ Function.update log buffer (log buffer ++ chunk) other ↔ p ∈ log other ∨ other = buffer ∧ p ∈ chunk := by
  by_cases h : other = buffer
  · subst h
    simp
  · simp [h]

/-- A call that goes on holds what it has held. -/
theorem Taken.update (h : s.Taken) (call : ι) (after : DispatchCall) (hafter : after.chunk ⊆ (s.calls call).chunk) :
    ∀ other, ∀ p ∈ (Function.update s.calls call after other).chunk, p < s.taken := by
  intro other p hp
  by_cases ho : other = call
  · subst ho
    rw [Function.update_self] at hp
    exact h.calls other p (hafter hp)
  · rw [Function.update_of_ne ho] at hp
    exact h.calls other p hp

theorem step_taken (h : s.Taken) (hstep : Step bytes s event s') : s'.Taken := by
  cases hstep with
  | emit count => exact ⟨h.log,h.calls,h.returned⟩
  | @read call count hcall hpos hread =>
    refine ⟨fun buffer p hp => Nat.lt_add_right count (h.log buffer p hp),fun other p hp => ?_,
      fun read hr p hp => Nat.lt_add_right count (h.returned read hr p hp)⟩
    by_cases ho : other = call
    · subst ho
      have hnext : p ∈ s.nextChunk count := by simpa [DispatchCall.chunk] using hp
      exact (mem_nextChunk.mp hnext).2
    · have hother : p ∈ (s.calls other).chunk := by simpa [ho] using hp
      exact Nat.lt_add_right count (h.calls other p hother)
  | @dispatch call chunk order hcall =>
    exact ⟨h.log,h.update call _ (by rw [hcall]; exact List.Subset.refl _),h.returned⟩
  | @append call chunk pending buffer hcall hbuffer =>
    refine ⟨fun other p hp => ?_,h.update call _ (by rw [hcall]; exact List.Subset.refl _),h.returned⟩
    rcases mem_appended.mp hp with hp | ⟨-,hp⟩
    · exact h.log other p hp
    · exact h.calls call p (by rw [hcall]; exact hp)
  | @finish call chunk hcall => exact ⟨h.log,h.update call _ (List.nil_subset _),h.returned⟩
  | @direct reader count hread =>
    refine ⟨fun buffer p hp => Nat.lt_add_right count (h.log buffer p hp),
      fun other p hp => Nat.lt_add_right count (h.calls other p hp),fun read hr p hp => ?_⟩
    rcases List.mem_append.mp hr with hr | hr
    · exact Nat.lt_add_right count (h.returned read hr p hp)
    · obtain rfl := List.mem_singleton.mp hr
      exact (mem_nextChunk.mp hp).2
  | sessions change => exact ⟨h.log,h.calls,h.returned⟩

/-! ### One step -/

variable {buffer p : ℕ}

/-- A call that goes on, seen from one buffer. -/
theorem received_update {call : ι} {after : DispatchCall} {log : ℕ → List ℕ} {m : Sessions} {taken : ℕ}
    (h : p ∈ log buffer ∨ p ∈ after.owed buffer ↔ p ∈ s.log buffer ∨ p ∈ (s.calls call).owed buffer) :
    Received { s with
      sessions := m
      taken := taken
      calls := Function.update s.calls call after
      log := log } buffer p ↔ s.Received buffer p := by
  have hsplit (calls : ι → DispatchCall) : (∃ other, p ∈ (calls other).owed buffer) ↔
      p ∈ (calls call).owed buffer ∨ ∃ other, other ≠ call ∧ p ∈ (calls other).owed buffer := by
    constructor
    · rintro ⟨other,hother⟩
      by_cases ho : other = call
      · exact .inl (ho ▸ hother)
      · exact .inr ⟨other,ho,hother⟩
    · rintro (hcall | ⟨other,-,hother⟩)
      · exact ⟨call,hcall⟩
      · exact ⟨other,hother⟩
  have hothers : (∃ other, other ≠ call ∧ p ∈ (Function.update s.calls call after other).owed buffer) ↔
      ∃ other, other ≠ call ∧ p ∈ (s.calls other).owed buffer := by
    refine exists_congr fun other => and_congr_right fun ho => ?_
    rw [Function.update_of_ne ho]
  simp only [Received]
  rw [hsplit,hsplit,Function.update_self,hothers,← or_assoc,← or_assoc,h]

/-- The session is in the map with its buffer, whatever its input is. -/
def Live (id : UInt32) (buffer : ℕ) (s : PtyReads ι) : Prop :=
  s.sessions.map[id]?.map PtySession.identity = some (id,buffer)

/-- Bytes that were taken before stay where they are, or go from a call to the buffer. -/
theorem step_received_iff {id : UInt32} (hlive : s.Live id buffer) (hp : p < s.taken) (hstep : Step bytes s event s') :
    s'.Received buffer p ↔ s.Received buffer p := by
  obtain ⟨session,hsession,hidentity⟩ := Option.map_eq_some_iff.mp hlive
  obtain rfl : session.outputBuffer = buffer := congrArg Prod.snd hidentity
  cases hstep with
  | emit | direct | sessions => exact Iff.rfl
  | @read call count hcall hpos hread =>
    have hnext : p ∉ s.nextChunk count := fun h => absurd hp (not_lt.mpr (mem_nextChunk.mp h).1)
    refine received_update ?_
    simp [hcall,DispatchCall.owed,hnext]
  | @dispatch call chunk order hcall =>
    have hsnapshot := s.sessions.mem_snapshot order hsession
    refine received_update ?_
    simp [hcall,DispatchCall.owed,hsnapshot]
  | @append call chunk pending buffer hcall hbuffer =>
    refine received_update ?_
    rw [mem_appended,hcall]
    by_cases hb : session.outputBuffer = buffer
    · have hchunk : (p ∈ if buffer ∈ pending.erase buffer then chunk else []) → p ∈ chunk :=
        fun h => DispatchCall.owed_subset (.dispatching chunk (pending.erase buffer)) buffer h
      simp only [hb,DispatchCall.owed,hbuffer,if_true,true_and]
      rw [or_assoc,or_iff_left_of_imp hchunk]
    · simp [DispatchCall.owed,hb,List.mem_erase_of_ne hb]
  | @finish call chunk hcall =>
    refine received_update ?_
    simp [hcall,DispatchCall.owed]

omit [DecidableEq ι] in
/-- Bytes that no one has taken yet are nowhere. -/
theorem Taken.nowhere (h : s.Taken) (hp : s.taken ≤ p) (buffer : ℕ) : ¬s.Received buffer p ∧ ¬s.Returned p := by
  refine ⟨?_,?_⟩
  · rintro (hlog | ⟨call,howed⟩)
    · exact absurd hp (not_le.mpr (h.log buffer p hlog))
    · exact absurd hp (not_le.mpr (h.calls call p ((s.calls call).owed_subset buffer howed)))
  · rintro ⟨read,hread,hpos⟩
    exact absurd hp (not_le.mpr (h.returned read hread p hpos))

/-- The bytes that were taken from this position on are in two parts: what a session
receives and what was returned to the callers of direct reads. -/
def Shared (since buffer : ℕ) (s : PtyReads ι) : Prop :=
  ∀ p, since ≤ p → p < s.taken → (s.Received buffer p ↔ ¬s.Returned p)

theorem step_shared {since : ℕ} {id : UInt32} (htaken : s.Taken) (hlive : s.Live id buffer) (h : s.Shared since buffer)
    (hstep : Step bytes s event s') : s'.Shared since buffer := by
  intro p hsince hp
  by_cases hold : p < s.taken
  · rw [step_received_iff hlive hold hstep,h p hsince hold,not_iff_not]
    cases hstep with
    | @direct reader count hread =>
      have hnext : p ∉ s.nextChunk count := fun h => absurd hold (not_lt.mpr (mem_nextChunk.mp h).1)
      simp [Returned,hnext]
    | emit | read | dispatch | append | finish | sessions => exact Iff.rfl
  · have hnew := not_lt.mp hold
    obtain ⟨hreceived,hreturned⟩ := htaken.nowhere hnew buffer
    cases hstep with
    | @read call count hcall hpos hread =>
      have hnext : p ∈ s.nextChunk count := mem_nextChunk.mpr ⟨hnew,hp⟩
      exact iff_of_true (.inr ⟨call,by simpa [DispatchCall.owed] using hnext⟩) hreturned
    | @direct reader count hread =>
      have hnext : p ∈ s.nextChunk count := mem_nextChunk.mpr ⟨hnew,hp⟩
      exact iff_of_false hreceived (not_not.mpr ⟨(reader,s.nextChunk count),by simp,hnext⟩)
    | emit | dispatch | append | finish | sessions => exact absurd hp hold

/-! ### Runs -/

/-- Readers leave the map of the sessions alone. -/
theorem live_of_own {m : Sessions} {trace : List (PtyReads ι × ReadEvent ι)} (hrun : Run (Step bytes) (start m) trace s)
    (hown : Each (fun _ event => event.Own) trace) {id : UInt32} (hlive : (start m : PtyReads ι).Live id buffer) :
    Throughout (Live id buffer) trace s := by
  refine hrun.throughout_of_each hown hlive ?_
  intro s event s' h hevent hstep
  cases hstep with
  | sessions change => exact absurd rfl (hevent change)
  | _ => exact h

/-- As long as no other method touches the buffers, they hold the bytes of their logs. -/
theorem buffers_eq_log {m : Sessions} {trace : List (PtyReads ι × ReadEvent ι)} (hrun : Run (Step bytes) (start m) trace s)
    (hown : Each (fun _ event => event.Own) trace) (buffer : ℕ) :
    s.sessions.buffers buffer = m.buffers buffer ++ (s.log buffer).map bytes := by
  have hall : Throughout (fun s : PtyReads ι =>
      s.sessions.buffers buffer = m.buffers buffer ++ (s.log buffer).map bytes) trace s := by
    refine hrun.throughout_of_each hown (by simp [start]) ?_
    intro s event s' h hevent hstep
    cases hstep with
    | emit | read | dispatch | finish | direct => exact h
    | @append call chunk pending other hcall hother =>
      by_cases hb : buffer = other
      · subst hb
        simp [Sessions.setBuffer,h]
      · simpa [Sessions.setBuffer,hb] using h
    | sessions change => exact absurd rfl (hevent change)
  exact hall.2

/-- While a session is live, it receives exactly the taken bytes that no direct read
returned to its caller. -/
theorem live_session_shares (m : Sessions) {before trace : List (PtyReads ι × ReadEvent ι)} {s₀ s : PtyReads ι}
    (hbefore : Run (Step bytes) (start m) before s₀) (hrun : Run (Step bytes) s₀ trace s)
    {id : UInt32} {buffer : ℕ} (hlive : Throughout (Live id buffer) trace s) (p : ℕ) (hsince : s₀.taken ≤ p)
    (hp : p < s.taken) : (p ∈ s.log buffer ∨ ∃ call, p ∈ (s.calls call).owed buffer) ↔
      ¬∃ read ∈ s.returned, p ∈ read.2 := by
  have hstart : s₀.Taken := (hbefore.throughout (start_taken m) fun _ _ _ h => step_taken h).2
  have htaken : Throughout Taken trace s := hrun.throughout hstart fun _ _ _ h => step_taken h
  have hshared : Throughout (Shared s₀.taken buffer) trace s :=
    hrun.throughout_of_invariant (htaken.and hlive) (fun p hp hlt => absurd hlt (not_lt.mpr hp))
      fun _ _ _ hs h hstep => step_shared hs.1 hs.2 h hstep
  exact hshared.2 p hsince hp

/-- One session, and its id. -/
def oneSession : Sessions := Sessions.empty.createSession.2

theorem oneSession_live : (start oneSession : PtyReads Unit).Live 1 0 := rfl

/-- A PTY emits two bytes. A background call takes the first one and `Read` the second, after input
for the session. -/
theorem live_session_shares_two : ∃ (trace : List (PtyReads Unit × ReadEvent Unit)) (s : PtyReads Unit),
    Run (Step fun _ => 120) (start oneSession) trace s ∧ Throughout (Live 1 0) trace s ∧ 1 < s.taken ∧
    ((1 ∈ s.log 0 ∨ ∃ call, 1 ∈ (s.calls call).owed 0) ↔ ¬∃ read ∈ s.returned, 1 ∈ read.2) := by
  let typed (m : Sessions) : Sessions := (m.sendToSession 1 [108,115]).2
  let s₁ : PtyReads Unit := { start oneSession with emitted := 2 }
  let s₂ : PtyReads Unit := { s₁ with
    taken := 1
    calls := Function.update s₁.calls () (.holding [0]) }
  let s₃ : PtyReads Unit := { s₂ with sessions := typed s₂.sessions }
  let s₄ : PtyReads Unit := { s₃ with
    taken := 2
    returned := [(.read,[1])] }
  have h₁ : Step (fun _ => 120) (start oneSession) (.emit 2) s₁ := .emit _ 2
  have h₂ : Step (fun _ => 120) s₁ (.read () 1) s₂ := .read rfl (by decide) ⟨by decide,by decide⟩
  have h₃ : Step (fun _ => 120) s₂ (.sessions typed) s₃ := .sessions s₂ typed
  have h₄ : Step (fun _ => 120) s₃ (.direct .read 1) s₄ := .direct .read ⟨by decide,by decide⟩
  have hrun := ((((Run.nil (start oneSession)).snoc h₁).snoc h₂).snoc h₃).snoc h₄
  have htyped : s₃.Live 1 0 := rfl
  have hbefore := live_of_own (((Run.nil (start oneSession)).snoc h₁).snoc h₂) (each_snoc.mpr ⟨each_snoc.mpr
    ⟨each_nil,by simp [ReadEvent.Own]⟩,by simp [ReadEvent.Own]⟩) oneSession_live
  have hmiddle : Throughout (Live 1 0) (_ ++ [(s₂,ReadEvent.sessions typed)]) s₃ := throughout_snoc.mpr ⟨hbefore,htyped⟩
  have hlive : Throughout (Live 1 0) (_ ++ [(s₃,ReadEvent.direct .read 1)]) s₄ := throughout_snoc.mpr ⟨hmiddle,htyped⟩
  exact ⟨_,_,hrun,hlive,by decide,
    live_session_shares oneSession (.nil _) hrun hlive 1 (Nat.zero_le 1) (by decide)⟩

/-- `read_from_pty` takes the only byte. -/
theorem live_session_misses_one : ¬ ∀ (trace : List (PtyReads Unit × ReadEvent Unit)) (s : PtyReads Unit),
    Run (Step fun _ => 120) (start oneSession) trace s →
    Throughout (Live 1 0) trace s →
    Throughout (fun s => ∀ p, 0 ≤ p → p < s.taken → p ∈ s.log 0 ∨ ∃ call, p ∈ (s.calls call).owed 0) trace s := by
  intro h
  let s₁ : PtyReads Unit := { start oneSession with emitted := 1 }
  have h₁ : Step (fun _ => 120) (start oneSession) (.emit 1) s₁ := .emit _ 1
  have h₂ : Step (fun _ => 120) s₁ (.direct .readFromPty 1) { s₁ with
      taken := 1
      returned := [(.readFromPty,[0])] } := .direct .readFromPty ⟨by decide,by decide⟩
  have hrun := ((Run.nil (start oneSession)).snoc h₁).snoc h₂
  have hlive := live_of_own hrun (each_snoc.mpr ⟨each_snoc.mpr
    ⟨each_nil,by simp [ReadEvent.Own]⟩,by simp [ReadEvent.Own]⟩) oneSession_live
  rcases (h _ _ hrun hlive).2 0 (Nat.zero_le 0) Nat.zero_lt_one with hlog | ⟨call,howed⟩
  · exact absurd hlog List.not_mem_nil
  · exact absurd howed List.not_mem_nil

end PtyReads
end NodeRustPty
