import NodeRustPty.StreamDecoding
import NodeRustPty.Transitions
import NodeRustPty.UnwrittenInput

/-! The session table around a `Close`. The handler takes the process out of its slot and never
looks at the table, so what was live stays live. -/
namespace NodeRustPty

open Std CommandHandler

namespace Sessions

/-! ### Sessions are only added by a create and a split -/

/-- All sessions of the second table are sessions of the first, under the same ids. -/
structure Narrows (m m' : Sessions) : Prop where
  next : m'.next = m.next
  entry : ∀ {id : UInt32} {session : PtySession}, m'.map[id]? = some session →
    ∃ old : PtySession, m.map[id]? = some old ∧ session.identity = old.identity

variable {bound : ℕ} {m m' m'' : Sessions}

theorem narrows_refl (m : Sessions) : m.Narrows m := ⟨rfl,fun {_ session} h => ⟨session,h,rfl⟩⟩

theorem Narrows.trans (h : m.Narrows m') (h' : m'.Narrows m'') : m.Narrows m'' where
  next := h'.next.trans h.next
  entry hx := by
    obtain ⟨middle,hmiddle,hidentity⟩ := h'.entry hx
    obtain ⟨old,hold,hidentity'⟩ := h.entry hmiddle
    exact ⟨old,hold,hidentity.trans hidentity'⟩

theorem narrows_withMap {map : SessionMap} {hmap} : m.Narrows (m.withMap map hmap) := ⟨rfl,fun hx => hmap hx⟩

theorem narrows_erase (m : Sessions) (id : UInt32) : m.Narrows (m.erase id) := narrows_withMap

theorem narrows_modifyInput (m : Sessions) (id : UInt32) (f : Bytes → Bytes) : m.Narrows (m.modifyInput id f) :=
  narrows_withMap

theorem narrows_modifyInputs (m : Sessions) (f : Bytes → Bytes) : m.Narrows (m.modifyInputs f) := narrows_withMap

theorem narrows_clear (m : Sessions) : m.Narrows m.clear := narrows_withMap

theorem narrows_setBuffer (m : Sessions) (buffer : ℕ) (data : Bytes) : m.Narrows (m.setBuffer buffer data) :=
  ⟨rfl,fun {_ session} h => ⟨session,h,rfl⟩⟩

theorem narrows_takeSessions (m : Sessions) (sessionIds : List UInt32) : m.Narrows (m.takeSessions sessionIds).2 := by
  induction sessionIds generalizing m with
  | nil => exact narrows_refl m
  | cons sessionId rest ih =>
    unfold takeSessions
    split
    · exact (narrows_erase m sessionId).trans (ih (m.erase sessionId))
    · exact ih m

theorem narrows_mergeInto (primarySession : PtySession) (entries : List (UInt32 × PtySession)) (s : Locked) :
    s.sessions.Narrows (entries.foldl (mergeInto primarySession) s).sessions := by
  induction entries generalizing s with
  | nil => exact narrows_refl s.sessions
  | cons entry entries ih =>
    exact (narrows_setBuffer s.sessions _ _).trans (ih (mergeInto primarySession s entry))

theorem narrows_writeBack (primarySessionId : UInt32) (primarySession : PtySession) (s : Locked) :
    s.sessions.Narrows (writeBack primarySessionId primarySession s).sessions := by
  unfold writeBack
  split
  · exact narrows_refl s.sessions
  · exact (narrows_modifyInput s.sessions primarySessionId fun _ => primarySession.inputBuffer).trans
      (narrows_setBuffer _ _ _)

theorem narrows_mergeSessions (m : Sessions) (sessionIds : List UInt32) :
    m.Narrows (m.mergeSessions sessionIds).2.sessions := by
  cases sessionIds with
  | nil => exact narrows_refl m
  | cons primarySessionId rest =>
    cases hprimary : m.map[primarySessionId]? with
    | none =>
      simp only [mergeSessions,hprimary]
      exact narrows_refl m
    | some primarySession =>
      simp only [mergeSessions,hprimary]
      have hmerged := narrows_mergeInto primarySession (m.takeSessions rest).1 ⟨(m.takeSessions rest).2,[]⟩
      exact ((narrows_takeSessions m rest).trans hmerged).trans (narrows_writeBack _ _ _)

/-- Every session was created since the table had given out so many buffers. -/
structure Since (bound : ℕ) (m : Sessions) : Prop where
  next : bound ≤ m.next
  entry : ∀ {id : UInt32} {session : PtySession}, m.map[id]? = some session → bound ≤ session.outputBuffer

/-- Where nothing is live, all that comes is new. -/
theorem since_of_empty (h : ∀ id, id ∉ m.map) : Since m.next m where
  next := Nat.le_refl _
  entry hx := absurd (ExtTreeMap.mem_iff_isSome_getElem?.mpr (by rw [hx]; rfl)) (h _)

theorem Since.insertNew (h : Since bound m) (id : UInt32) (input output : Bytes) :
    Since bound (m.insertNew id input output) where
  next := h.next.trans (Nat.le_succ _)
  entry {x session} hx := by
    rw [map_insertNew,getElem?_insert_if] at hx
    split at hx
    · cases hx
      exact h.next
    · exact h.entry hx

theorem Since.narrows (h : Since bound m) (hnarrows : m.Narrows m') : Since bound m' where
  next := h.next.trans_eq hnarrows.next.symm
  entry hx := by
    obtain ⟨old,hold,hidentity⟩ := hnarrows.entry hx
    exact (h.entry hold).trans_eq (congrArg Prod.snd hidentity).symm

theorem Since.outcome (h : Since bound m) (order : HashOrder UInt32 PtySession) (call : TableCall) :
    Since bound (call.outcome order m).2 := by
  cases call with
  | createSession => exact h.insertNew _ _ _
  | splitSession sessionId =>
    simp only [TableCall.outcome,splitSession]
    split
    · exact h
    · exact ((h.insertNew _ _ _).insertNew _ _ _).narrows (narrows_erase _ sessionId)
  | removeSession sessionId =>
    simp only [TableCall.outcome,removeSession]
    split
    · exact h.narrows (narrows_erase m sessionId)
    · exact h
  | sendToSession sessionId data =>
    simp only [TableCall.outcome,sendToSession]
    split
    · exact h.narrows (narrows_modifyInput m sessionId (· ++ data))
    · exact h
  | readFromSession sessionId =>
    simp only [TableCall.outcome,readFromSession]
    split
    · exact h.narrows (narrows_setBuffer m _ _)
    · exact h
  | mergeSessions sessionIds => exact h.narrows (narrows_mergeSessions m sessionIds)
  | broadcast data => exact h.narrows (narrows_modifyInputs m (· ++ data))
  | closeAllSessions => exact h.narrows (narrows_clear m)
  | readAllSessions | listSessions => exact h

theorem Since.dispatchOutput (h : Since bound m) (order : HashOrder UInt32 PtySession) (data : Bytes) :
    Since bound (m.dispatchOutput order data) := by
  have hall (buffers : List ℕ) (m : Sessions) (hm : Since bound m) : Since bound (m.appendAll data buffers) := by
    induction buffers generalizing m with
    | nil => exact hm
    | cons buffer buffers ih => exact ih _ (hm.narrows (narrows_setBuffer m _ _))
  exact hall _ m h

theorem Since.replays {order : HashOrder UInt32 PtySession} {trace : Trace} (h : Since bound m)
    (hm : Replays order m trace m') : Since bound m' := by
  induction trace generalizing m with
  | nil =>
    obtain rfl : m' = m := hm
    exact h
  | cons event trace ih =>
    obtain ⟨call,answer⟩ := event
    cases call with
    | sys call => exact ih h hm
    | send responder result => exact ih h hm
    | table call =>
      obtain ⟨-,hrest⟩ := hm
      exact ih (h.outcome order call) hrest

end Sessions

/-! ### Runs of the handler -/

namespace Serving

open Transitions

/-- The slot and the table, and whether the loop still takes commands. -/
structure World where
  slot : Slot
  sessions : Sessions
  running : Bool

inductive Action
  | command (command : PtyCommand) (trace : Trace)
  | dispatchOutput (order : HashOrder UInt32 PtySession) (data : Bytes)

/-- The handler serves a command, or the background task gives out what it has read. -/
inductive Step (own : PtyMultiplexer) : World → Action → World → Prop
  | command {w : World} {command : PtyCommand} {trace : Trace} {slot' : Slot} {m' : Sessions}
      (order : HashOrder UInt32 PtySession)
      (hrunning : w.running = true) (hhandled : (handle (some own) w.slot command).Traces trace slot')
      (hreplays : Replays order w.sessions trace m') :
      Step own w (.command command trace) ⟨slot',m',!command.isShutdown⟩
  | dispatchOutput {w : World} (order : HashOrder UInt32 PtySession) (data : Bytes) :
      Step own w (.dispatchOutput order data) { w with sessions := w.sessions.dispatchOutput order data }

/-- The command is for a session from before the table had given out so many buffers. An id that
is not live any more, or again, is the id of such a session. -/
def Addresses (bound : ℕ) (m : Sessions) : PtyCommand → Prop
  | .sendToSession sessionId _ _ => ∀ session, m.map[sessionId]? = some session → session.outputBuffer < bound
  | .readFromSession sessionId _ => ∀ session, m.map[sessionId]? = some session → session.outputBuffer < bound
  | .broadcast _ _ => ∃ (id : UInt32) (session : PtySession), m.map[id]? = some session ∧ session.outputBuffer < bound
  | _ => False

/-- Some process has taken data. -/
def Reaches (trace : Trace) : Prop :=
  ∃ (fd : ℤ) (data : Bytes) (ret : Ret), ⟨.sys (.write fd data),ret⟩ ∈ trace ∧ 0 ≤ ret.value

/-- A command for such a session fails or does not reach a process. -/
def Refused (bound : ℕ) (w : World) : Action → Prop
  | .command command trace => Addresses bound w.sessions command →
    (∃ message, (command.responder,.failure message) ∈ replies trace) ∨ ¬Reaches trace
  | .dispatchOutput _ _ => True

section Steps

variable {own : PtyMultiplexer} {w w' : World} {action : Action} {bound : ℕ}

theorem since_step (h : w.sessions.Since bound) (hstep : Step own w action w') : w'.sessions.Since bound := by
  cases hstep with
  | command order hrunning hhandled hreplays => exact h.replays hreplays
  | dispatchOutput order data => exact h.dispatchOutput order data

/-- A `Close` does not look at the table. -/
theorem close_sessions {responder : ℕ} {trace : Trace} (hstep : Step own w (.command (.close responder) trace) w') :
    w'.sessions = w.sessions := by
  cases hstep with
  | @command _ _ slot' m' order hrunning hhandled hreplays =>
    cases hslot : w.slot with
    | none =>
      rw [hslot] at hhandled
      obtain ⟨⟨message,rfl⟩,-⟩ := handle_none_of_closesGently rfl hhandled
      exact hreplays
    | some process =>
      rw [hslot,handle,handleClose] at hhandled
      obtain ⟨killed,waited,closed,rfl⟩ := answerTaken_traces hhandled
      exact hreplays

/-- A send to an id that is not live is answered with a failure. -/
theorem sendToSession_dead {slot slot' : Slot} {order : HashOrder UInt32 PtySession} {m m' : Sessions}
    {sessionId : UInt32} {data : Bytes} {responder : ℕ} {trace : Trace} (hdead : sessionId ∉ m.map)
    (h : (handle (some own) slot (.sendToSession sessionId data responder)).Traces trace slot')
    (hm : Replays order m trace m') : ∃ message, (responder,.failure message) ∈ replies trace := by
  obtain ⟨found,rest,rfl,hrest⟩ := Prog.traces_call.mp h
  obtain ⟨rfl,-⟩ := hm
  simp only [TableCall.outcome,Sessions.sendToSession,if_neg hdead] at hrest ⊢
  obtain ⟨res,rest',rfl,-⟩ := Prog.traces_call.mp hrest
  exact ⟨_,List.mem_cons_self⟩

/-- So is a read from it. -/
theorem readFromSession_dead {slot slot' : Slot} {order : HashOrder UInt32 PtySession} {m m' : Sessions}
    {sessionId : UInt32} {responder : ℕ} {trace : Trace} (hdead : m.map[sessionId]? = none)
    (h : (handle (some own) slot (.readFromSession sessionId responder)).Traces trace slot')
    (hm : Replays order m trace m') : ∃ message, (responder,.failure message) ∈ replies trace := by
  have hreply : (readReply m sessionId).1 =
      .failure s!"Failed to read from session {sessionId}: {napiError (Sessions.notFound sessionId)}" := by
    simp only [readReply,Sessions.readFromSession,hdead]
  rw [(handle_readFromSession h hm).1,hreply]
  exact ⟨_,List.mem_cons_self⟩

/-- Where all sessions are newer, no command for an older one gets through. -/
theorem refused_of_since (h : w.sessions.Since bound) (hstep : Step own w action w') : Refused bound w action := by
  cases hstep with
  | dispatchOutput order data => trivial
  | @command command trace slot' m' order hrunning hhandled hreplays =>
    intro haddresses
    have hnew (sessionId : UInt32)
        (hold : ∀ session, w.sessions.map[sessionId]? = some session → session.outputBuffer < bound) :
        w.sessions.map[sessionId]? = none := by
      cases hs : w.sessions.map[sessionId]? with
      | none => rfl
      | some session => exact absurd (h.entry hs) (Nat.not_le_of_lt (hold session hs))
    cases command with
    | sendToSession sessionId data responder =>
      have hdead : sessionId ∉ w.sessions.map := by
        simp [ExtTreeMap.mem_iff_isSome_getElem?,hnew sessionId haddresses]
      exact .inl (sendToSession_dead hdead hhandled hreplays)
    | readFromSession sessionId responder =>
      exact .inl (readFromSession_dead (hnew sessionId haddresses) hhandled hreplays)
    | broadcast data responder =>
      obtain ⟨id,session,hs,hlt⟩ := haddresses
      exact absurd (h.entry hs) (Nat.not_le_of_lt hlt)
    | _ => exact haddresses.elim

end Steps

/-- What a `Close` with success leaves, in every run that goes on from there: nothing is live after
it and all commands for sessions from before are refused, exactly when nothing was live before it. -/
theorem close_sessions_iff (own : PtyMultiplexer) (w w₁ w₂ : World) (responder : ℕ) (trace : Trace)
    (after : List (World × Action)) (hclose : Step own w (.command (.close responder) trace) w₁)
    (hafter : Run (Step own) w₁ after w₂) :
    (Succeeds (.close responder) trace →
      (∀ id, id ∉ w₁.sessions.map) ∧ Each (Refused w.sessions.next) after) ↔
    (Succeeds (.close responder) trace → ∀ id, id ∉ w.sessions.map) := by
  have hsame := close_sessions hclose
  rw [hsame]
  refine ⟨fun h hsuccess => (h hsuccess).1,fun h hsuccess => ⟨h hsuccess,?_⟩⟩
  have hsince : w₁.sessions.Since w.sessions.next := by
    rw [hsame]
    exact Sessions.since_of_empty (h hsuccess)
  induction hafter with
  | nil => exact each_nil
  | snoc hrun hstep ih =>
    have hall := hrun.throughout hsince fun _ _ _ h hnext => since_step h hnext
    exact each_snoc.mpr ⟨ih,refused_of_since hall.2 hstep⟩

def shell : PtyMultiplexer := ⟨⟨5,42,"sh"⟩⟩

/-- The path of a `Close` whose three calls go well. -/
def closeTrace : Trace :=
  tearDownTrace shell.ptyProcess sigterm wnohang zero zero zero 0 (.success "PTY closed successfully")

theorem succeeds_closeTrace : Succeeds (.close 0) closeTrace := ⟨_,List.mem_singleton.mpr rfl⟩

theorem step_close {m : Sessions} :
    Step shell ⟨some shell.ptyProcess,m,true⟩ (.command (.close 0) closeTrace) ⟨none,m,true⟩ :=
  .command .sorted rfl (.call _ (.call _ (.call _ (.call _ (.pure _))))) rfl

/-- A send to session 1 when it is not there. -/
def refusedTrace : Trace := [⟨.table (.sendToSession 1 [108]),(.error (Sessions.notFound 1) : Except String Unit)⟩,
  ⟨.send 2 (.failure s!"SendToSession error: Failed to send data to session {(1 : UInt32)}: {
    napiError (Sessions.notFound 1)}"),()⟩]

/-- A `Close` without sessions, and such a send after it. -/
theorem close_sessions_none : (∀ id, id ∉ Sessions.empty.map) ∧
    Each (Refused 0) [(⟨none,.empty,true⟩,.command (.sendToSession 1 [108] 2) refusedTrace)] := by
  have hempty : ∀ id, id ∉ Sessions.empty.map := fun id => ExtTreeMap.not_mem_empty
  have hanswer : (Sessions.empty.sendToSession 1 [108]).1 = .error (Sessions.notFound 1) := by
    rw [Sessions.sendToSession,if_neg (hempty 1)]
  have hsend : Step shell ⟨none,.empty,true⟩ (.command (.sendToSession 1 [108] 2) refusedTrace)
      ⟨none,(Sessions.empty.sendToSession 1 [108]).2,true⟩ :=
    .command .sorted rfl (.call _ (.call _ (.pure _))) ⟨hanswer.symm,rfl⟩
  have hclosed := close_sessions_iff shell _ _ _ 0 closeTrace _ step_close (.snoc (.nil _) hsend)
  exact hclosed.mpr (fun _ => hempty) succeeds_closeTrace

/-- One session is live, and it still is after a `Close` that is a success. -/
theorem close_sessions_live : Step shell ⟨some shell.ptyProcess,SessionWrite.one,true⟩ (.command (.close 0) closeTrace)
    ⟨none,SessionWrite.one,true⟩ ∧ Succeeds (.close 0) closeTrace ∧ 1 ∈ SessionWrite.one.map :=
  ⟨step_close,succeeds_closeTrace,Registry.mem_insertNew.mpr (.inl rfl)⟩

end Serving
end NodeRustPty
