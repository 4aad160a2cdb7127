import NodeRustPty.SessionRuns
import NodeRustPty.Utf8Encoding

/-! The text that a client gets from a session with `ReadFromSession`: each reply
decodes what has come in since the last one, wherever that begins and ends. -/
namespace NodeRustPty

open CommandHandler

/-- What happens to the session: output for all sessions, or a read of this one. -/
inductive TextEvent
  | chunk (order : HashOrder UInt32 PtySession) (data : Bytes)
  | read

/-- The table after a read of the session, and the result that the handler sends. -/
def readReply (m : Sessions) (sessionId : UInt32) : PtyResult × Sessions :=
  match m.readFromSession sessionId with
  | (.ok data,m) => (.success (Utf8.fromUtf8Lossy data),m)
  | (.error reason,m) => (.failure s!"Failed to read from session {sessionId}: {napiError reason}",m)

/-- The handler of `ReadFromSession` does that. -/
theorem handle_readFromSession {multiplexer : PtyMultiplexer} {slot slot' : Slot} {sessionId : UInt32}
    {responder : ℕ} {order : HashOrder UInt32 PtySession} {m m' : Sessions} {trace : Trace}
    (h : (handle (some multiplexer) slot (.readFromSession sessionId responder)).Traces trace slot')
    (hreplay : Replays order m trace m') :
    replies trace = [(responder,(readReply m sessionId).1)] ∧ m' = (readReply m sessionId).2 := by
  obtain ⟨res,rest,rfl,hrest⟩ := Prog.traces_call.mp h
  obtain ⟨hres,hreplay'⟩ := hreplay
  have houtcome : (TableCall.readFromSession sessionId).outcome order m = m.readFromSession sessionId := rfl
  rw [houtcome] at hres hreplay'
  unfold readReply
  cases hread : m.readFromSession sessionId with
  | mk result after =>
    rw [hread] at hres hreplay'
    subst hres
    cases res with
    | ok data =>
      obtain ⟨rfl,-⟩ := traces_send hrest
      exact ⟨rfl,hreplay'⟩
    | error reason =>
      obtain ⟨rfl,-⟩ := traces_send hrest
      exact ⟨rfl,hreplay'⟩

namespace TextEvent

def step (sessionId : UInt32) (s : Sessions × List PtyResult) : TextEvent → Sessions × List PtyResult
  | .chunk order data => (s.1.dispatchOutput order data,s.2)
  | .read => ((readReply s.1 sessionId).2,s.2 ++ [(readReply s.1 sessionId).1])

def run (sessionId : UInt32) (m : Sessions) (events : List TextEvent) : Sessions × List PtyResult :=
  events.foldl (step sessionId) (m,[])

/-- All the output of a run. -/
def bytes (events : List TextEvent) : Bytes :=
  events.flatMap fun event => match event with
    | .chunk _ data => data
    | .read => []

/-- The text that a result carries. -/
def carried : PtyResult → String
  | .success message => message
  | .failure message => message
  | .data data => Utf8.fromUtf8Lossy data

/-- What the reads of a run drain, starting with some data in the buffer. -/
def pieces (buffer : Bytes) : List TextEvent → List Bytes
  | [] => []
  | .chunk _ data::events => pieces (buffer ++ data) events
  | .read::events => buffer::pieces [] events

variable {m : Sessions} {sessionId : UInt32} {input buffer : Bytes}

theorem readReply_live (h : m.session? sessionId = some (input,buffer)) :
    (readReply m sessionId).1 = .success (Utf8.fromUtf8Lossy buffer) ∧
    (readReply m sessionId).2.session? sessionId = some (input,[]) := by
  obtain ⟨hresult,hown,-⟩ := m.readFromSession_spec sessionId
  rw [h] at hresult hown
  unfold readReply
  cases hread : m.readFromSession sessionId with
  | mk result after =>
    rw [hread] at hresult hown
    obtain rfl : result = .ok buffer := hresult
    exact ⟨rfl,hown⟩

theorem foldl_results (h : m.session? sessionId = some (input,buffer)) (results : List PtyResult)
    (events : List TextEvent) : (events.foldl (step sessionId) (m,results)).2 =
      results ++ (pieces buffer events).map fun piece => .success (Utf8.fromUtf8Lossy piece) := by
  induction events generalizing m buffer results with
  | nil => exact (List.append_nil results).symm
  | cons event events ih =>
    cases event with
    | chunk order data =>
      have hgrown := m.session?_dispatchOutput order data sessionId
      rw [h] at hgrown
      exact ih hgrown results
    | read =>
      obtain ⟨hreply,hempty⟩ := readReply_live h
      have hrest := ih hempty (results ++ [(readReply m sessionId).1])
      rw [List.foldl_cons,step,hrest,hreply,pieces,List.map_cons,List.append_assoc,List.singleton_append]

theorem pieces_flatten (buffer : Bytes) (events : List TextEvent) :
    (pieces buffer (events ++ [.read])).flatten = buffer ++ bytes events := by
  induction events generalizing buffer with
  | nil => simp [pieces,bytes]
  | cons event events ih =>
    cases event with
    | chunk order data =>
      have hrest := ih (buffer ++ data)
      simp only [List.cons_append,pieces,hrest,List.append_assoc]
      rfl
    | read =>
      have hrest := ih []
      simp only [List.cons_append,pieces,List.flatten_cons,hrest,List.nil_append]
      rfl

/-- The ends of the pieces are the places where the reads are made. -/
theorem forall_cut_iff (P : Bytes → Prop) (taken buffer : Bytes) (events : List TextEvent) :
    (∀ before after, pieces buffer events = before ++ after → before ≠ [] → P (taken ++ before.flatten)) ↔
      ∀ before after, events = before ++ .read::after → P (taken ++ buffer ++ bytes before) := by
  induction events generalizing taken buffer with
  | nil =>
    refine iff_of_true (fun before after h hne => ?_) fun before after h => by simp at h
    exact absurd (List.append_eq_nil_iff.mp h.symm).1 hne
  | cons event events ih =>
    cases event with
    | chunk order data =>
      rw [pieces,ih taken (buffer ++ data)]
      constructor
      · intro h before after he
        cases before with
        | nil => simp at he
        | cons first before =>
          obtain ⟨rfl,hrest⟩ := List.cons.inj he
          have hp := h before after hrest
          rwa [← List.append_assoc,List.append_assoc _ data] at hp
      · intro h before after he
        have hp := h (.chunk order data::before) after (by rw [he]; rfl)
        rwa [← List.append_assoc,List.append_assoc _ data]
    | read =>
      have hrest := ih (taken ++ buffer) []
      rw [List.append_nil] at hrest
      rw [pieces]
      constructor
      · intro h before after he
        cases before with
        | nil =>
          have hp := h [buffer] (pieces [] events) rfl (by simp)
          simpa [bytes] using hp
        | cons first before =>
          obtain ⟨rfl,htail⟩ := List.cons.inj he
          refine hrest.mp (fun cut rest hcut hne => ?_) before after htail
          have hp := h (buffer::cut) rest (by rw [hcut]; rfl) (by simp)
          rwa [List.flatten_cons,← List.append_assoc] at hp
      · intro h before after hcut hne
        cases before with
        | nil => exact absurd rfl hne
        | cons first before =>
          obtain ⟨rfl,htail⟩ := List.cons.inj hcut
          rw [List.flatten_cons,← List.append_assoc]
          by_cases hbefore : before = []
          · have hp := h [] events rfl
            simpa [hbefore,bytes] using hp
          · refine hrest.mpr (fun pre post hpre => ?_) before after htail hbefore
            exact h (.read::pre) post (by rw [hpre]; rfl)

theorem join_carried (pieces : List Bytes) :
    String.join ((pieces.map fun piece => PtyResult.success (Utf8.fromUtf8Lossy piece)).map carried) =
      String.ofList (pieces.flatMap (Utf8.decodeFrom 0)) := by
  rw [← String.toList_inj]
  induction pieces with
  | nil => rfl
  | cons piece pieces ih =>
    simp only [List.map_cons,String.join_cons,String.toList_append,ih]
    simp [carried,Utf8.fromUtf8Lossy]

/-- With the reads and their texts in one string: it is the text exactly when no read was made
between the bytes of a character. -/
theorem carried_iff (m : Sessions) (sessionId : UInt32) (input : Bytes) (text : String) (events : List TextEvent)
    (hlive : m.session? sessionId = some (input,[])) (hbytes : bytes events = text.toUTF8.toList) :
    String.join ((run sessionId m (events ++ [.read])).2.map carried) = text ↔
      ∀ before after, events = before ++ .read::after → ∃ first : String, bytes before = first.toUTF8.toList := by
  have hresults := foldl_results hlive [] (events ++ [.read])
  have hflatten := pieces_flatten [] events
  rw [List.nil_append,hbytes,Utf8.toUTF8_toList] at hflatten
  have htext (data : Bytes) : (∃ first : String, data = first.toUTF8.toList) ↔ ∃ first, data = Utf8.encode first := by
    constructor
    · rintro ⟨first,rfl⟩
      exact ⟨first.toList,Utf8.toUTF8_toList first⟩
    · rintro ⟨first,rfl⟩
      exact ⟨String.ofList first,by rw [Utf8.toUTF8_toList,String.toList_ofList]⟩
  have hcuts := forall_cut_iff (fun data => ∃ first, data = Utf8.encode first) [] [] (events ++ [.read])
  have hdecode : String.ofList ((pieces [] (events ++ [.read])).flatMap (Utf8.decodeFrom 0)) = text ↔
      (pieces [] (events ++ [.read])).flatMap (Utf8.decodeFrom 0) = text.toList := by
    rw [← String.toList_inj,String.toList_ofList]
  rw [run,hresults,List.nil_append,join_carried,hdecode,Utf8.flatMap_decodeFrom_iff hflatten,
    Utf8.forall_startsInside_iff hflatten]
  simp only [htext]
  simp only [List.nil_append] at hcuts
  constructor
  · intro h before after he
    exact hcuts.mp (fun cut rest hcut _ => h cut rest hcut) before (after ++ [.read]) (by rw [he]; simp)
  · intro h cut rest hcut
    by_cases hne : cut = []
    · exact ⟨[],by rw [hne]; rfl⟩
    · refine hcuts.mpr (fun before after he => ?_) cut rest hcut hne
      cases after using List.reverseRecOn with
      | nil =>
        obtain ⟨rfl,-⟩ := List.append_inj' he rfl
        exact ⟨text.toList,by rw [hbytes,Utf8.toUTF8_toList]⟩
      | append_singleton after last =>
        rw [← List.cons_append,← List.append_assoc] at he
        exact h before after (List.append_inj_left' he rfl)

theorem session?_one : Sessions.empty.createSession.2.session? 1 = some ([],[]) := by decide

/-- A read between the two characters. -/
theorem carried_between : String.join ((run 1 Sessions.empty.createSession.2
    ([.chunk .sorted [0x61],.read,.chunk .sorted [0xC3,0xA9]] ++ [.read])).2.map carried) = "aé" := by
  have hbytes : bytes [.chunk .sorted [0x61],.read,.chunk .sorted [0xC3,0xA9]] = "aé".toUTF8.toList := by
    rw [Utf8.toUTF8_toList]
    decide
  refine (carried_iff Sessions.empty.createSession.2 1 [] "aé" _ session?_one hbytes).mpr fun before after h => ?_
  cases before with
  | nil => simp at h
  | cons first before =>
    obtain ⟨rfl,hrest⟩ := List.cons.inj h
    cases before with
    | nil =>
      refine ⟨"a",?_⟩
      rw [Utf8.toUTF8_toList]
      decide
    | cons second before =>
      obtain ⟨rfl,htail⟩ := List.cons.inj hrest
      cases before with
      | nil => simp at htail
      | cons third before => simp at htail

/-- A read between the two bytes of one character gives two replacement characters. -/
theorem carried_inside : bytes [.chunk .sorted [0xC3],.read,.chunk .sorted [0xA9]] = "é".toUTF8.toList ∧
    (run 1 Sessions.empty.createSession.2 ([.chunk .sorted [0xC3],.read,.chunk .sorted [0xA9]] ++ [.read])).2 =
      [.success "\uFFFD",.success "\uFFFD"] ∧
    String.join ((run 1 Sessions.empty.createSession.2
      ([.chunk .sorted [0xC3],.read,.chunk .sorted [0xA9]] ++ [.read])).2.map carried) ≠ "é" := by
  have hresults : (run 1 Sessions.empty.createSession.2
      ([.chunk .sorted [0xC3],.read,.chunk .sorted [0xA9]] ++ [.read])).2 =
      [.success "\uFFFD",.success "\uFFFD"] := by decide
  refine ⟨?_,hresults,?_⟩
  · rw [Utf8.toUTF8_toList]
    decide
  · rw [hresults]
    decide

end TextEvent
end NodeRustPty
