import NodeRustPty.RequestEndings
import NodeRustPty.SessionIds

/-! Sequential runs of the session operations: what each of them does to the sessions
it names, and that it leaves every other one alone. -/
namespace NodeRustPty

open Std

/-- The table answers the calls of a trace, and they lead from one table to another. -/
def Replays (order : HashOrder UInt32 PtySession) : Sessions → CommandHandler.Trace → Sessions → Prop
  | m,[],m' => m' = m
  | m,⟨.table call,res⟩::rest,m' => res = (call.outcome order m).1 ∧ Replays order (call.outcome order m).2 rest m'
  | m,⟨.sys _,_⟩::rest,m' => Replays order m rest m'
  | m,⟨.send _ _,_⟩::rest,m' => Replays order m rest m'

namespace Sessions

/-- Appends data to the buffers in turn, as the futures of one `dispatch_output` do. -/
def appendAll (m : Sessions) (data : Bytes) (buffers : List ℕ) : Sessions :=
  buffers.foldl (fun m buffer => m.setBuffer buffer (m.buffers buffer ++ data)) m

/-- `dispatch_output` with no other call between its appends. -/
def dispatchOutput (order : HashOrder UInt32 PtySession) (m : Sessions) (data : Bytes) : Sessions :=
  m.appendAll data (m.snapshot order)

theorem appendAll_map (data : Bytes) (buffers : List ℕ) (m : Sessions) :
    (m.appendAll data buffers).map = m.map := by
  induction buffers generalizing m with
  | nil => rfl
  | cons buffer buffers ih => exact ih _

theorem appendAll_buffers (data : Bytes) {buffers : List ℕ} (hnodup : buffers.Nodup) (m : Sessions) (b : ℕ) :
    (m.appendAll data buffers).buffers b = if b ∈ buffers then m.buffers b ++ data else m.buffers b := by
  induction buffers generalizing m with
  | nil => rfl
  | cons buffer buffers ih =>
    obtain ⟨hnot,hrest⟩ := List.nodup_cons.mp hnodup
    have h := ih hrest (m.setBuffer buffer (m.buffers buffer ++ data))
    have hset : (m.setBuffer buffer (m.buffers buffer ++ data)).buffers =
        Function.update m.buffers buffer (m.buffers buffer ++ data) := rfl
    rw [hset] at h
    by_cases hb : b = buffer
    · subst hb
      rw [Function.update_self,if_neg hnot] at h
      rw [if_pos List.mem_cons_self]
      exact h
    · rw [Function.update_of_ne hb] at h
      simp only [List.mem_cons,hb,false_or]
      exact h

/-- Every session's output grows by the data. -/
theorem session?_dispatchOutput (order : HashOrder UInt32 PtySession) (m : Sessions) (data : Bytes) (x : UInt32) :
    (m.dispatchOutput order data).session? x = (m.session? x).map fun buffers => (buffers.1,buffers.2 ++ data) := by
  unfold session? dispatchOutput
  rw [appendAll_map]
  cases hx : m.map[x]? with
  | none => rfl
  | some session =>
    have hb := appendAll_buffers data (m.snapshot_nodup order) m session.outputBuffer
    rw [if_pos (m.mem_snapshot order hx)] at hb
    simp [hb]

/-! ### One operation -/

/-- Neither the map entry of a session nor its buffers differ. -/
def Untouched (m m' : Sessions) (x : UInt32) : Prop := m'.map[x]? = m.map[x]? ∧ m'.session? x = m.session? x

theorem untouched_refl (m : Sessions) (x : UInt32) : m.Untouched m x := ⟨rfl,rfl⟩

theorem Untouched.trans {m m' m'' : Sessions} {x : UInt32} (h : m.Untouched m' x) (h' : m'.Untouched m'' x) :
    m.Untouched m'' x := ⟨h'.1.trans h.1,h'.2.trans h.2⟩

variable {m : Sessions} {id x : UInt32}

theorem insertNew_untouched (h : x ≠ id) (input output : Bytes) : m.Untouched (m.insertNew id input output) x := by
  constructor
  · rw [map_insertNew,getElem?_insert_if,if_neg h]
  · rw [session?_insertNew,if_neg h]

theorem erase_untouched (h : x ≠ id) : m.Untouched (m.erase id) x := by
  constructor
  · rw [map_erase,getElem?_erase_if,if_neg h]
  · rw [session?_erase,if_neg h]

theorem modifyInput_untouched (h : x ≠ id) (f : Bytes → Bytes) : m.Untouched (m.modifyInput id f) x := by
  constructor
  · have hx := getElem?_modify_if m.map id x fun session => { session with inputBuffer := f session.inputBuffer }
    rw [if_neg h] at hx
    exact hx
  · rw [session?_modifyInput,if_neg h]

theorem setBuffer_untouched {session : PtySession} (hs : m.map[id]? = some session) (h : x ≠ id) (data : Bytes) :
    m.Untouched (m.setBuffer session.outputBuffer data) x :=
  ⟨rfl,by rw [session?_setBuffer m id x hs,if_neg h]⟩

/-- No id is so large that the next two do not fit in a `u32`. -/
def Bounded (m : Sessions) : Prop := ∀ id ∈ m.map, id.toNat ≤ 2^32-3

/-- The next id and the one after it fit. -/
theorem Bounded.next_toNat (hm : m.Bounded) {top : UInt32} (htop : top ∈ m.map) :
    (top+1).toNat = top.toNat+1 ∧ (top+1+1).toNat = (top+1).toNat+1 := by
  have hle := hm top htop
  have hfits (y : UInt32) (hy : y.toNat < 2^32-1) : (y+1).toNat = y.toNat+1 := by
    rcases Contiguous.succ_toNat y with hs | ⟨hs,-⟩
    · exact hs
    · rw [hs] at hy
      exact absurd hy (by decide)
  have h1 := hfits top (by omega)
  exact ⟨h1,hfits (top+1) (by omega)⟩

/-- They are new, and so is neither of them an id being split. -/
theorem Bounded.nextIds (hm : m.Bounded) {top : UInt32} (h : m.map.keys.max? = some top) :
    top+1 ∉ m.map ∧ top+1+1 ∉ m.map := by
  obtain ⟨hmem,hle⟩ := max?_keys h
  obtain ⟨h1,h2⟩ := hm.next_toNat hmem
  have hlarger (y : UInt32) (hy : top.toNat < y.toNat) : y ∉ m.map := fun hin => by
    have hl := UInt32.le_iff_toNat_le.mp (hle y hin)
    omega
  exact ⟨hlarger _ (by omega),hlarger _ (by omega)⟩

theorem createSession_spec (hm : m.Bounded) : ∃ streamId, m.createSession.1 = .ok streamId ∧ streamId ∉ m.map ∧
    m.createSession.2.session? streamId = some ([],[]) ∧
    ∀ x, x ≠ streamId → m.Untouched m.createSession.2 x := by
  have hnew (streamId : UInt32) : (m.insertNew streamId [] []).session? streamId = some ([],[]) := by
    rw [session?_insertNew,if_pos rfl]
  rcases Registry.nextId_cases m with ⟨top,hmax,hc,-⟩ | ⟨hmax,hc⟩
  · rw [hc]
    exact ⟨top+1,rfl,(hm.nextIds hmax).1,hnew _,fun x hx => insertNew_untouched hx _ _⟩
  · rw [hc]
    exact ⟨1,rfl,max?_keys_none hmax 1,hnew _,fun x hx => insertNew_untouched hx _ _⟩

theorem sendToSession_spec (m : Sessions) (id : UInt32) (data : Bytes) :
    (m.sendToSession id data).2.session? id = (m.session? id).map (fun buffers => (buffers.1 ++ data,buffers.2)) ∧
    ∀ x, x ≠ id → m.Untouched (m.sendToSession id data).2 x := by
  unfold sendToSession
  split
  · exact ⟨by rw [session?_modifyInput,if_pos rfl],fun x hx => modifyInput_untouched hx _⟩
  · next hdead =>
    have hnone : m.session? id = none := session?_eq_none.mpr hdead
    exact ⟨by rw [hnone]; rfl,fun x _ => m.untouched_refl x⟩

theorem readFromSession_spec (m : Sessions) (id : UInt32) :
    (m.readFromSession id).1 = ((m.session? id).map Prod.snd).elim (.error (notFound id)) .ok ∧
    (m.readFromSession id).2.session? id = (m.session? id).map (fun buffers => (buffers.1,[])) ∧
    ∀ x, x ≠ id → m.Untouched (m.readFromSession id).2 x := by
  unfold readFromSession
  cases hs : m.map[id]? with
  | none =>
    have hnone : m.session? id = none := by simp [session?,hs]
    exact ⟨by simp [hnone],by simp [hnone],fun x _ => m.untouched_refl x⟩
  | some session =>
    have hsome : m.session? id = some (session.inputBuffer,m.buffers session.outputBuffer) := by simp [session?,hs]
    refine ⟨by simp [hsome],?_,fun x hx => setBuffer_untouched hs hx _⟩
    rw [session?_setBuffer m id id hs,if_pos rfl,hsome]
    rfl

theorem removeSession_spec (m : Sessions) (id : UInt32) :
    id ∉ (m.removeSession id).2.map ∧ ∀ x, x ≠ id → m.Untouched (m.removeSession id).2 x := by
  unfold removeSession
  split
  · exact ⟨by simp,fun x hx => erase_untouched hx⟩
  · next hdead => exact ⟨hdead,fun x _ => m.untouched_refl x⟩

theorem splitSession_spec (hm : m.Bounded) {input output : Bytes} (hs : m.session? id = some (input,output)) :
    ∃ a b, (m.splitSession id).1 = .ok (a,b) ∧ a ≠ b ∧ a ∉ m.map ∧ b ∉ m.map ∧
    (m.splitSession id).2.session? a = some (input.take (input.length/2),output.take (output.length/2)) ∧
    (m.splitSession id).2.session? b = some (input.drop (input.length/2),output.drop (output.length/2)) ∧
    id ∉ (m.splitSession id).2.map ∧
    ∀ x, x ≠ a → x ≠ b → x ≠ id → m.Untouched (m.splitSession id).2 x := by
  obtain ⟨session,hsession,hdata⟩ := Option.map_eq_some_iff.mp hs
  obtain ⟨rfl,rfl⟩ := Prod.mk.inj hdata
  have hid : id ∈ m.map := mem_of_session? hs
  obtain ⟨top,hmax⟩ := Registry.max?_of_mem hid
  obtain ⟨ha,hb⟩ := hm.nextIds hmax
  have hab : top+1 ≠ top+1+1 := (Registry.succ_ne _).symm
  have haid : top+1 ≠ id := fun e => ha (e ▸ hid)
  have hbid : top+1+1 ≠ id := fun e => hb (e ▸ hid)
  simp only [splitSession,hsession,hmax,Option.getD_some]
  refine ⟨top+1,top+1+1,rfl,hab,ha,hb,?_,?_,?_,?_⟩
  · rw [session?_erase,if_neg haid,session?_insertNew,if_neg hab,session?_insertNew,if_pos rfl]
  · rw [session?_erase,if_neg hbid,session?_insertNew,if_pos rfl]
  · simp
  · intro x hxa hxb hx
    have h1 := m.insertNew_untouched hxa (session.inputBuffer.take (session.inputBuffer.length/2))
      ((m.buffers session.outputBuffer).take ((m.buffers session.outputBuffer).length/2))
    exact (h1.trans (insertNew_untouched hxb _ _)).trans (erase_untouched hx)

theorem mem_of_map {m' : Sessions} {f : Bytes × Bytes → Bytes × Bytes}
    (h : m'.session? x = (m.session? x).map f) (hx : x ∈ m'.map) : x ∈ m.map := by
  rw [← session?_isSome,h,Option.isSome_map] at hx
  exact (session?_isSome m x).mp hx

theorem Untouched.mem {m' : Sessions} (h : m.Untouched m' x) (hx : x ∈ m'.map) : x ∈ m.map := by
  rw [ExtTreeMap.mem_iff_isSome_getElem?,h.1] at hx
  exact ExtTreeMap.mem_iff_isSome_getElem?.mpr hx

theorem Untouched.of_buffer {m' : Sessions} (hmap : m'.map[x]? = m.map[x]?)
    (hbuffer : ∀ session : PtySession, m.map[x]? = some session →
      m'.buffers session.outputBuffer = m.buffers session.outputBuffer) : m.Untouched m' x := by
  refine ⟨hmap,?_⟩
  unfold session?
  rw [hmap]
  exact Option.map_congr fun session hs => by rw [hbuffer session hs]

theorem mergeInto_buffers_of_ne {primarySession : PtySession} {b : ℕ} (hb : b ≠ primarySession.outputBuffer)
    (entries : List (UInt32 × PtySession)) (s : Locked) :
    (entries.foldl (mergeInto primarySession) s).sessions.buffers b = s.sessions.buffers b := by
  induction entries generalizing s with
  | nil => rfl
  | cons entry entries ih => exact (ih _).trans (Function.update_of_ne hb _ _)

theorem writeBack_map (p : UInt32) (primarySession : PtySession) (s : Locked) (h : x ≠ p) :
    (writeBack p primarySession s).sessions.map[x]? = s.sessions.map[x]? := by
  unfold writeBack
  split
  · rfl
  · exact (modifyInput_untouched (m := s.sessions) h fun _ => primarySession.inputBuffer).1

theorem writeBack_buffers_of_ne {p : UInt32} {primarySession : PtySession} {s : Locked} {b : ℕ}
    (hb : ∀ updated : PtySession, s.sessions.map[p]? = some updated → b ≠ updated.outputBuffer) :
    (writeBack p primarySession s).sessions.buffers b = s.sessions.buffers b := by
  unfold writeBack
  split
  · rfl
  · next updated hupdated => exact Function.update_of_ne (hb updated hupdated) _ _

/-- A merge leaves alone what its list does not name. -/
theorem mergeSessions_untouched {ids : List UInt32} (h : x ∉ ids) :
    m.Untouched (m.mergeSessions ids).2.sessions x := by
  cases ids with
  | nil => exact m.untouched_refl x
  | cons p rest =>
    have hxp : x ≠ p := List.ne_of_not_mem_cons h
    have hxrest : x ∉ rest := List.not_mem_of_not_mem_cons h
    cases hp : m.map[p]? with
    | none =>
      simp only [mergeSessions,hp]
      exact m.untouched_refl x
    | some primarySession =>
      simp only [mergeSessions,hp]
      obtain ⟨htaken,hmap⟩ := takeSessions_snd m rest
      have hfold := mergeInto_map primarySession (m.takeSessions rest).1 ⟨(m.takeSessions rest).2,[]⟩
      refine .of_buffer ?_ fun session hx => ?_
      · rw [writeBack_map p primarySession _ hxp,hfold,hmap,if_neg hxrest]
      · have hne (q : PtySession) (hq : m.map[p]? = some q) : session.outputBuffer ≠ q.outputBuffer :=
          fun e => hxp (m.unshared hx hq e)
        rw [writeBack_buffers_of_ne,mergeInto_buffers_of_ne (hne _ hp),htaken]
        intro updated hupdated
        rw [hfold,hmap] at hupdated
        split at hupdated
        · simp at hupdated
        · exact hne updated hupdated

section

variable {n : ℕ} (hm : ∀ id ∈ m.map, id.toNat ≤ n)

include hm

theorem createSession_le : ∀ id ∈ m.createSession.2.map, id.toNat ≤ n+2 := by
  intro id hid
  rcases Registry.nextId_cases m with ⟨top,hmax,hc,-⟩ | ⟨hmax,hc⟩
  · rw [hc] at hid
    rcases Registry.mem_insertNew.mp hid with rfl | hid
    · have htop := hm top (max?_keys hmax).1
      have hnext := Contiguous.succ_toNat_le top
      omega
    · exact (hm id hid).trans (Nat.le_add_right _ _)
  · rw [hc] at hid
    rcases Registry.mem_insertNew.mp hid with rfl | hid
    · rw [UInt32.toNat_one]
      omega
    · exact (hm id hid).trans (Nat.le_add_right _ _)

theorem splitSession_le (sessionId : UInt32) : ∀ id ∈ (m.splitSession sessionId).2.map, id.toNat ≤ n+2 := by
  intro id hid
  by_cases hlive : sessionId ∈ m.map
  · obtain ⟨top,hmax⟩ := Registry.max?_of_mem hlive
    obtain ⟨m',hs,hm'⟩ := Registry.splitSession_live hlive hmax
    have htop := hm top (max?_keys hmax).1
    have h1 := Contiguous.succ_toNat_le top
    have h2 := Contiguous.succ_toNat_le (top+1)
    rw [hs] at hid
    rcases hm' id hid with rfl | rfl | hid
    · omega
    · omega
    · exact (hm id hid).trans (Nat.le_add_right _ _)
  · rw [Registry.splitSession_dead hlive] at hid
    exact (hm id hid).trans (Nat.le_add_right _ _)

end

end Sessions

/-! ### Runs -/

/-- An operation of a sequential run, with the order in which it meets the map's entries. -/
inductive SessionOp
  | call (order : HashOrder UInt32 PtySession) (tableCall : TableCall)
  | dispatchOutput (order : HashOrder UInt32 PtySession) (data : Bytes)

namespace SessionOp

open Sessions

def apply (m : Sessions) : SessionOp → Sessions
  | .call order tableCall => (tableCall.outcome order m).2
  | .dispatchOutput order data => m.dispatchOutput order data

def run (ops : List SessionOp) : Sessions := ops.foldl apply .empty

/-- What an operation returns and what it does to the sessions it is about. -/
def Meets (m : Sessions) (op : SessionOp) : Prop :=
  match op with
  | .call _ .createSession => ∃ streamId, m.createSession.1 = .ok streamId ∧ streamId ∉ m.map ∧
    (op.apply m).session? streamId = some ([],[]) ∧ ∀ x, x ≠ streamId → m.Untouched (op.apply m) x
  | .call _ (.splitSession sessionId) =>
    (∀ input output, m.session? sessionId = some (input,output) →
      ∃ a b, (m.splitSession sessionId).1 = .ok (a,b) ∧ a ≠ b ∧ a ∉ m.map ∧ b ∉ m.map ∧
      (op.apply m).session? a = some (input.take (input.length/2),output.take (output.length/2)) ∧
      (op.apply m).session? b = some (input.drop (input.length/2),output.drop (output.length/2)) ∧
      sessionId ∉ (op.apply m).map ∧
      ∀ x, x ≠ a → x ≠ b → x ≠ sessionId → m.Untouched (op.apply m) x) ∧
    (m.session? sessionId = none → (m.splitSession sessionId).1 = .error (notFound sessionId) ∧ op.apply m = m)
  | .call _ (.sendToSession sessionId data) =>
    (op.apply m).session? sessionId =
      (m.session? sessionId).map (fun buffers => (buffers.1 ++ data,buffers.2)) ∧
    ∀ x, x ≠ sessionId → m.Untouched (op.apply m) x
  | .call _ (.readFromSession sessionId) =>
    (op.apply m).session? sessionId = (m.session? sessionId).map (fun buffers => (buffers.1,[])) ∧
    ∀ x, x ≠ sessionId → m.Untouched (op.apply m) x
  | .call _ (.removeSession sessionId) => sessionId ∉ (op.apply m).map ∧
    ∀ x, x ≠ sessionId → m.Untouched (op.apply m) x
  | .call _ (.broadcast data) => ∀ x, (op.apply m).session? x =
    (m.session? x).map fun buffers => (buffers.1 ++ data,buffers.2)
  | .call _ (.mergeSessions sessionIds) => ∀ x, x ∉ sessionIds → m.Untouched (op.apply m) x
  | .call _ .closeAllSessions => ∀ x, x ∉ (op.apply m).map
  | .call _ .readAllSessions => op.apply m = m
  | .call _ .listSessions => op.apply m = m
  | .dispatchOutput _ data => ∀ x, (op.apply m).session? x =
    (m.session? x).map fun buffers => (buffers.1,buffers.2 ++ data)

/-- One operation, from any table whose ids leave room. -/
theorem meets_of_bounded {m : Sessions} (hm : m.Bounded) (op : SessionOp) : op.Meets m := by
  cases op with
  | dispatchOutput order data => exact m.session?_dispatchOutput order data
  | call order tableCall =>
    cases tableCall with
    | createSession => exact createSession_spec hm
    | splitSession sessionId =>
      refine ⟨fun input output hs => splitSession_spec hm hs,fun hs => ?_⟩
      have hdead : sessionId ∉ m.map := session?_eq_none.mp hs
      have h := Registry.splitSession_dead hdead
      exact ⟨congrArg Prod.fst h,congrArg Prod.snd h⟩
    | sendToSession sessionId data => exact m.sendToSession_spec sessionId data
    | readFromSession sessionId => exact (m.readFromSession_spec sessionId).2
    | removeSession sessionId => exact m.removeSession_spec sessionId
    | broadcast data => exact fun x => m.session?_modifyInputs x _
    | mergeSessions sessionIds => exact fun x hx => mergeSessions_untouched hx
    | closeAllSessions => exact fun x => ExtTreeMap.not_mem_empty
    | readAllSessions => rfl
    | listSessions => rfl

/-- The operation names neither this session nor all of them. -/
def Spares (x : UInt32) : SessionOp → Prop
  | .call _ (.splitSession sessionId) => x ≠ sessionId
  | .call _ (.sendToSession sessionId _) => x ≠ sessionId
  | .call _ (.readFromSession sessionId) => x ≠ sessionId
  | .call _ (.removeSession sessionId) => x ≠ sessionId
  | .call _ (.mergeSessions sessionIds) => x ∉ sessionIds
  | .call _ (.broadcast _) => False
  | .call _ .closeAllSessions => False
  | .call _ .createSession => True
  | .call _ .readAllSessions => True
  | .call _ .listSessions => True
  | .dispatchOutput _ _ => False

theorem untouched_of_spares {m : Sessions} (hm : m.Bounded) {x : UInt32} (hx : x ∈ m.map) {op : SessionOp}
    (h : op.Spares x) : m.Untouched (op.apply m) x := by
  have hmeets := meets_of_bounded hm op
  cases op with
  | dispatchOutput order data => exact h.elim
  | call order tableCall =>
    cases tableCall with
    | createSession =>
      obtain ⟨streamId,-,hnew,-,hrest⟩ := hmeets
      exact hrest x fun e => hnew (e ▸ hx)
    | splitSession sessionId =>
      cases hs : m.session? sessionId with
      | none =>
        have happly := (hmeets.2 hs).2
        rw [happly]
        exact m.untouched_refl x
      | some buffers =>
        obtain ⟨a,b,-,-,ha,hb,-,-,-,hrest⟩ := hmeets.1 buffers.1 buffers.2 hs
        exact hrest x (fun e => ha (e ▸ hx)) (fun e => hb (e ▸ hx)) h
    | sendToSession sessionId data => exact hmeets.2 x h
    | readFromSession sessionId => exact hmeets.2 x h
    | removeSession sessionId => exact hmeets.2 x h
    | mergeSessions sessionIds => exact hmeets x h
    | broadcast data => exact h.elim
    | closeAllSessions => exact h.elim
    | readAllSessions => exact m.untouched_refl x
    | listSessions => exact m.untouched_refl x

theorem run_concat (ops : List SessionOp) (op : SessionOp) : run (ops ++ [op]) = op.apply (run ops) := by
  simp [run]

/-- The ids leave room whenever an operation of the run is made. -/
def AllBounded (ops : List SessionOp) : Prop :=
  ∀ before op after, ops = before ++ op::after → (run before).Bounded

/-- Over any stretch of a run a live session that no operation names stays as it is. -/
theorem run_untouched {before more : List SessionOp} (hops : AllBounded (before ++ more)) {x : UInt32}
    (hx : x ∈ (run before).map) (hspares : ∀ op ∈ more, op.Spares x) :
    (run before).Untouched (run (before ++ more)) x := by
  induction more using List.reverseRecOn with
  | nil =>
    rw [List.append_nil]
    exact untouched_refl _ x
  | append_singleton more op ih =>
    rw [← List.append_assoc] at hops ⊢
    have hbefore : AllBounded (before ++ more) := fun b o a e => hops b o (a ++ [op]) (by simp [e])
    have h := ih hbefore fun o ho => hspares o (List.mem_append_left _ ho)
    have hlive : x ∈ (run (before ++ more)).map := by
      rw [ExtTreeMap.mem_iff_isSome_getElem?,h.1]
      exact ExtTreeMap.mem_iff_isSome_getElem?.mp hx
    have hlast := untouched_of_spares (hops (before ++ more) op [] rfl) hlive
      (hspares op (List.mem_append_right _ (List.mem_singleton.mpr rfl)))
    rw [run_concat]
    exact h.trans hlast

/-- In a run whose ids stay small enough every entry is filed under its own id, and every
operation does what it says to the sessions it names and nothing to the others. -/
theorem run_meets (ops : List SessionOp) (hops : AllBounded ops) :
    (∀ before after, ops = before ++ after → ∀ (id : UInt32) (session : PtySession),
      (run before).map[id]? = some session → session.streamId = id) ∧
    (∀ before op after, ops = before ++ op::after → op.Meets (run before)) ∧
    ∀ before more after x, ops = before ++ more ++ after → x ∈ (run before).map →
      (∀ op ∈ more, op.Spares x) → (run before).Untouched (run (before ++ more)) x := by
  refine ⟨fun before _ _ _ _ h => (run before).key_eq h,
    fun before op after h => meets_of_bounded (hops before op after h) op,fun before more after x h hx hspares => ?_⟩
  have hstretch : AllBounded (before ++ more) := fun b o a e => hops b o (a ++ after) (by rw [h,e]; simp)
  exact run_untouched hstretch hx hspares

/-! ### Short runs keep the ids small -/

theorem apply_le {m : Sessions} {n : ℕ} (hm : ∀ id ∈ m.map, id.toNat ≤ n) (op : SessionOp) :
    ∀ id ∈ (op.apply m).map, id.toNat ≤ n+2 := by
  have hstay (id : UInt32) (hid : id ∈ m.map) : id.toNat ≤ n+2 := (hm id hid).trans (Nat.le_add_right _ _)
  intro id hid
  cases op with
  | dispatchOutput order data => exact hstay id (mem_of_map (m.session?_dispatchOutput order data id) hid)
  | call order tableCall =>
    cases tableCall with
    | createSession => exact createSession_le hm id hid
    | splitSession sessionId => exact splitSession_le hm sessionId id hid
    | sendToSession sessionId data =>
      obtain ⟨hown,hrest⟩ := m.sendToSession_spec sessionId data
      by_cases he : id = sessionId
      · subst he
        exact hstay id (mem_of_map hown hid)
      · exact hstay id ((hrest id he).mem hid)
    | readFromSession sessionId =>
      obtain ⟨-,hown,hrest⟩ := m.readFromSession_spec sessionId
      by_cases he : id = sessionId
      · subst he
        exact hstay id (mem_of_map hown hid)
      · exact hstay id ((hrest id he).mem hid)
    | removeSession sessionId =>
      obtain ⟨hgone,hrest⟩ := m.removeSession_spec sessionId
      have he : id ≠ sessionId := fun e => hgone (e ▸ hid)
      exact hstay id ((hrest id he).mem hid)
    | broadcast data => exact hstay id (mem_of_map (m.session?_modifyInputs id _) hid)
    | mergeSessions sessionIds => exact hstay id (mem_mergeSessions hid)
    | closeAllSessions => exact absurd hid ExtTreeMap.not_mem_empty
    | readAllSessions => exact hstay id hid
    | listSessions => exact hstay id hid

theorem run_le (ops : List SessionOp) : ∀ id ∈ (run ops).map, id.toNat ≤ 2*ops.length := by
  induction ops using List.reverseRecOn with
  | nil =>
    intro id hid
    exact absurd hid ExtTreeMap.not_mem_empty
  | append_singleton ops op ih =>
    rw [run_concat,List.length_append,List.length_singleton,Nat.mul_add]
    exact apply_le ih op

/-- Two thousand million operations do not bring the ids near their bound. -/
theorem allBounded_of_length {ops : List SessionOp} (h : ops.length < 2^31) : AllBounded ops := by
  intro before op after e id hid
  have hle := run_le before id hid
  have hlength : ops.length = before.length+(after.length+1) := by rw [e]; simp
  omega

/-- A line sent to the second of two sessions, then a split of the first. -/
theorem run_meets_split : ∃ a b, ((run [.call .sorted .createSession,.call .sorted .createSession,
      .call .sorted (.sendToSession 2 [108,115])]).splitSession 1).1 = .ok (a,b) ∧ a ≠ b ∧
    (run [.call .sorted .createSession,.call .sorted .createSession,
      .call .sorted (.sendToSession 2 [108,115]),.call .sorted (.splitSession 1)]).session? 2 =
      some ([108,115],[]) := by
  obtain ⟨-,hmeets,hstretch⟩ := run_meets [.call .sorted .createSession,.call .sorted .createSession,
    .call .sorted (.sendToSession 2 [108,115]),.call .sorted (.splitSession 1)] (allBounded_of_length (by decide))
  have hsplit := hmeets [.call .sorted .createSession,.call .sorted .createSession,
    .call .sorted (.sendToSession 2 [108,115])] (.call .sorted (.splitSession 1)) [] rfl
  obtain ⟨a,b,hok,hne,-⟩ := hsplit.1 [] [] (by decide)
  have hother := hstretch [.call .sorted .createSession,.call .sorted .createSession,
    .call .sorted (.sendToSession 2 [108,115])] [.call .sorted (.splitSession 1)] [] 2 rfl (by decide)
    (by simp [Spares])
  exact ⟨a,b,hok,hne,hother.2.trans (by decide)⟩

end SessionOp
end NodeRustPty
