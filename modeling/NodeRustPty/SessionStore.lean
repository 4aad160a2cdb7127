import NodeRustPty.PtyService
import NodeRustPty.ConcurrentSplit

/-! What the session table is for: a map from ids to an input and an output. The table with its
heap of shared buffers does what this map does, also behind the handle and all its clients. -/
namespace NodeRustPty

open Std

/-- The sessions as a caller thinks of them. -/
abbrev Store := UInt32 → Option (Bytes × Bytes)

namespace Store

/-- The id that a new session gets. -/
def NextId (store : Store) (id : UInt32) : Prop :=
  (∃ top, IsGreatest {x | (store x).isSome} top ∧ id = top+1) ∨ (∀ x, store x = none) ∧ id = 1

/-- An operation on one live session. -/
def OnLive {α : Type} (store : Store) (id : UInt32) (outcome : Bytes → Bytes → α × Option (Bytes × Bytes))
    (res : Except String α) (store' : Store) : Prop :=
  (store id = none ∧ res = .error (Sessions.notFound id) ∧ store' = store) ∨
  ∃ input output, store id = some (input,output) ∧ res = .ok (outcome input output).1 ∧
    store' = Function.update store id (outcome input output).2

/-- Output of the process arrives at a session. -/
def Grows (store store' : Store) : Prop := ∃ x data, store' = Function.update store x
  ((store x).map fun buffers => (buffers.1,buffers.2 ++ data))

abbrev Grow : Store → Store → Prop := Relation.ReflTransGen Grows

/-- What a call of the table returns, and the sessions after it. Merging into a live session never
returns, and a split cuts the output at its middle or, when more has come in meanwhile, before it. -/
def Call (store : Store) : (call : TableCall) → Except String call.Value → Store → Prop
  | .createSession,res,store' => ∃ id, store.NextId id ∧ res = .ok id ∧
    store' = Function.update store id (some ([],[]))
  | .removeSession sessionId,res,store' => store.OnLive sessionId (fun _ _ => ((),none)) res store'
  | .sendToSession sessionId data,res,store' =>
    store.OnLive sessionId (fun input output => ((),some (input ++ data,output))) res store'
  | .broadcast data,res,store' => res = .ok () ∧
    store' = fun x => (store x).map fun buffers => (buffers.1 ++ data,buffers.2)
  | .readFromSession sessionId,res,store' =>
    store.OnLive sessionId (fun input output => (output,some (input,[]))) res store'
  | .readAllSessions,res,store' => store' = store ∧ ∃ entries, res = .ok entries ∧
    (entries.map Prod.fst).Nodup ∧ ∀ x output, (x,output) ∈ entries ↔ ∃ input, store x = some (input,output)
  | .mergeSessions [],res,store' => res = .error "No session IDs provided for merging" ∧ store' = store
  | .mergeSessions (primarySessionId::_),res,store' => store primarySessionId = none ∧
    res = .error s!"Primary session ID {primarySessionId} not found" ∧ store' = store
  | .splitSession sessionId,res,store' =>
    (store sessionId = none ∧ res = .error (Sessions.notFound sessionId) ∧ store' = store) ∨
    ∃ input output half a, store sessionId = some (input,output) ∧ half ≤ output.length/2 ∧ store.NextId a ∧
      res = .ok (a,a+1) ∧ store' = Function.update (Function.update (Function.update store a
        (some (input.take (input.length/2),output.take half)))
        (a+1) (some (input.drop (input.length/2),output.drop half))) sessionId none
  | .closeAllSessions,res,store' => res = .ok () ∧ store' = fun _ => none
  | .listSessions,res,store' => store' = store ∧ ∃ ids, res = .ok ids ∧ ids.Nodup ∧
    ∀ x, x ∈ ids ↔ (store x).isSome = true

/-! ### Output that arrives between the calls -/

variable {store store' : Store}

/-- Output for one session and a change of another one do not meet. Output for the changed one is
lost with what it had. -/
theorem Grow.update (h : store.Grow store') (x : UInt32) (buffers : Option (Bytes × Bytes)) :
    Grow (Function.update store x buffers) (Function.update store' x buffers) := by
  induction h with
  | refl => exact .refl
  | @tail middle last _ hgrows ih =>
    obtain ⟨y,data,rfl⟩ := hgrows
    by_cases hy : y = x
    · rw [hy,Function.update_idem]
      exact ih
    · refine ih.tail ⟨y,data,?_⟩
      rw [Function.update_of_ne hy,Function.update_comm hy]

theorem Grow.lookup (h : store.Grow store') (x : UInt32) :
    ∃ data, store' x = (store x).map fun buffers => (buffers.1,buffers.2 ++ data) := by
  induction h with
  | refl => exact ⟨[],by simp⟩
  | tail _ hgrows ih =>
    obtain ⟨data,hdata⟩ := ih
    obtain ⟨y,more,rfl⟩ := hgrows
    by_cases hy : x = y
    · refine ⟨data ++ more,?_⟩
      rw [hy,Function.update_self,← hy,hdata,Option.map_map]
      simp [Function.comp_def]
    · exact ⟨data,by rw [Function.update_of_ne hy,hdata]⟩

theorem Grow.isSome (h : store.Grow store') (x : UInt32) : (store' x).isSome = (store x).isSome := by
  obtain ⟨data,hdata⟩ := h.lookup x
  rw [hdata,Option.isSome_map]

/-- What arrived at one session may as well have arrived there last. -/
theorem Grow.hold (h : store.Grow store') (x : UInt32) :
    store.Grow (Function.update store' x (store x)) ∧ Grow (Function.update store' x (store x)) store' := by
  constructor
  · have hupdate := h.update x (store x)
    rwa [Function.update_eq_self] at hupdate
  · obtain ⟨data,hdata⟩ := h.lookup x
    refine .single ⟨x,data,?_⟩
    rw [Function.update_self,← hdata,Function.update_idem,Function.update_eq_self]

theorem NextId.congr {id : UInt32} (h : store.NextId id) (hlive : ∀ x, (store' x).isSome = (store x).isSome) :
    store'.NextId id := by
  have hset : {x | (store' x).isSome} = {x | (store x).isSome} := by
    ext x
    simp [hlive]
  refine h.imp (fun ⟨top,htop,hid⟩ => ⟨top,by rwa [hset],hid⟩) fun ⟨hnone,hid⟩ => ⟨fun x => ?_,hid⟩
  have hx := hlive x
  rw [hnone x] at hx
  simpa using hx

end Store

namespace Sessions

/-! ### The table does what the map does -/

variable (m : Sessions) (id : UInt32)

theorem view_insertNew (input output : Bytes) :
    (m.insertNew id input output).session? = Function.update m.session? id (some (input,output)) := by
  funext x
  rw [session?_insertNew,Function.update_apply]

theorem view_erase : (m.erase id).session? = Function.update m.session? id none := by
  funext x
  rw [session?_erase,Function.update_apply]

theorem nextId_of_max {top : UInt32} (h : m.map.keys.max? = some top) : Store.NextId m.session? (top+1) := by
  obtain ⟨hmem,hle⟩ := max?_keys h
  refine .inl ⟨top,⟨(session?_isSome m top).mpr hmem,fun x hx => ?_⟩,rfl⟩
  exact hle x ((session?_isSome m x).mp hx)

theorem nextId_of_none (h : m.map.keys.max? = none) : Store.NextId m.session? 1 :=
  .inr ⟨fun x => session?_eq_none.mpr (max?_keys_none h x),rfl⟩

theorem createSession_call : Store.Call m.session? .createSession m.createSession.1 m.createSession.2.session? := by
  rcases Registry.nextId_cases m with ⟨top,hmax,hcreate,-⟩ | ⟨hmax,hcreate⟩
  · rw [hcreate]
    exact ⟨_,m.nextId_of_max hmax,rfl,m.view_insertNew _ _ _⟩
  · rw [hcreate]
    exact ⟨_,m.nextId_of_none hmax,rfl,m.view_insertNew _ _ _⟩

variable {id}

theorem session?_some (h : id ∈ m.map) : ∃ session : PtySession, m.map[id]? = some session ∧
    m.session? id = some (session.inputBuffer,m.buffers session.outputBuffer) := by
  obtain ⟨session,hsession⟩ := Option.isSome_iff_exists.mp (ExtTreeMap.mem_iff_isSome_getElem?.mp h)
  exact ⟨session,hsession,by simp [session?,hsession]⟩

theorem removeSession_call : Store.Call m.session? (.removeSession id) (m.removeSession id).1
    (m.removeSession id).2.session? := by
  by_cases h : id ∈ m.map
  · obtain ⟨session,-,hview⟩ := m.session?_some h
    simp only [removeSession,h,if_true]
    exact .inr ⟨_,_,hview,rfl,m.view_erase id⟩
  · simp only [removeSession,h,if_false]
    exact .inl ⟨session?_eq_none.mpr h,rfl,rfl⟩

theorem sendToSession_call (data : Bytes) : Store.Call m.session? (.sendToSession id data)
    (m.sendToSession id data).1 (m.sendToSession id data).2.session? := by
  by_cases h : id ∈ m.map
  · obtain ⟨session,-,hview⟩ := m.session?_some h
    simp only [sendToSession,h,if_true]
    refine .inr ⟨_,_,hview,rfl,funext fun x => ?_⟩
    rw [session?_modifyInput,Function.update_apply]
    split
    · next hx => rw [hx,hview]; rfl
    · rfl
  · simp only [sendToSession,h,if_false]
    exact .inl ⟨session?_eq_none.mpr h,rfl,rfl⟩

theorem readFromSession_call : Store.Call m.session? (.readFromSession id) (m.readFromSession id).1
    (m.readFromSession id).2.session? := by
  by_cases h : id ∈ m.map
  · obtain ⟨session,hsession,hview⟩ := m.session?_some h
    simp only [readFromSession,hsession]
    refine .inr ⟨_,_,hview,rfl,funext fun x => ?_⟩
    rw [session?_setBuffer m id x hsession,Function.update_apply]
  · simp only [readFromSession,ExtTreeMap.getElem?_eq_none h]
    exact .inl ⟨session?_eq_none.mpr h,rfl,rfl⟩

theorem listSessions_call (order : HashOrder UInt32 PtySession) :
    Store.Call m.session? .listSessions (.ok (m.listSessions order)) m.session? := by
  refine ⟨rfl,_,rfl,order.nodup_keys m.map,fun x => ?_⟩
  rw [listSessions,order.mem_map_fst_entries,session?_isSome]

/-! ### Appends between the steps of a call -/

/-- One append of the background task, to the buffer of a session that may be gone by now. -/
def appendTo (m : Sessions) (buffer : ℕ) (data : Bytes) : Sessions :=
  m.setBuffer buffer (m.buffers buffer ++ data)

/-- An append to a buffer is an append to one session or to none. -/
theorem grows_appendTo (m : Sessions) (buffer : ℕ) (data : Bytes) :
    Store.Grow m.session? (m.appendTo buffer data).session? := by
  by_cases h : ∃ (id : UInt32) (session : PtySession), m.map[id]? = some session ∧ session.outputBuffer = buffer
  · obtain ⟨id,session,hsession,rfl⟩ := h
    refine .single ⟨id,data,funext fun x => ?_⟩
    rw [appendTo,session?_setBuffer m id x hsession,Function.update_apply]
    simp [session?,hsession]
  · have hsame : (m.appendTo buffer data).session? = m.session? := by
      funext x
      refine Option.map_congr fun session hsession => ?_
      have hne : session.outputBuffer ≠ buffer := fun e => h ⟨x,session,hsession,e⟩
      simp [appendTo,setBuffer,hne]
    rw [hsame]

/-- `read_all_sessions` goes through the entries, locks one buffer after the other, and appends come
in between. -/
inductive ReadsAll : List (UInt32 × PtySession) → Sessions → List (UInt32 × Bytes) → Sessions → Prop
  | nil (m : Sessions) : ReadsAll [] m [] m
  | append {entries : List (UInt32 × PtySession)} {m m' : Sessions} {result : List (UInt32 × Bytes)}
      (buffer : ℕ) (data : Bytes) (h : ReadsAll entries (m.appendTo buffer data) result m') :
      ReadsAll entries m result m'
  | read {entries : List (UInt32 × PtySession)} {m m' : Sessions} {result : List (UInt32 × Bytes)}
      (id : UInt32) (session : PtySession) (h : ReadsAll entries m result m') :
      ReadsAll ((id,session)::entries) m ((id,m.buffers session.outputBuffer)::result) m'

/-- What was read one after the other was there at one moment, if what arrived at each session after
its turn had arrived later. -/
theorem ReadsAll.snapshot {entries : List (UInt32 × PtySession)} {m m' : Sessions}
    {result : List (UInt32 × Bytes)} (h : ReadsAll entries m result m') (hnodup : (entries.map Prod.fst).Nodup)
    (hentries : ∀ id session, (id,session) ∈ entries → m.map[id]? = some session) :
    result.map Prod.fst = entries.map Prod.fst ∧ ∃ store, Store.Grow m.session? store ∧
      Store.Grow store m'.session? ∧
        ∀ x output, (x,output) ∈ result → ∃ input, store x = some (input,output) := by
  induction h with
  | nil m => exact ⟨rfl,_,.refl,.refl,by simp⟩
  | @append entries m m' result buffer data _ ih =>
    obtain ⟨hkeys,store,hfirst,hlast,hresult⟩ := ih hnodup hentries
    exact ⟨hkeys,store,(m.grows_appendTo buffer data).trans hfirst,hlast,hresult⟩
  | @read entries m m' result id session _ ih =>
    obtain ⟨hnew,hrest⟩ := List.nodup_cons.mp hnodup
    obtain ⟨hkeys,store,hfirst,hlast,hresult⟩ := ih hrest fun x other hx => hentries x other (.tail _ hx)
    obtain ⟨hbefore,hafter⟩ := hfirst.hold id
    refine ⟨congrArg _ hkeys,_,hbefore,hafter.trans hlast,fun x output hread => ?_⟩
    rcases List.mem_cons.mp hread with heq | hx
    · obtain ⟨rfl,rfl⟩ := Prod.mk.inj heq
      exact ⟨session.inputBuffer,by simp [session?,hentries x session List.mem_cons_self]⟩
    · have hne : x ≠ id := by
        rintro rfl
        have hmem := List.mem_map_of_mem (f := Prod.fst) hx
        rw [hkeys] at hmem
        exact hnew hmem
      rw [Function.update_of_ne hne]
      exact hresult x output hx

theorem readAllSessions_call {order : HashOrder UInt32 PtySession} {m' : Sessions} {result : List (UInt32 × Bytes)}
    (h : ReadsAll (order.entries m.map) m result m') : ∃ first, Store.Grow m.session? first ∧
      first.Call .readAllSessions (.ok result) first ∧ Store.Grow first m'.session? := by
  obtain ⟨hkeys,store,hfirst,hlast,hresult⟩ := h.snapshot (order.nodup_keys m.map)
    fun id session hmem => (order.mem_entries m.map id session).mp hmem
  refine ⟨store,hfirst,⟨rfl,result,rfl,hkeys ▸ order.nodup_keys m.map,
    fun x output => ⟨hresult x output,?_⟩⟩,hlast⟩
  rintro ⟨input,hx⟩
  have hlive : x ∈ m.map := by
    rw [← session?_isSome,← hfirst.isSome x,hx]
    rfl
  rw [← order.mem_map_fst_entries,← hkeys] at hlive
  obtain ⟨⟨y,output'⟩,hmem,rfl⟩ := List.mem_map.mp hlive
  obtain ⟨input',hx'⟩ := hresult _ _ hmem
  rw [hx] at hx'
  cases hx'
  exact hmem

end Sessions

/-! ### A split with appends between its steps -/

/-- The steps of a split alone with the background task. -/
def SplitEvent.Background : SplitEvent → Prop
  | .split => True
  | .append _ _ => True
  | _ => False

namespace Splitting

/-- The map when the split has both halves: it has lost the session, and the halves are filed under
these ids. -/
def filed (sessionId : UInt32) (store : Store) (news : List (UInt32 × (Bytes × Bytes))) : Store :=
  Function.update (news.foldl (fun store entry => Function.update store entry.1 (some entry.2)) store)
    sessionId none

/-- The halves were the output at a moment after the start, and the rest of the map has only grown
since then. -/
structure Cut (sessionId : UInt32) (first : Store) (copy : SplitCopy) (store : Store) : Prop where
  grow : first.Grow store
  buffers : store sessionId = some (copy.sessionClone.inputBuffer,copy.output1 ++ copy.output2)
  half : copy.output1.length ≤ (copy.output1 ++ copy.output2).length/2

/-- What is known at each point of the split. -/
def Follows (sessionId : UInt32) (first : Store) (s : Splitting) : Prop :=
  match s.phase with
  | .ready => first.Grow s.sessions.session?
  | .cloned sessionClone => first.Grow s.sessions.session? ∧ s.sessions.map[sessionId]? = some sessionClone
  | .measured sessionClone outputHalfSize => first.Grow s.sessions.session? ∧
    s.sessions.map[sessionId]? = some sessionClone ∧
    outputHalfSize ≤ (s.sessions.buffers sessionClone.outputBuffer).length/2
  | .firstHalf sessionClone outputHalfSize output1 => first.Grow s.sessions.session? ∧
    s.sessions.map[sessionId]? = some sessionClone ∧
    outputHalfSize ≤ (s.sessions.buffers sessionClone.outputBuffer).length/2 ∧
    output1 = (s.sessions.buffers sessionClone.outputBuffer).take outputHalfSize
  | .bothHalves copy => s.sessions.map[sessionId]? = some copy.sessionClone ∧ ∃ store,
    Cut sessionId first copy store ∧ Store.Grow (filed sessionId store []) (filed sessionId s.sessions.session? [])
  | .scanned copy a => ∃ store, Cut sessionId first copy store ∧ store.NextId a ∧
    Store.Grow (filed sessionId store []) (filed sessionId s.sessions.session? [])
  | .oneFiled copy a => ∃ store, Cut sessionId first copy store ∧ store.NextId a ∧
    Store.Grow (filed sessionId store [(a,copy.input1,copy.output1)]) (filed sessionId s.sessions.session? [])
  | .bothFiled copy a => ∃ store, Cut sessionId first copy store ∧ store.NextId a ∧
    Store.Grow (filed sessionId store [(a,copy.input1,copy.output1),(a+1,copy.input2,copy.output2)])
      (filed sessionId s.sessions.session? [])
  | .returned a b => b = a+1 ∧ ∃ copy store, Cut sessionId first copy store ∧ store.NextId a ∧
    Store.Grow (filed sessionId store [(a,copy.input1,copy.output1),(a+1,copy.input2,copy.output2)])
      s.sessions.session?
  | .notFound => first sessionId = none ∧ first.Grow s.sessions.session?
  | .panicked => False

variable {sessionId : UInt32} {first store : Store} {s : Splitting}

theorem filed_grow {store' : Store} (h : store.Grow store') (news : List (UInt32 × (Bytes × Bytes))) :
    Store.Grow (filed sessionId store news) (filed sessionId store' news) := by
  refine Store.Grow.update ?_ sessionId none
  induction news generalizing store store' with
  | nil => exact h
  | cons entry news ih => exact ih (h.update entry.1 _)

/-- Filing another session in both maps, whether or not its id is the one that leaves. -/
theorem filed_insert {store' : Store} {news : List (UInt32 × (Bytes × Bytes))}
    (h : Store.Grow (filed sessionId store news) (filed sessionId store' []))
    (a : UInt32) (buffers : Bytes × Bytes) :
    Store.Grow (filed sessionId store (news ++ [(a,buffers)]))
      (filed sessionId (Function.update store' a (some buffers)) []) := by
  unfold filed at h ⊢
  rw [List.foldl_append,List.foldl_cons,List.foldl_nil]
  simp only [List.foldl_nil] at h ⊢
  by_cases ha : a = sessionId
  · rw [ha,Function.update_idem,Function.update_idem]
    exact h
  · rw [Function.update_comm ha,Function.update_comm ha]
    exact h.update a (some buffers)

theorem follows_append (h : s.Follows sessionId first) (buffer : ℕ) (data : Bytes) :
    (s.step sessionId (.append buffer data)).Follows sessionId first := by
  have hgrow := s.sessions.grows_appendTo buffer data
  have hfiled : Store.Grow (filed sessionId _ []) (filed sessionId _ []) := filed_grow hgrow []
  have hbuffers (sessionClone : PtySession) : ∃ more,
      (s.sessions.appendTo buffer data).buffers sessionClone.outputBuffer =
        s.sessions.buffers sessionClone.outputBuffer ++ more := by
    by_cases hb : sessionClone.outputBuffer = buffer
    · exact ⟨data,by simp [Sessions.appendTo,Sessions.setBuffer,hb]⟩
    · exact ⟨[],by simp [Sessions.appendTo,Sessions.setBuffer,hb]⟩
  have hphase : (s.step sessionId (.append buffer data)).phase = s.phase := rfl
  have hsessions : (s.step sessionId (.append buffer data)).sessions = s.sessions.appendTo buffer data := rfl
  have hmap : (s.sessions.appendTo buffer data).map = s.sessions.map := rfl
  unfold Follows at h ⊢
  rw [hphase,hsessions,hmap]
  cases hp : s.phase <;> rw [hp] at h
  case ready => exact h.trans hgrow
  case cloned => exact ⟨h.1.trans hgrow,h.2⟩
  case measured sessionClone outputHalfSize =>
    obtain ⟨hfirst,hclone,hhalf⟩ := h
    obtain ⟨more,hmore⟩ := hbuffers sessionClone
    refine ⟨hfirst.trans hgrow,hclone,?_⟩
    simp only [hmore,List.length_append]
    omega
  case firstHalf sessionClone outputHalfSize output1 =>
    obtain ⟨hfirst,hclone,hhalf,houtput⟩ := h
    obtain ⟨more,hmore⟩ := hbuffers sessionClone
    refine ⟨hfirst.trans hgrow,hclone,?_,?_⟩
    · simp only [hmore,List.length_append]
      omega
    · rw [hmore,List.take_append_of_le_length (by omega),houtput]
  case bothHalves => exact ⟨h.1,h.2.imp fun store hs => ⟨hs.1,hs.2.trans hfiled⟩⟩
  case scanned | oneFiled | bothFiled => exact h.imp fun store hs => ⟨hs.1,hs.2.1,hs.2.2.trans hfiled⟩
  case returned =>
    obtain ⟨hb,copy,store,hcut,hnext,hlast⟩ := h
    exact ⟨hb,copy,store,hcut,hnext,hlast.trans hgrow⟩
  case notFound => exact ⟨h.1,h.2.trans hgrow⟩
  case panicked => exact h

theorem nextId_scan {copy : SplitCopy} (hcut : Cut sessionId first copy store)
    (hlive : s.sessions.map[sessionId]? = some copy.sessionClone)
    (hgrow : Store.Grow (filed sessionId store []) (filed sessionId s.sessions.session? [])) :
    store.NextId ((s.sessions.map.keys.max?.getD 0)+1) := by
  have hmem : sessionId ∈ s.sessions.map := by simp [ExtTreeMap.mem_iff_isSome_getElem?,hlive]
  obtain ⟨top,hmax⟩ := Registry.max?_of_mem hmem
  rw [hmax,Option.getD_some]
  refine (s.sessions.nextId_of_max hmax).congr fun x => ?_
  by_cases hx : x = sessionId
  · rw [hx,hcut.buffers,(Sessions.session?_isSome _ _).mpr hmem]
    rfl
  · have hsome := hgrow.isSome x
    simpa [filed,hx] using hsome.symm

theorem follows_split (h : s.Follows sessionId first) : (s.step sessionId .split).Follows sessionId first := by
  have hstep : s.step sessionId .split = s.splitStep sessionId := rfl
  rw [hstep]
  unfold Follows at h
  unfold splitStep
  cases hp : s.phase <;> rw [hp] at h
  case ready =>
    cases hclone : s.sessions.map[sessionId]? with
    | some sessionClone => exact ⟨h,hclone⟩
    | none =>
      refine ⟨?_,h⟩
      have hnone : s.sessions.session? sessionId = none := by simp [Sessions.session?,hclone]
      have hsome := h.isSome sessionId
      rw [hnone] at hsome
      simpa using hsome.symm
  case cloned sessionClone => exact ⟨h.1,h.2,le_rfl⟩
  case measured sessionClone outputHalfSize =>
    obtain ⟨hfirst,hclone,hhalf⟩ := h
    simp only [show outputHalfSize ≤ (s.sessions.buffers sessionClone.outputBuffer).length by omega,if_true]
    exact ⟨hfirst,hclone,hhalf,rfl⟩
  case firstHalf sessionClone outputHalfSize output1 =>
    obtain ⟨hfirst,hclone,hhalf,rfl⟩ := h
    simp only [show outputHalfSize ≤ (s.sessions.buffers sessionClone.outputBuffer).length by omega,if_true]
    refine ⟨hclone,_,⟨hfirst,?_,?_⟩,.refl⟩
    · simp [Sessions.session?,hclone]
    · simp only [List.take_append_drop,List.length_take]
      omega
  case bothHalves copy =>
    obtain ⟨hlive,store,hcut,hgrow⟩ := h
    exact ⟨store,hcut,nextId_scan hcut hlive hgrow,hgrow⟩
  case scanned copy a =>
    obtain ⟨store,hcut,hnext,hgrow⟩ := h
    refine ⟨store,hcut,hnext,?_⟩
    rw [Sessions.view_insertNew]
    exact filed_insert hgrow a (copy.input1,copy.output1)
  case oneFiled copy a =>
    obtain ⟨store,hcut,hnext,hgrow⟩ := h
    refine ⟨store,hcut,hnext,?_⟩
    rw [Sessions.view_insertNew]
    exact filed_insert hgrow (a+1) (copy.input2,copy.output2)
  case bothFiled copy a =>
    obtain ⟨store,hcut,hnext,hgrow⟩ := h
    refine ⟨rfl,copy,store,hcut,hnext,?_⟩
    rw [Sessions.view_erase]
    exact hgrow
  case returned a b => simpa only [Follows,hp] using h
  case notFound => simpa only [Follows,hp] using h
  case panicked => exact h.elim

theorem follows_run (events : List SplitEvent) (h : s.Follows sessionId first)
    (hevents : ∀ event ∈ events, event.Background) : (s.run sessionId events).Follows sessionId first := by
  induction events generalizing s with
  | nil => exact h
  | cons event events ih =>
    refine ih ?_ fun later hlater => hevents later (.tail _ hlater)
    cases event with
    | split => exact follows_split h
    | append buffer data => exact follows_append h buffer data
    | read | send => exact (hevents _ List.mem_cons_self).elim

/-- The outcome of a split while the background task appends: its result and the table it leaves. -/
def Ends (sessionId : UInt32) (m : Sessions) (res : Except String (UInt32 × UInt32)) (m' : Sessions) : Prop :=
  ∃ events, (∀ event ∈ events, SplitEvent.Background event) ∧
    m' = ((start sessionId m).run sessionId events).sessions ∧
    ((∃ a b, ((start sessionId m).run sessionId events).phase = .returned a b ∧ res = .ok (a,b)) ∨
      ((start sessionId m).run sessionId events).phase = .notFound ∧ res = .error (Sessions.notFound sessionId))

theorem splitSession_call {m m' : Sessions} {res : Except String (UInt32 × UInt32)}
    (h : Ends sessionId m res m') : ∃ first last, Store.Grow m.session? first ∧
      first.Call (.splitSession sessionId) res last ∧ Store.Grow last m'.session? := by
  obtain ⟨events,hevents,rfl,hphase⟩ := h
  have hfollows : ((start sessionId m).run sessionId events).Follows sessionId m.session? :=
    follows_run events .refl hevents
  unfold Follows at hfollows
  rcases hphase with ⟨a,b,hreturned,rfl⟩ | ⟨hnotFound,rfl⟩
  · rw [hreturned] at hfollows
    obtain ⟨rfl,copy,store,hcut,hnext,hlast⟩ := hfollows
    refine ⟨store,_,hcut.grow,.inr ⟨_,_,copy.output1.length,a,hcut.buffers,hcut.half,hnext,rfl,?_⟩,hlast⟩
    rw [List.take_left,List.drop_left]
    rfl
  · rw [hnotFound] at hfollows
    exact ⟨_,_,.refl,.inl ⟨hfollows.1,rfl,rfl⟩,hfollows.2⟩

end Splitting

/-! ### The table behind the handle -/

/-- The merge has nothing to wait for. -/
def TableCall.Returns (m : Sessions) : TableCall → Prop
  | .mergeSessions sessionIds => LockEvent.NeverWaitsForItself (m.mergeSessions sessionIds).2.events
  | _ => True

/-- A call of the handler while the background task appends to the output buffers. Two methods lock
buffers more than once, the other ones are over in one step. -/
def Sessions.Calls (m : Sessions) : (call : TableCall) → Except String call.Value → Sessions → Prop
  | .readAllSessions,res,m' => ∃ (order : HashOrder UInt32 PtySession) (result : List (UInt32 × Bytes)),
    Sessions.ReadsAll (order.entries m.map) m result m' ∧ res = .ok result
  | .splitSession sessionId,res,m' => Splitting.Ends sessionId m res m'
  | call,res,m' => ∃ order, call.Returns m ∧ res = (call.outcome order m).1 ∧ m' = (call.outcome order m).2

/-- The table as the handler finds it. The system may answer anything. -/
def tableEnvironment : Environment Call Call.Res Sessions where
  answers m
    | .table call,res,m' => m.Calls call res m'
    | _,_,m' => m' = m
  changes m m' := ∃ buffer data, m' = m.appendTo buffer data

/-- The map as the callers think of it. Output of the process may arrive at any session. -/
def storeEnvironment : Environment Call Call.Res Store where
  answers store
    | .table call,res,store' => store.Call call res store'
    | _,_,store' => store' = store
  changes := Store.Grows

namespace Sessions

variable {m m' : Sessions}

/-- A merge that returns has failed. -/
theorem mergeSessions_call {sessionIds : List UInt32}
    (h : LockEvent.NeverWaitsForItself (m.mergeSessions sessionIds).2.events) :
    Store.Call m.session? (.mergeSessions sessionIds) (m.mergeSessions sessionIds).1
      (m.mergeSessions sessionIds).2.sessions.session? := by
  have hdead := (mergeSessions_neverWaits_iff m sessionIds).mp h
  cases sessionIds with
  | nil => exact ⟨rfl,rfl⟩
  | cons primarySessionId rest =>
    have hprimary := hdead primarySessionId rest rfl
    simp only [Sessions.mergeSessions,ExtTreeMap.getElem?_eq_none hprimary]
    exact ⟨session?_eq_none.mpr hprimary,rfl,rfl⟩

/-- A call of the handler is a call of the map, with output that arrives before and after it. -/
theorem Calls.call {call : TableCall} {res : Except String call.Value} (h : m.Calls call res m') :
    ∃ first last, Store.Grow m.session? first ∧ first.Call call res last ∧ Store.Grow last m'.session? := by
  have hatonce {call : TableCall} {res : Except String call.Value} {store : Store}
      (hcall : Store.Call m.session? call res store) : ∃ first last, Store.Grow m.session? first ∧
        first.Call call res last ∧ Store.Grow last store := ⟨_,_,.refl,hcall,.refl⟩
  cases call with
  | readAllSessions =>
    obtain ⟨order,result,hreads,rfl⟩ := h
    obtain ⟨first,hfirst,hcall,hlast⟩ := m.readAllSessions_call hreads
    exact ⟨first,first,hfirst,hcall,hlast⟩
  | splitSession sessionId => exact Splitting.splitSession_call h
  | createSession =>
    obtain ⟨order,-,rfl,rfl⟩ := h
    exact hatonce m.createSession_call
  | removeSession sessionId =>
    obtain ⟨order,-,rfl,rfl⟩ := h
    exact hatonce m.removeSession_call
  | sendToSession sessionId data =>
    obtain ⟨order,-,rfl,rfl⟩ := h
    exact hatonce (m.sendToSession_call data)
  | broadcast data =>
    obtain ⟨order,-,rfl,rfl⟩ := h
    exact hatonce ⟨rfl,funext fun x => session?_modifyInputs m x _⟩
  | readFromSession sessionId =>
    obtain ⟨order,-,rfl,rfl⟩ := h
    exact hatonce m.readFromSession_call
  | mergeSessions sessionIds =>
    obtain ⟨order,hreturns,rfl,rfl⟩ := h
    exact hatonce (mergeSessions_call hreturns)
  | closeAllSessions =>
    obtain ⟨order,-,rfl,rfl⟩ := h
    exact hatonce ⟨rfl,funext fun x => session?_clear m x⟩
  | listSessions =>
    obtain ⟨order,-,rfl,rfl⟩ := h
    exact hatonce (listSessions_call _ order)

theorem tableEnvironment_simulates : tableEnvironment.Simulates storeEnvironment session? where
  answers {m op res m'} h := by
    cases op with
    | sys call | send responder result =>
      obtain rfl := h
      exact ⟨_,_,.refl,rfl,.refl⟩
    | table call => exact Calls.call h
  changes {m m'} h := by
    obtain ⟨buffer,data,rfl⟩ := h
    exact m.grows_appendTo buffer data

end Sessions

namespace CommandHandler

variable {multiplexer : Option PtyMultiplexer} {slot : Slot} {m : Sessions}
  {state : Service.State Call Call.Res Slot PtyCommand PtyResult Sessions}

/-- What any number of clients see of the sessions through the handle, while the background task gives
out what it has read, is what one after the other would see of a map from ids to inputs and outputs. -/
theorem history_refines (h : (service multiplexer).Reachable tableEnvironment slot m state) :
    (service multiplexer).Linearizes storeEnvironment slot m.session? state.history state.accepted state.log :=
  (h.linearizes (service_answersOnce multiplexer)).view Sessions.tableEnvironment_simulates

/-- A session is created, output arrives at it, and only then the caller gets its id. -/
theorem history_refines_created :
    let created : PtyResult := .success "Session ID: 1"
    let history : List (Occurrence PtyCommand PtyResult) := [.called (.createSession 0),.returned 0 (.reply created)]
    let log : Trace := [⟨.table .createSession,(.ok 1 : Except String UInt32)⟩,⟨.send 0 created,()⟩]
    (service (some ⟨⟨5,42,"sh"⟩⟩)).Linearizes storeEnvironment none Sessions.empty.session? history
      [.createSession 0] log := by
  intro created history log
  let own : Option PtyMultiplexer := some ⟨⟨5,42,"sh"⟩⟩
  let m : Sessions := Sessions.empty.createSession.2
  have hid : Sessions.empty.createSession.1 = .ok 1 := by decide
  have hcalled : (service own).Reachable tableEnvironment none Sessions.empty
      ⟨[],.idle none,.empty,[.called (.createSession 0)],[],[]⟩ :=
    .tail .refl (.call (PtyCommand.createSession 0) (by simp [Service.start]))
  have hsubmitted : (service own).Reachable tableEnvironment none Sessions.empty
      ⟨[.createSession 0],.idle none,.empty,[.called (.createSession 0)],[.createSession 0],[]⟩ :=
    hcalled.tail (.submit ⟨by simp,by simp,by simp [Service.State.Returned]⟩ (by simp) (by simp [service]))
  have htaken : (service own).Reachable tableEnvironment none Sessions.empty ⟨[],
      .busy (.createSession 0) ((service own).serve none (.createSession 0)),.empty,
      [.called (.createSession 0)],[.createSession 0],[]⟩ := hsubmitted.tail (.take rfl rfl)
  obtain ⟨next,hserve,hnext⟩ : ∃ next, (service own).serve none (.createSession 0) =
      .call (.table .createSession) next ∧ next (.ok 1) = .call (.send 0 created) fun _ => .pure none :=
    ⟨_,rfl,rfl⟩
  have hcreate : tableEnvironment.answers .empty (.table .createSession) (.ok 1) m :=
    ⟨.sorted,trivial,hid.symm,rfl⟩
  have hcreated : (service own).Reachable tableEnvironment none Sessions.empty ⟨[],
      .busy (.createSession 0) (next (.ok 1)),m,[.called (.createSession 0)],[.createSession 0],
      [⟨.table .createSession,(.ok 1 : Except String UInt32)⟩]⟩ :=
    htaken.tail (@Service.Step.operate _ _ _ _ _ _ (service own) tableEnvironment _ (.createSession 0)
      (.table .createSession) next (.ok 1) m (congrArg _ hserve) hcreate)
  rw [hnext] at hcreated
  have happended : (service own).Reachable tableEnvironment none Sessions.empty ⟨[],
      .busy (.createSession 0) (.call (.send 0 created) fun _ => .pure none),m.appendTo 0 [108],
      [.called (.createSession 0)],[.createSession 0],
      [⟨.table .createSession,(.ok 1 : Except String UInt32)⟩]⟩ :=
    hcreated.tail (.change ⟨0,[108],rfl⟩)
  have hanswered : (service own).Reachable tableEnvironment none Sessions.empty ⟨[],
      .busy (.createSession 0) (.pure none),m.appendTo 0 [108],
      [.called (.createSession 0)],[.createSession 0],log⟩ :=
    happended.tail (@Service.Step.operate _ _ _ _ _ _ (service own) tableEnvironment _ (.createSession 0)
      (.send 0 created) (fun _ => .pure none) () _ rfl rfl)
  have hreturned : (service own).Reachable tableEnvironment none Sessions.empty ⟨[],
      .busy (.createSession 0) (.pure none),m.appendTo 0 [108],history,[.createSession 0],log⟩ :=
    hanswered.tail (@Service.Step.receive _ _ _ _ _ _ (service own) tableEnvironment _ (.createSession 0) created
      ⟨by simp,by simp [Service.State.Returned]⟩ (List.mem_singleton_self _))
  exact history_refines hreturned

end CommandHandler
end NodeRustPty
