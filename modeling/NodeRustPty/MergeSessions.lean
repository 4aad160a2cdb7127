import NodeRustPty.Multiplexer
import NodeRustPty.Locks

/-! `merge_sessions`, with every acquisition of an output buffer's mutex taken as
immediate and written to a trace. -/
namespace NodeRustPty

open Std

/-- The session table in the middle of a method that takes locks. -/
structure Locked where
  sessions : Sessions
  events : List (LockEvent ℕ)

namespace Locked

def acquire (s : Locked) (buffer : ℕ) : Locked := { s with events := s.events ++ [.acquire buffer] }

def release (s : Locked) (buffer : ℕ) : Locked := { s with events := s.events ++ [.release buffer] }

def update (s : Locked) (f : Sessions → Sessions) : Locked := { s with sessions := f s.sessions }

end Locked

namespace Sessions

/-- The sessions of the tail leave the map in turn, dead ids are skipped. -/
def takeSessions (m : Sessions) : List UInt32 → List (UInt32 × PtySession) × Sessions
  | [] => ([],m)
  | sessionId::rest =>
    match m.map[sessionId]? with
    | some session =>
      let taken := takeSessions (m.erase sessionId) rest
      ((sessionId,session)::taken.1,taken.2)
    | none => takeSessions m rest

/-- One round of the merging loop. The extended copy of the primary input is dropped at the
end of the round, and both guards live until then. -/
def mergeInto (primarySession : PtySession) (s : Locked) (entry : UInt32 × PtySession) : Locked :=
  let session := entry.2
  let _primaryInput := primarySession.inputBuffer ++ session.inputBuffer
  let s := s.acquire primarySession.outputBuffer
  let s := s.acquire session.outputBuffer
  let sessionOutput := s.sessions.buffers session.outputBuffer
  let s := s.update fun m => m.setBuffer primarySession.outputBuffer
    (m.buffers primarySession.outputBuffer ++ sessionOutput)
  let s := s.release session.outputBuffer
  s.release primarySession.outputBuffer

/-- The final write-back to the map entry, when the primary session still has one. -/
def writeBack (primarySessionId : UInt32) (primarySession : PtySession) (s : Locked) : Locked :=
  match s.sessions.map[primarySessionId]? with
  | none => s
  | some updatedPrimary =>
    let s := s.update fun m => m.modifyInput primarySessionId fun _ => primarySession.inputBuffer
    let s := s.acquire updatedPrimary.outputBuffer
    let s := s.acquire primarySession.outputBuffer
    let s := s.update fun m =>
      m.setBuffer updatedPrimary.outputBuffer (m.buffers primarySession.outputBuffer)
    let s := s.release primarySession.outputBuffer
    s.release updatedPrimary.outputBuffer

def mergeSessions (m : Sessions) (sessionIds : List UInt32) : Except String Unit × Locked :=
  match sessionIds with
  | [] => (.error "No session IDs provided for merging",⟨m,[]⟩)
  | primarySessionId::rest =>
    match m.map[primarySessionId]? with
    | none => (.error s!"Primary session ID {primarySessionId} not found",⟨m,[]⟩)
    | some primarySession =>
      let taken := m.takeSessions rest
      let merged := taken.1.foldl (mergeInto primarySession) ⟨taken.2,[]⟩
      (.ok (),writeBack primarySessionId primarySession merged)

/-! ### Taking the tail out of the map -/

/-- The distinct live ids of a list in order of first occurrence. -/
def liveIds (m : Sessions) (ids : List UInt32) : List UInt32 :=
  (ids.filter fun id => id ∈ m.map).eraseDups

theorem liveIds_cons_live {m : Sessions} {id : UInt32} (h : id ∈ m.map) (ids : List UInt32) :
    m.liveIds (id::ids) = id::(m.erase id).liveIds ids := by
  unfold liveIds
  rw [List.filter_cons_of_pos (by simpa using h),List.eraseDups_cons,List.filter_filter]
  congr 2
  apply List.filter_congr
  intro x _
  rw [map_erase]
  by_cases hx : x = id
  · simp [hx]
  · have hne : ¬compare id x = .eq := fun e => hx (LawfulEqCmp.eq_of_compare e).symm
    simp [hx,hne]

theorem liveIds_cons_dead {m : Sessions} {id : UInt32} (h : id ∉ m.map) (ids : List UInt32) :
    m.liveIds (id::ids) = m.liveIds ids := by
  unfold liveIds
  rw [List.filter_cons_of_neg (by simpa using h)]

theorem liveIds_erase {m : Sessions} {id : UInt32} {ids : List UInt32} (h : id ∉ ids) :
    (m.erase id).liveIds ids = m.liveIds ids := by
  unfold liveIds
  congr 1
  apply List.filter_congr
  intro x hx
  have hne : ¬compare id x = .eq := fun e => h (LawfulEqCmp.eq_of_compare e ▸ hx)
  simp [hne]

theorem takeSessions_fst (m : Sessions) (ids : List UInt32) :
    (m.takeSessions ids).1.map Prod.fst = m.liveIds ids := by
  induction ids generalizing m with
  | nil => rfl
  | cons id ids ih =>
    cases h : m.map[id]? with
    | none =>
      have hd : id ∉ m.map := by simp [ExtTreeMap.mem_iff_isSome_getElem?,h]
      simp only [takeSessions,h,liveIds_cons_dead hd,ih]
    | some session =>
      have hl : id ∈ m.map := by simp [ExtTreeMap.mem_iff_isSome_getElem?,h]
      simp only [takeSessions,h,liveIds_cons_live hl,List.map_cons,ih]

theorem takeSessions_entry {m : Sessions} {ids : List UInt32} {entry : UInt32 × PtySession}
    (h : entry ∈ (m.takeSessions ids).1) : m.map[entry.1]? = some entry.2 := by
  induction ids generalizing m with
  | nil => simp [takeSessions] at h
  | cons id ids ih =>
    cases hm : m.map[id]? with
    | none =>
      simp only [takeSessions,hm] at h
      exact ih h
    | some session =>
      simp only [takeSessions,hm,List.mem_cons] at h
      rcases h with rfl | h
      · exact hm
      · have he := ih h
        rw [map_erase,getElem?_erase_if] at he
        split at he
        · simp at he
        · exact he

theorem takeSessions_snd (m : Sessions) (ids : List UInt32) :
    (m.takeSessions ids).2.buffers = m.buffers ∧
      ∀ x, (m.takeSessions ids).2.map[x]? = if x ∈ ids then none else m.map[x]? := by
  induction ids generalizing m with
  | nil => simp [takeSessions]
  | cons id ids ih =>
    cases hm : m.map[id]? with
    | none =>
      simp only [takeSessions,hm]
      obtain ⟨hb,hx⟩ := ih m
      refine ⟨hb,fun x => ?_⟩
      rw [hx]
      by_cases he : x = id
      · simp [he,hm]
      · simp [he]
    | some session =>
      simp only [takeSessions,hm]
      obtain ⟨hb,hx⟩ := ih (m.erase id)
      refine ⟨hb,fun x => ?_⟩
      rw [hx,map_erase,getElem?_erase_if]
      by_cases he : x = id <;> simp [he]

/-! ### The merging loop -/

theorem mergeInto_map (primarySession : PtySession) (entries : List (UInt32 × PtySession)) (s : Locked) :
    (entries.foldl (mergeInto primarySession) s).sessions.map = s.sessions.map := by
  induction entries generalizing s with
  | nil => rfl
  | cons entry entries ih => exact ih _

/-- The outputs are appended in turn, as long as none of them is the primary buffer itself. -/
theorem mergeInto_buffers {primarySession : PtySession} {entries : List (UInt32 × PtySession)}
    (h : ∀ entry ∈ entries, entry.2.outputBuffer ≠ primarySession.outputBuffer) (s : Locked) :
    (entries.foldl (mergeInto primarySession) s).sessions.buffers =
      Function.update s.sessions.buffers primarySession.outputBuffer
        (s.sessions.buffers primarySession.outputBuffer ++
          entries.flatMap fun entry => s.sessions.buffers entry.2.outputBuffer) := by
  induction entries generalizing s with
  | nil => simp
  | cons entry entries ih =>
    have hrest (e : UInt32 × PtySession) (he : e ∈ entries) :
        e.2.outputBuffer ≠ primarySession.outputBuffer := h e (List.mem_cons_of_mem _ he)
    rw [List.foldl_cons,ih hrest]
    have hb : (mergeInto primarySession s entry).sessions.buffers =
        Function.update s.sessions.buffers primarySession.outputBuffer
          (s.sessions.buffers primarySession.outputBuffer ++ s.sessions.buffers entry.2.outputBuffer) := rfl
    have he : entries.flatMap (fun e => (mergeInto primarySession s entry).sessions.buffers e.2.outputBuffer) =
        entries.flatMap fun e => s.sessions.buffers e.2.outputBuffer := by
      refine List.flatMap_congr fun e he => ?_
      rw [hb,Function.update_of_ne (hrest e he)]
    rw [he,hb,Function.update_idem,Function.update_self,List.flatMap_cons,List.append_assoc]

/-- Every round takes the primary lock, then the lock of the session merged into it. -/
def roundEvents (primarySession : PtySession) (entry : UInt32 × PtySession) : List (LockEvent ℕ) :=
  [.acquire primarySession.outputBuffer,.acquire entry.2.outputBuffer,
    .release entry.2.outputBuffer,.release primarySession.outputBuffer]

theorem mergeInto_events (primarySession : PtySession) (entries : List (UInt32 × PtySession)) (s : Locked) :
    (entries.foldl (mergeInto primarySession) s).events =
      s.events ++ entries.flatMap (roundEvents primarySession) := by
  induction entries generalizing s with
  | nil => simp
  | cons entry entries ih =>
    rw [List.foldl_cons,ih]
    simp [roundEvents,mergeInto,Locked.acquire,Locked.release,Locked.update]

/-! ### The merged table -/

def inputOf (m : Sessions) (id : UInt32) : Bytes := ((m.session? id).map Prod.fst).getD []

def outputOf (m : Sessions) (id : UInt32) : Bytes := ((m.session? id).map Prod.snd).getD []

theorem inputOf_entry {m : Sessions} {id : UInt32} {session : PtySession} (h : m.map[id]? = some session) :
    m.inputOf id = session.inputBuffer := by
  simp [inputOf,session?,h]

theorem outputOf_entry {m : Sessions} {id : UInt32} {session : PtySession} (h : m.map[id]? = some session) :
    m.outputOf id = m.buffers session.outputBuffer := by
  simp [outputOf,session?,h]

/-- The outputs of the entries taken are those of the live ids of the tail. -/
theorem takeSessions_outputs (m : Sessions) (ids : List UInt32) :
    ((m.takeSessions ids).1.flatMap fun entry => m.buffers entry.2.outputBuffer) =
      (m.liveIds ids).flatMap m.outputOf := by
  rw [← takeSessions_fst,List.flatMap_map]
  refine List.flatMap_congr fun entry he => ?_
  rw [outputOf_entry (takeSessions_entry he)]

/-- With a live primary session that the tail does not repeat, the tail is gone, the primary
session keeps its input and gets all outputs, and the rest is unchanged. -/
theorem mergeSessions_session? {m : Sessions} {p : UInt32} {rest : List UInt32} {session : PtySession}
    (hp : m.map[p]? = some session) (hrest : p ∉ rest) (x : UInt32) :
    (m.mergeSessions (p::rest)).2.sessions.session? x =
      if x = p then some (session.inputBuffer,
        m.buffers session.outputBuffer ++ (m.liveIds rest).flatMap m.outputOf)
      else if x ∈ rest then none else m.session? x := by
  obtain ⟨hb,hm⟩ := takeSessions_snd m rest
  set merged := (m.takeSessions rest).1.foldl (mergeInto session) ⟨(m.takeSessions rest).2,[]⟩ with hmerged
  have hmap : merged.sessions.map = (m.takeSessions rest).2.map := mergeInto_map _ _ _
  have hne (entry : UInt32 × PtySession) (he : entry ∈ (m.takeSessions rest).1) :
      entry.2.outputBuffer ≠ session.outputBuffer := by
    intro e
    have hid := m.unshared (takeSessions_entry he) hp e
    have hmem : entry.1 ∈ m.liveIds rest := takeSessions_fst m rest ▸ List.mem_map_of_mem he
    have hin : entry.1 ∈ rest := by
      have h := List.mem_eraseDups.mp hmem
      exact (List.mem_filter.mp h).1
    exact hrest (hid ▸ hin)
  have hbuf : merged.sessions.buffers = Function.update m.buffers session.outputBuffer
      (m.buffers session.outputBuffer ++ (m.liveIds rest).flatMap m.outputOf) := by
    have h := mergeInto_buffers hne ⟨(m.takeSessions rest).2,[]⟩
    simp only [hb,takeSessions_outputs] at h
    exact h
  have hprimary : merged.sessions.map[p]? = some session := by
    rw [hmap,hm,if_neg hrest,hp]
  have hresult : (m.mergeSessions (p::rest)).2.sessions =
      (merged.sessions.modifyInput p fun _ => session.inputBuffer).setBuffer session.outputBuffer
        (merged.sessions.buffers session.outputBuffer) := by
    simp only [mergeSessions,hp,← hmerged,writeBack,hprimary]
    rfl
  have hentry : (merged.sessions.modifyInput p fun _ => session.inputBuffer).map[p]? = some session := by
    simp [modifyInput,withMap,hprimary]
  rw [hresult,session?_setBuffer _ p x hentry,session?_modifyInput]
  by_cases hx : x = p
  · simp [hx,hbuf]
  · simp only [hx,if_false]
    unfold session?
    rw [hmap,hm]
    by_cases hr : x ∈ rest
    · simp [hr]
    · rw [if_neg hr,if_neg hr]
      cases hxs : m.map[x]? with
      | none => rfl
      | some session' =>
        have hbx : session'.outputBuffer ≠ session.outputBuffer := fun e => hx (m.unshared hxs hp e)
        simp [hbuf,hbx]

/-- A primary session repeated in the tail leaves the map with it. -/
theorem mergeSessions_primary_gone {m : Sessions} {p : UInt32} {rest : List UInt32} {session : PtySession}
    (hp : m.map[p]? = some session) (hrest : p ∈ rest) :
    (m.mergeSessions (p::rest)).2.sessions.session? p = none := by
  obtain ⟨-,hm⟩ := takeSessions_snd m rest
  have hgone : ((m.takeSessions rest).1.foldl (mergeInto session)
      ⟨(m.takeSessions rest).2,[]⟩).sessions.map[p]? = none := by
    rw [mergeInto_map,hm,if_pos hrest]
  simp [mergeSessions,hp,writeBack,hgone,session?]

/-- What merging should do: an empty list or a dead first id is refused and changes nothing;
otherwise the first session is left with the inputs and outputs of all live ids of the list,
the other listed sessions are gone, and the rest is unchanged. -/
def MergesTo (m : Sessions) (ids : List UInt32) (result : Except String Unit) (m' : Sessions) : Prop :=
  match ids with
  | [] => (∃ e, result = .error e) ∧ ∀ x, m'.session? x = m.session? x
  | p::rest =>
    if p ∈ m.map then
      result = .ok () ∧
        m'.session? p = some ((m.liveIds ids).flatMap m.inputOf,(m.liveIds ids).flatMap m.outputOf) ∧
        (∀ x ∈ rest, x ≠ p → m'.session? x = none) ∧ ∀ x, x ∉ ids → m'.session? x = m.session? x
    else (∃ e, result = .error e) ∧ ∀ x, m'.session? x = m.session? x

/-- A live first id is not repeated, and no other live id has input to lose. -/
def Mergeable (m : Sessions) (ids : List UInt32) : Prop :=
  ∀ p rest, ids = p::rest → p ∈ m.map → p ∉ rest ∧ ∀ x ∈ rest, m.inputOf x = []

theorem mem_liveIds {m : Sessions} {ids : List UInt32} {x : UInt32} :
    x ∈ m.liveIds ids ↔ x ∈ ids ∧ x ∈ m.map := by
  rw [liveIds,List.mem_eraseDups,List.mem_filter]
  simp

/-- `merge_sessions` does what it should exactly on the mergeable lists. -/
theorem mergeSessions_mergesTo_iff (m : Sessions) (ids : List UInt32) :
    m.MergesTo ids (m.mergeSessions ids).1 (m.mergeSessions ids).2.sessions ↔ m.Mergeable ids := by
  cases ids with
  | nil => simp [MergesTo,Mergeable,mergeSessions]
  | cons p rest =>
    cases hp : m.map[p]? with
    | none =>
      have hd : p ∉ m.map := by simp [ExtTreeMap.mem_iff_isSome_getElem?,hp]
      have hm : m.Mergeable (p::rest) := by
        intro q _ e hq
        cases e
        exact absurd hq hd
      simp [MergesTo,hd,mergeSessions,hm]
    | some session =>
      have hl : p ∈ m.map := by simp [ExtTreeMap.mem_iff_isSome_getElem?,hp]
      have hok : (m.mergeSessions (p::rest)).1 = .ok () := by simp [mergeSessions,hp]
      by_cases hrest : p ∈ rest
      · have hg := mergeSessions_primary_gone hp hrest
        simp only [MergesTo,hl,if_true,hg]
        refine ⟨fun h => by simp at h,fun h => absurd hrest (h p rest rfl hl).1⟩
      · have hs := mergeSessions_session? hp hrest
        have hlive : m.liveIds (p::rest) = p::m.liveIds rest := by
          rw [liveIds_cons_live hl,liveIds_erase hrest]
        simp only [MergesTo,hl,if_true,hok,hs,hlive,List.flatMap_cons,inputOf_entry hp,
          outputOf_entry hp,true_and,Option.some.injEq,Prod.mk.injEq,List.self_eq_append_right,
          List.flatMap_eq_nil_iff]
        constructor
        · rintro ⟨⟨hinput,-⟩,-⟩ q rest' e -
          cases e
          refine ⟨hrest,fun x hx => ?_⟩
          by_cases hxl : x ∈ m.map
          · exact hinput x (mem_liveIds.mpr ⟨hx,hxl⟩)
          · simp [inputOf,session?,ExtTreeMap.getElem?_eq_none hxl]
        · intro h
          obtain ⟨-,hinput⟩ := h p rest rfl hl
          refine ⟨⟨fun x hx => hinput x (mem_liveIds.mp hx).1,trivial⟩,?_,?_⟩
          · intro x hx hne
            simp [hne,hx]
          · intro x hx
            rw [List.mem_cons,not_or] at hx
            simp [hx.1,hx.2]

/-- Two sessions, of which the second has input. -/
def typedInto : Sessions := ((empty.createSession.2.createSession.2).sendToSession 2 [108,115]).2

/-- Merging the two keeps the empty input of the first. -/
theorem mergeSessions_drops_input : typedInto.session? 2 = some ([108,115],[]) ∧
    ¬typedInto.MergesTo [1,2] (typedInto.mergeSessions [1,2]).1
      (typedInto.mergeSessions [1,2]).2.sessions := by
  refine ⟨by decide,fun h => ?_⟩
  have hl : 1 ∈ typedInto.map := by decide
  simp only [MergesTo,hl,if_true] at h
  have hp := h.2.1
  revert hp
  decide

/-! ### The locks of a merge -/

/-- The entries taken hold the primary session itself when the tail repeats its id. -/
theorem takeSessions_mem {m : Sessions} {p : UInt32} {rest : List UInt32} {session : PtySession}
    (hp : m.map[p]? = some session) (hrest : p ∈ rest) : (p,session) ∈ (m.takeSessions rest).1 := by
  have hl : p ∈ m.liveIds rest := mem_liveIds.mpr
    ⟨hrest,by simp [ExtTreeMap.mem_iff_isSome_getElem?,hp]⟩
  rw [← takeSessions_fst] at hl
  obtain ⟨entry,he,rfl⟩ := List.mem_map.mp hl
  have hs := takeSessions_entry he
  rw [hp,Option.some.injEq] at hs
  exact hs ▸ he

/-- A merge takes no lock twice exactly when it fails its checks: a live primary session is
locked through two clones at once, in the loop or at the latest in the write-back. -/
theorem mergeSessions_neverWaits_iff (m : Sessions) (ids : List UInt32) :
    LockEvent.NeverWaitsForItself (m.mergeSessions ids).2.events ↔
      ∀ p rest, ids = p::rest → p ∉ m.map := by
  cases ids with
  | nil => simp [mergeSessions,LockEvent.neverWaitsForItself_nil]
  | cons p rest =>
    cases hp : m.map[p]? with
    | none =>
      have hd : p ∉ m.map := by simp [ExtTreeMap.mem_iff_isSome_getElem?,hp]
      simp [mergeSessions,hd,LockEvent.neverWaitsForItself_nil]
    | some session =>
      have hl : p ∈ m.map := by simp [ExtTreeMap.mem_iff_isSome_getElem?,hp]
      refine iff_of_false ?_ fun h => h p rest rfl hl
      apply LockEvent.not_neverWaitsForItself session.outputBuffer
      obtain ⟨-,hm⟩ := takeSessions_snd m rest
      set merged := (m.takeSessions rest).1.foldl (mergeInto session) ⟨(m.takeSessions rest).2,[]⟩ with hmerged
      have hevents : merged.events = (m.takeSessions rest).1.flatMap (roundEvents session) :=
        mergeInto_events _ _ _
      have hentry : merged.sessions.map[p]? = if p ∈ rest then none else some session := by
        rw [hmerged,mergeInto_map,hm,hp]
      by_cases hrest : p ∈ rest
      · rw [if_pos hrest] at hentry
        have hround : roundEvents session (p,session) <:+: merged.events := by
          rw [hevents,List.flatMap_def]
          exact List.infix_of_mem_flatten (List.mem_map_of_mem (takeSessions_mem hp hrest))
        simp only [mergeSessions,hp,← hmerged,writeBack,hentry]
        exact List.IsInfix.trans ⟨[],_,rfl⟩ hround
      · rw [if_neg hrest] at hentry
        simp only [mergeSessions,hp,← hmerged,writeBack,hentry]
        exact ⟨merged.events,[.release session.outputBuffer,.release session.outputBuffer],by
          simp [Locked.acquire,Locked.release,Locked.update]⟩

/-- Merging a single live session into itself already blocks. -/
theorem mergeSessions_waits : ¬LockEvent.NeverWaitsForItself
    (empty.createSession.2.mergeSessions [1]).2.events :=
  LockEvent.not_neverWaitsForItself 0
    ⟨[],[.release 0,.release 0],by decide⟩

end Sessions
end NodeRustPty
