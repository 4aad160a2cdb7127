import NodeRustPty.HashOrder
import NodeRustPty.PtyHandle

/-! `State` of `virtual_dom/state.rs`: a value, its listeners, and which of them hear of a new
value when a call fails. -/
namespace NodeRustPty
namespace VirtualDom

open Std

/-- What a threadsafe function answers, `Ok` or another of the statuses of napi by its name. -/
inductive TsfnStatus
  | ok
  | failed (name : String)
  deriving DecidableEq

def TsfnStatus.debug : TsfnStatus → String
  | .ok => "Ok"
  | .failed name => name

/-- A value of JavaScript, as its coercion to a string comes out; an error by its text. -/
abbrev Unknown := Except String String

structure State (Tsfn : Type) where
  value : Option String
  listeners : ExtTreeMap UInt32 Tsfn
  nextListenerId : UInt32

/-- A threadsafe function that was called, and the listener it is under. -/
structure TsfnCall (Tsfn : Type) where
  id : UInt32
  tsfn : Tsfn
  value : String
  deriving DecidableEq

namespace State

variable {Tsfn : Type}

def unknownToString (unknown : Unknown) : Except NapiError String :=
  unknown.mapError fun e => ⟨.genericFailure,"Serialization Error: " ++ e⟩

def new (initial : Unknown) : Except NapiError (State Tsfn) :=
  (unknownToString initial).map fun value => ⟨some value,∅,0⟩

def get (s : State Tsfn) : Except NapiError String :=
  match s.value with
  | some value => .ok value
  | none => .error ⟨.genericFailure,"State value is not set."⟩

/-- The listener is the function that napi made of the callback. -/
def subscribe (s : State Tsfn) (tsfn : Tsfn) : State Tsfn × UInt32 :=
  ({ s with nextListenerId := s.nextListenerId+1,listeners := s.listeners.insert s.nextListenerId tsfn },s.nextListenerId)

def unsubscribe (s : State Tsfn) (id : UInt32) : State Tsfn := { s with listeners := s.listeners.erase id }

/-- The loop over the listeners. It returns at the first call that is not `Ok`. -/
def callListeners (status : UInt32 → TsfnStatus) (value : String) :
    List (UInt32 × Tsfn) → List (TsfnCall Tsfn) × Except NapiError Unit
  | [] => ([],.ok ())
  | (id,tsfn)::listeners =>
    if status id ≠ .ok then
      ([⟨id,tsfn,value⟩],.error ⟨.genericFailure,"Failed to call threadsafe function: " ++ (status id).debug⟩)
    else
      let (calls,result) := callListeners status value listeners
      (⟨id,tsfn,value⟩::calls,result)

def notifyListeners (order : HashOrder UInt32 Tsfn) (status : UInt32 → TsfnStatus) (s : State Tsfn) :
    List (TsfnCall Tsfn) × Except NapiError Unit :=
  match s.value with
  | some value => callListeners status value (order.entries s.listeners)
  | none => ([],.error ⟨.genericFailure,"State value is not set."⟩)

/-- The state, the calls and what `set` returns. -/
structure Outcome (Tsfn : Type) where
  state : State Tsfn
  calls : List (TsfnCall Tsfn)
  result : Except NapiError Unit

def set (order : HashOrder UInt32 Tsfn) (status : UInt32 → TsfnStatus) (s : State Tsfn) (newValue : Unknown) :
    Outcome Tsfn :=
  match unknownToString newValue with
  | .error e => ⟨s,[],.error e⟩
  | .ok value =>
    let s := { s with value := some value }
    let (calls,result) := s.notifyListeners order status
    ⟨s,calls,result⟩

/-! ### The listeners -/

def callOf (value : String) (listener : UInt32 × Tsfn) : TsfnCall Tsfn := ⟨listener.1,listener.2,value⟩

theorem subscribe_listeners (s : State Tsfn) (tsfn : Tsfn) (id : UInt32) :
    (s.subscribe tsfn).1.listeners[id]? = if id = (s.subscribe tsfn).2 then some tsfn else s.listeners[id]? :=
  getElem?_insert_if s.listeners _ id tsfn

theorem unsubscribe_listeners (s : State Tsfn) (gone id : UInt32) :
    (s.unsubscribe gone).listeners[id]? = if id = gone then none else s.listeners[id]? :=
  getElem?_erase_if s.listeners gone id

/-- Every listener is called once with the value, and a call that fails is reported. -/
structure Notifies (status : UInt32 → TsfnStatus) (s : State Tsfn) (value : String) (outcome : Outcome Tsfn) : Prop where
  stored : outcome.state = { s with value := some value }
  called : outcome.calls.Perm (s.listeners.toList.map (callOf value))
  reported : (∃ e, outcome.result = .error e) ↔ ∃ call ∈ outcome.calls, status call.id ≠ .ok

variable {status : UInt32 → TsfnStatus} {value : String} {listener : UInt32 × Tsfn} {listeners : List (UInt32 × Tsfn)}

theorem callListeners_failing (h : status listener.1 ≠ .ok) (listeners : List (UInt32 × Tsfn)) :
    callListeners status value (listener::listeners) = ([callOf value listener],
      .error ⟨.genericFailure,"Failed to call threadsafe function: " ++ (status listener.1).debug⟩) := by
  rw [callListeners,if_pos h]
  rfl

theorem callListeners_answered (h : status listener.1 = .ok) (listeners : List (UInt32 × Tsfn)) :
    callListeners status value (listener::listeners) =
      (callOf value listener::(callListeners status value listeners).1,(callListeners status value listeners).2) := by
  rw [callListeners,if_neg (not_not.mpr h)]
  rfl

theorem callListeners_calls (listeners : List (UInt32 × Tsfn)) :
    (callListeners status value listeners).1 <+: listeners.map (callOf value) := by
  induction listeners with
  | nil => exact List.prefix_refl _
  | cons listener listeners ih =>
    by_cases h : status listener.1 = .ok
    · rw [callListeners_answered h,List.map_cons]
      exact (List.prefix_cons_inj _).mpr ih
    · rw [callListeners_failing h,List.map_cons]
      exact ⟨_,rfl⟩

theorem callListeners_error_iff (listeners : List (UInt32 × Tsfn)) :
    (∃ e, (callListeners status value listeners).2 = .error e) ↔
      ∃ call ∈ (callListeners status value listeners).1, status call.id ≠ .ok := by
  induction listeners with
  | nil => exact ⟨nofun,nofun⟩
  | cons listener listeners ih =>
    by_cases h : status listener.1 = .ok
    · rw [callListeners_answered h,ih,List.exists_mem_cons_iff]
      exact (or_iff_right (not_not.mpr h)).symm
    · rw [callListeners_failing h]
      exact ⟨fun _ => ⟨_,List.mem_singleton_self _,h⟩,fun _ => ⟨_,rfl⟩⟩

/-- The loop gets to the end as long as no call before the last one fails. -/
theorem callListeners_complete_iff (listeners : List (UInt32 × Tsfn)) :
    (callListeners status value listeners).1 = listeners.map (callOf value) ↔
      ∀ listener ∈ listeners.dropLast, status listener.1 = .ok := by
  induction listeners with
  | nil => exact ⟨fun _ => nofun,fun _ => rfl⟩
  | cons listener listeners ih =>
    by_cases h : status listener.1 = .ok
    · rw [callListeners_answered h,List.map_cons,List.cons_inj_right,ih]
      cases listeners with
      | nil => exact ⟨fun _ => nofun,fun _ => nofun⟩
      | cons next listeners =>
        rw [List.dropLast_cons_cons,List.forall_mem_cons]
        exact (and_iff_right h).symm
    · rw [callListeners_failing h,List.map_cons,List.cons_inj_right]
      cases listeners with
      | nil => exact ⟨fun _ => nofun,fun _ => rfl⟩
      | cons next listeners =>
        refine ⟨nofun,fun hall => absurd (hall listener ?_) h⟩
        rw [List.dropLast_cons_cons]
        exact List.mem_cons_self

theorem set_ok (order : HashOrder UInt32 Tsfn) (s : State Tsfn) (value : String) :
    s.set order status (.ok value) = ⟨{ s with value := some value },
      (callListeners status value (order.entries s.listeners)).1,
      (callListeners status value (order.entries s.listeners)).2⟩ := rfl

theorem set_notifies_of_order (order : HashOrder UInt32 Tsfn) (s : State Tsfn) (value : String) :
    Notifies status s value (s.set order status (.ok value)) ↔
      ∀ listener ∈ (order.entries s.listeners).dropLast, status listener.1 = .ok := by
  have hperm : (s.listeners.toList.map (callOf value)).Perm ((order.entries s.listeners).map (callOf value)) :=
    ((order.perm s.listeners).map _).symm
  have hcomplete := @callListeners_complete_iff _ status value (order.entries s.listeners)
  rw [← hcomplete,set_ok]
  constructor
  · intro h
    exact (callListeners_calls _).eq_of_length (h.called.trans hperm).length_eq
  · intro h
    refine ⟨rfl,?_,callListeners_error_iff _⟩
    rw [h]
    exact hperm.symm

theorem length_entries (order : HashOrder UInt32 Tsfn) (s : State Tsfn) :
    (order.entries s.listeners).length = s.listeners.size := by
  rw [(order.perm s.listeners).length_eq,ExtTreeMap.length_toList]

theorem exists_other_listener {s : State Tsfn} (h : 1 < s.listeners.size) (id : UInt32) :
    ∃ other tsfn, other ≠ id ∧ s.listeners[other]? = some tsfn := by
  by_contra hnone
  have hkeys : (HashOrder.sorted.entries s.listeners).map Prod.fst ⊆ [id] := by
    intro other hother
    obtain ⟨⟨_,tsfn⟩,hmem,rfl⟩ := List.mem_map.mp hother
    have htsfn := (HashOrder.mem_entries _ s.listeners _ tsfn).mp hmem
    refine List.mem_singleton.mpr (by_contra fun hne => hnone ⟨_,tsfn,hne,htsfn⟩)
  have hle := ((HashOrder.sorted.nodup_keys s.listeners).subperm hkeys).length_le
  rw [List.length_map,length_entries,List.length_singleton] at hle
  omega

theorem set_notifies_of_all (status : UInt32 → TsfnStatus) (s : State Tsfn) (value : String) :
    (∀ order, Notifies status s value (s.set order status (.ok value))) ↔
      (∀ id ∈ s.listeners, status id = .ok) ∨ s.listeners.size ≤ 1 := by
  simp only [set_notifies_of_order]
  constructor
  · intro h
    by_contra hnot
    obtain ⟨hfails,hsize⟩ := not_or.mp hnot
    obtain ⟨id,hid,hfailing⟩ : ∃ id ∈ s.listeners, status id ≠ .ok := by simpa using hfails
    obtain ⟨tsfn,htsfn⟩ : ∃ tsfn, s.listeners[id]? = some tsfn :=
      Option.isSome_iff_exists.mp (ExtTreeMap.mem_iff_isSome_getElem?.mp hid)
    -- an order in which the failing call is not the last
    obtain ⟨other,last,hother,hlast⟩ := exists_other_listener (Nat.lt_of_not_le hsize) id
    obtain ⟨front,hfront⟩ := HashOrder.lastly_entries hlast
    have hmem := ((HashOrder.lastly other).mem_entries s.listeners id tsfn).mpr htsfn
    rw [hfront,List.mem_append,List.mem_singleton] at hmem
    have hbefore := h (HashOrder.lastly other)
    rw [hfront,List.dropLast_concat] at hbefore
    rcases hmem with hmem | hmem
    · exact hfailing (hbefore _ hmem)
    · exact hother (congrArg Prod.fst hmem).symm
  · rintro (h | h) order listener hlistener
    · have hmem := (order.mem_entries s.listeners listener.1 listener.2).mp (List.mem_of_mem_dropLast hlistener)
      refine h listener.1 (ExtTreeMap.mem_iff_isSome_getElem?.mpr ?_)
      rw [hmem]
      rfl
    · have hlength := List.length_pos_of_mem hlistener
      rw [List.length_dropLast,length_entries] at hlength
      omega

/-- In an order of its own every listener hears of the value exactly when no call but the
last one fails; in all orders, when no call fails or there is nobody else to miss it. -/
theorem set_notifies_iff (status : UInt32 → TsfnStatus) (s : State Tsfn) (value : String) :
    (∀ order, Notifies status s value (s.set order status (.ok value)) ↔
      ∀ listener ∈ (order.entries s.listeners).dropLast, status listener.1 = .ok) ∧
    ((∀ order, Notifies status s value (s.set order status (.ok value))) ↔
      (∀ id ∈ s.listeners, status id = .ok) ∨ s.listeners.size ≤ 1) :=
  ⟨fun order => set_notifies_of_order order s value,set_notifies_of_all status s value⟩

/-- Two listeners, and the function of the first one is closing. -/
theorem set_misses_listener : ¬∀ (status : UInt32 → TsfnStatus) (s : State Unit) (value : String)
    (order : HashOrder UInt32 Unit),
    Notifies status s value (s.set order status (.ok value)) := by
  intro h
  let s : State Unit := ((State.subscribe ⟨some "a",∅,0⟩ ()).1.subscribe ()).1
  have hall := set_notifies_of_all (fun id => if id = 0 then .failed "Closing" else .ok) s "b"
  rcases hall.mp fun order => h _ s "b" order with hok | hsize
  · exact absurd (hok 0 (by simp [s,subscribe])) nofun
  · exact absurd hsize (by simp [s,subscribe,ExtTreeMap.size_insert])

end State
end VirtualDom
end NodeRustPty
