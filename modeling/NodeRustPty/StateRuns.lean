import NodeRustPty.KeyEncoders
import NodeRustPty.StateListeners

/-! Runs of a `State`: values that are set, key events of `virtual_dom/key_state.rs`, listeners that
come and go, and what each of them gets to hear. -/
namespace NodeRustPty
namespace VirtualDom

open Std

/-- The object of a key event, by what reading its two properties gives. -/
structure JsKeyEvent where
  code : Except NapiError String
  modifiers : Except NapiError Int32

namespace KeyState

def keyName : KeyCode → String
  | .char c => String.singleton c
  | .enter => "Enter"
  | .esc => "Esc"
  | .backspace => "Backspace"
  | .left => "Left"
  | .right => "Right"
  | .up => "Up"
  | .down => "Down"
  | _ => "Unknown"

/-- What the calls of napi answer that make the object of a key event, one after another, and
those that read its two properties. -/
structure ObjectCalls where
  createObject : Except NapiError Unit
  createString : Except NapiError Unit
  setCode : Except NapiError Unit
  createInt32 : Except NapiError Unit
  setModifiers : Except NapiError Unit
  readCode : Except NapiError Unit
  readModifiers : Except NapiError Unit

def ObjectCalls.done : ObjectCalls := ⟨.ok (),.ok (),.ok (),.ok (),.ok (),.ok (),.ok ()⟩

/-- The object has what was set, for those who can read it. -/
def convertKeyEvent (calls : ObjectCalls) (keyEvent : KeyEvent) : Except NapiError JsKeyEvent := do
  calls.createObject
  calls.createString
  calls.setCode
  calls.createInt32
  calls.setModifiers
  return ⟨calls.readCode.map fun _ => keyName keyEvent.code,
    calls.readModifiers.map fun _ => Int32.ofNat keyEvent.modifiers.bits.toNat⟩

end KeyState

namespace State

variable {Tsfn : Type}

def keyMessage (code : String) (modifiers : Int32) : String := s!"Key pressed: {code}, Modifiers: {modifiers}"

def handleKeyEvent (order : HashOrder UInt32 Tsfn) (status : UInt32 → TsfnStatus) (s : State Tsfn)
    (jsKeyEvent : JsKeyEvent) : Outcome Tsfn :=
  match jsKeyEvent.code with
  | .error e => ⟨s,[],.error e⟩
  | .ok code =>
    match jsKeyEvent.modifiers with
    | .error e => ⟨s,[],.error e⟩
    | .ok modifiers =>
      let s := { s with value := some (keyMessage code modifiers) }
      let (calls,result) := s.notifyListeners order status
      ⟨s,calls,result⟩

end State

def KeyState.handleKeyEvent {Tsfn : Type} (order : HashOrder UInt32 Tsfn) (status : UInt32 → TsfnStatus)
    (calls : ObjectCalls) (state : State Tsfn) (keyEvent : KeyEvent) : State.Outcome Tsfn :=
  match convertKeyEvent calls keyEvent with
  | .error e => ⟨state,[],.error e⟩
  | .ok jsKeyEvent => state.handleKeyEvent order status jsKeyEvent

namespace State

variable {Tsfn : Type}

/-! ### Turns -/

/-- The methods with their arguments, and with what napi answers: a subscription gets a function
for its callback or an error. -/
inductive StateOp (Tsfn : Type)
  | set (newValue : Unknown)
  | handleKeyEvent (jsKeyEvent : JsKeyEvent)
  | keyState (calls : KeyState.ObjectCalls) (keyEvent : KeyEvent)
  | subscribe (made : Except NapiError Tsfn)
  | unsubscribe (id : UInt32)

/-- A call of a method, with the order in which it meets the listeners and what their functions
answer. -/
structure Turn (Tsfn : Type) where
  op : StateOp Tsfn
  order : HashOrder UInt32 Tsfn
  status : UInt32 → TsfnStatus

def Turn.apply (s : State Tsfn) (turn : Turn Tsfn) : Outcome Tsfn :=
  match turn.op with
  | .set newValue => s.set turn.order turn.status newValue
  | .handleKeyEvent jsKeyEvent => s.handleKeyEvent turn.order turn.status jsKeyEvent
  | .keyState calls keyEvent => KeyState.handleKeyEvent turn.order turn.status calls s keyEvent
  | .subscribe (.error e) => ⟨s,[],.error e⟩
  | .subscribe (.ok tsfn) => ⟨(s.subscribe tsfn).1,[],.ok ()⟩
  | .unsubscribe id => ⟨s.unsubscribe id,[],.ok ()⟩

/-- The state after some turns, and all calls of listeners in them. -/
def runTurns (s : State Tsfn) : List (Turn Tsfn) → State Tsfn × List (TsfnCall Tsfn)
  | [] => (s,[])
  | turn::turns =>
    let outcome := turn.apply s
    let (last,calls) := runTurns outcome.state turns
    (last,outcome.calls ++ calls)

/-- The message of a key event whose two properties can be read. -/
def keyMessage? (jsKeyEvent : JsKeyEvent) : Option String :=
  jsKeyEvent.code.toOption.bind fun code => jsKeyEvent.modifiers.toOption.map (keyMessage code)

/-- The value that a method stores. -/
def StateOp.stored? : StateOp Tsfn → Option String
  | .set newValue => newValue.toOption
  | .handleKeyEvent jsKeyEvent => keyMessage? jsKeyEvent
  | .keyState calls keyEvent => (KeyState.convertKeyEvent calls keyEvent).toOption.bind keyMessage?
  | _ => none

def storedValues (turns : List (Turn Tsfn)) : List String := turns.filterMap fun turn => turn.op.stored?

/-- What the listener with this id hears, in this order. -/
def heard (id : UInt32) (calls : List (TsfnCall Tsfn)) : List String :=
  (calls.filter fun call => call.id = id).map TsfnCall.value

/-- All functions take the call. -/
def Turn.Answered (turn : Turn Tsfn) : Prop := ∀ id, turn.status id = .ok

/-- A listener comes. -/
def Turn.subscribes (turn : Turn Tsfn) : Bool :=
  match turn.op with
  | .subscribe (.ok _) => true
  | _ => false

/-! ### One turn -/

section

variable {s : State Tsfn} {turn : Turn Tsfn} {id : UInt32} {value : String}

theorem handleKeyEvent_stored {order : HashOrder UInt32 Tsfn} {status : UInt32 → TsfnStatus} {jsKeyEvent : JsKeyEvent}
    (h : keyMessage? jsKeyEvent = some value) :
    (s.handleKeyEvent order status jsKeyEvent).state = { s with value := some value } ∧
      (s.handleKeyEvent order status jsKeyEvent).calls = (callListeners status value (order.entries s.listeners)).1 := by
  obtain ⟨code,modifiers⟩ := jsKeyEvent
  cases code with
  | error e => cases h
  | ok code =>
    cases modifiers with
    | error e => cases h
    | ok modifiers =>
      cases h
      exact ⟨rfl,rfl⟩

theorem handleKeyEvent_unstored {order : HashOrder UInt32 Tsfn} {status : UInt32 → TsfnStatus} {jsKeyEvent : JsKeyEvent}
    (h : keyMessage? jsKeyEvent = none) :
    (s.handleKeyEvent order status jsKeyEvent).state = s ∧ (s.handleKeyEvent order status jsKeyEvent).calls = [] := by
  obtain ⟨code,modifiers⟩ := jsKeyEvent
  cases code with
  | error e => exact ⟨rfl,rfl⟩
  | ok code =>
    cases modifiers with
    | error e => exact ⟨rfl,rfl⟩
    | ok modifiers => cases h

/-- A method that stores a value calls the listeners with it. -/
theorem apply_stored (h : turn.op.stored? = some value) :
    (turn.apply s).state = { s with value := some value } ∧
      (turn.apply s).calls = (callListeners turn.status value (turn.order.entries s.listeners)).1 := by
  obtain ⟨op,order,status⟩ := turn
  cases op with
  | set newValue =>
    cases newValue with
    | error e => cases h
    | ok newValue =>
      cases h
      exact ⟨rfl,rfl⟩
  | handleKeyEvent jsKeyEvent => exact handleKeyEvent_stored h
  | keyState calls keyEvent =>
    simp only [StateOp.stored?,Turn.apply,KeyState.handleKeyEvent] at h ⊢
    cases hconvert : KeyState.convertKeyEvent calls keyEvent with
    | error e =>
      rw [hconvert] at h
      cases h
    | ok jsKeyEvent =>
      rw [hconvert] at h
      exact handleKeyEvent_stored h
  | subscribe made => cases h
  | unsubscribe gone => cases h

/-- A method that stores nothing calls nobody, and unless a listener comes or goes the state
stays. -/
theorem apply_unstored (h : turn.op.stored? = none) : (turn.apply s).calls = [] ∧
    ((∃ tsfn, turn.op = .subscribe (.ok tsfn) ∧ (turn.apply s).state = (s.subscribe tsfn).1) ∨
      (∃ gone, turn.op = .unsubscribe gone ∧ (turn.apply s).state = s.unsubscribe gone) ∨
      turn.subscribes = false ∧ (turn.apply s).state = s) := by
  obtain ⟨op,order,status⟩ := turn
  cases op with
  | set newValue =>
    cases newValue with
    | error e => exact ⟨rfl,.inr (.inr ⟨rfl,rfl⟩)⟩
    | ok newValue => cases h
  | handleKeyEvent jsKeyEvent =>
    obtain ⟨hstate,hcalls⟩ := handleKeyEvent_unstored h
    exact ⟨hcalls,.inr (.inr ⟨rfl,hstate⟩)⟩
  | keyState calls keyEvent =>
    simp only [StateOp.stored?,Turn.apply,KeyState.handleKeyEvent] at h ⊢
    cases hconvert : KeyState.convertKeyEvent calls keyEvent with
    | error e => exact ⟨rfl,.inr (.inr ⟨rfl,rfl⟩)⟩
    | ok jsKeyEvent =>
      rw [hconvert] at h
      obtain ⟨hstate,hcalls⟩ := handleKeyEvent_unstored h
      exact ⟨hcalls,.inr (.inr ⟨rfl,hstate⟩)⟩
  | subscribe made =>
    cases made with
    | error e => exact ⟨rfl,.inr (.inr ⟨rfl,rfl⟩)⟩
    | ok tsfn => exact ⟨rfl,.inl ⟨tsfn,rfl,rfl⟩⟩
  | unsubscribe gone => exact ⟨rfl,.inr (.inl ⟨gone,rfl,rfl⟩)⟩

theorem apply_unstored_value (h : turn.op.stored? = none) : (turn.apply s).state.value = s.value := by
  rcases (apply_unstored h).2 with ⟨tsfn,-,hstate⟩ | ⟨gone,-,hstate⟩ | ⟨-,hstate⟩ <;> rw [hstate] <;> rfl

/-- The listeners change by a subscription and by its end only. -/
theorem apply_listeners (s : State Tsfn) (turn : Turn Tsfn) :
    (∃ tsfn, turn.op = .subscribe (.ok tsfn) ∧ (turn.apply s).state = (s.subscribe tsfn).1) ∨
    (∃ gone, turn.op = .unsubscribe gone ∧ (turn.apply s).state = s.unsubscribe gone) ∨
    turn.subscribes = false ∧ (turn.apply s).state.listeners = s.listeners ∧
      (turn.apply s).state.nextListenerId = s.nextListenerId := by
  cases hstored : turn.op.stored? with
  | some value =>
    refine .inr (.inr ⟨?_,?_⟩)
    · obtain ⟨op,order,status⟩ := turn
      cases op <;> first | rfl | cases hstored
    · rw [(apply_stored hstored).1]
      exact ⟨rfl,rfl⟩
  | none =>
    rcases (apply_unstored hstored).2 with hcomes | hgoes | ⟨hsubscribes,hstate⟩
    · exact .inl hcomes
    · exact .inr (.inl hgoes)
    · rw [hstate]
      exact .inr (.inr ⟨hsubscribes,rfl,rfl⟩)

theorem heard_append (id : UInt32) (first second : List (TsfnCall Tsfn)) :
    heard id (first ++ second) = heard id first ++ heard id second := by
  rw [heard,List.filter_append,List.map_append]
  rfl

/-- If the loop gets through, each listener hears of the value once. -/
theorem heard_entries (order : HashOrder UInt32 Tsfn) (listeners : ExtTreeMap UInt32 Tsfn) (id : UInt32)
    (value : String) : heard id ((order.entries listeners).map (callOf value)) =
      if id ∈ listeners then [value] else [] := by
  have hfilter : ((order.entries listeners).map (callOf value)).filter (fun call => call.id = id) =
      ((order.entries listeners).filter fun entry => entry.1 = id).map (callOf value) := List.filter_map
  rw [heard,hfilter]
  by_cases h : id ∈ listeners
  · obtain ⟨tsfn,htsfn⟩ := Option.isSome_iff_exists.mp (ExtTreeMap.mem_iff_isSome_getElem?.mp h)
    have hmem := (order.mem_entries listeners id tsfn).mpr htsfn
    rw [if_pos h,filter_eq_singleton (order.nodup_keys listeners) hmem]
    rfl
  · rw [if_neg h,List.filter_eq_nil_iff.mpr]
    · rfl
    · intro entry hentry heq
      rw [← order.mem_map_fst_entries] at h
      exact h (of_decide_eq_true heq ▸ List.mem_map_of_mem (f := Prod.fst) hentry)

/-- In one turn a listener hears the stored value or nothing. It hears nothing when it is not there,
and the value when all functions take their call. -/
theorem heard_apply (s : State Tsfn) (turn : Turn Tsfn) (id : UInt32) :
    (heard id (turn.apply s).calls).Sublist turn.op.stored?.toList ∧
      (id ∉ s.listeners → heard id (turn.apply s).calls = []) ∧
      (id ∈ s.listeners → turn.Answered → heard id (turn.apply s).calls = turn.op.stored?.toList) := by
  cases hstored : turn.op.stored? with
  | none =>
    rw [(apply_unstored hstored).1]
    exact ⟨List.nil_sublist _,fun _ => rfl,fun _ _ => rfl⟩
  | some value =>
    have hentries := heard_entries turn.order s.listeners id value
    rw [(apply_stored hstored).2]
    have hprefix : heard id (callListeners turn.status value (turn.order.entries s.listeners)).1 <+:
        heard id ((turn.order.entries s.listeners).map (callOf value)) :=
      ((callListeners_calls _).filter _).map _
    rw [hentries] at hprefix
    refine ⟨?_,fun hid => ?_,fun hid hanswered => ?_⟩
    · refine hprefix.sublist.trans ?_
      split
      · exact List.Sublist.refl _
      · exact List.nil_sublist _
    · rw [if_neg hid] at hprefix
      exact List.prefix_nil.mp hprefix
    · rw [(callListeners_complete_iff _).mpr fun listener _ => hanswered listener.1,hentries,if_pos hid]
      rfl

end

/-! ### Runs -/

section

variable {s : State Tsfn} {id : UInt32}

theorem runTurns_append (s : State Tsfn) (before after : List (Turn Tsfn)) :
    s.runTurns (before ++ after) = (((s.runTurns before).1.runTurns after).1,
      (s.runTurns before).2 ++ ((s.runTurns before).1.runTurns after).2) := by
  induction before generalizing s with
  | nil => rfl
  | cons turn before ih =>
    simp only [List.cons_append,runTurns,ih,List.append_assoc]

theorem storedValues_cons (turn : Turn Tsfn) (turns : List (Turn Tsfn)) :
    storedValues (turn::turns) = turn.op.stored?.toList ++ storedValues turns := by
  cases h : turn.op.stored? <;> simp [storedValues,h]

/-- The state holds the value that was stored last. -/
theorem runTurns_value (s : State Tsfn) (turns : List (Turn Tsfn)) :
    (s.runTurns turns).1.value = (storedValues turns).getLast?.or s.value := by
  induction turns generalizing s with
  | nil => rfl
  | cons turn turns ih =>
    rw [runTurns,ih,storedValues_cons]
    cases hstored : turn.op.stored? with
    | none =>
      rw [apply_unstored_value hstored]
      rfl
    | some value =>
      rw [(apply_stored hstored).1]
      cases hlast : (storedValues turns).getLast? with
      | none => simp [List.getLast?_eq_none_iff.mp hlast]
      | some last => simp [List.getLast?_cons,hlast]

/-- Whoever listens hears values in the order in which they are stored, none of them twice. -/
theorem runTurns_heard (s : State Tsfn) (turns : List (Turn Tsfn)) (id : UInt32) :
    (heard id (s.runTurns turns).2).Sublist (storedValues turns) := by
  induction turns generalizing s with
  | nil => exact List.Sublist.refl _
  | cons turn turns ih =>
    rw [storedValues_cons]
    simp only [runTurns,heard_append]
    exact (heard_apply s turn id).1.append (ih _)

/-- The listener under an id is this function, and so many more subscriptions take another id. -/
structure Subscribed (id : UInt32) (tsfn : Tsfn) (more : ℕ) (s : State Tsfn) : Prop where
  listener : s.listeners[id]? = some tsfn
  next : ∃ n : ℕ, s.nextListenerId = id+UInt32.ofNat (n+1) ∧ n+1+more ≤ 2^32

/-- Nobody is under the id, and so many more subscriptions take another one. -/
structure Unsubscribed (id : UInt32) (more : ℕ) (s : State Tsfn) : Prop where
  listener : id ∉ s.listeners
  next : ∃ n : ℕ, s.nextListenerId = id+UInt32.ofNat (n+1) ∧ n+1+more ≤ 2^32

theorem add_ofNat_ne {n : ℕ} (h : n+1 < 2^32) : id+UInt32.ofNat (n+1) ≠ id := by
  intro heq
  have hzero : UInt32.ofNat (n+1) = 0 := by simpa using heq
  have hnat := congrArg UInt32.toNat hzero
  rw [UInt32.toNat_ofNat',Nat.mod_eq_of_lt h] at hnat
  exact absurd hnat (by simp)

theorem Subscribed.apply {tsfn : Tsfn} {turn : Turn Tsfn} {more : ℕ}
    (h : Subscribed id tsfn (more+if turn.subscribes then 1 else 0) s) (hstays : turn.op ≠ .unsubscribe id) :
    Subscribed id tsfn more (turn.apply s).state := by
  obtain ⟨n,hnext,hroom⟩ := h.next
  rcases apply_listeners s turn with ⟨other,hop,hstate⟩ | ⟨gone,hop,hstate⟩ | ⟨hsubscribes,hlisteners,hid⟩
  · have hsubscribes : turn.subscribes = true := by simp [Turn.subscribes,hop]
    rw [hsubscribes,if_pos rfl] at hroom
    have hne : id ≠ (s.subscribe other).2 := by
      rw [show (s.subscribe other).2 = _ from hnext]
      exact (add_ofNat_ne (by omega)).symm
    rw [hstate]
    refine ⟨?_,n+1,?_,by omega⟩
    · rw [subscribe_listeners,if_neg hne]
      exact h.listener
    · change s.nextListenerId+1 = _
      rw [hnext,UInt32.add_assoc,← UInt32.ofNat_one,← UInt32.ofNat_add]
  · have hne : id ≠ gone := fun heq => hstays (heq ▸ hop)
    rw [hstate]
    refine ⟨?_,n,hnext,by omega⟩
    rw [unsubscribe_listeners,if_neg hne]
    exact h.listener
  · exact ⟨hlisteners ▸ h.listener,n,hid ▸ hnext,by omega⟩

theorem Unsubscribed.apply {turn : Turn Tsfn} {more : ℕ}
    (h : Unsubscribed id (more+if turn.subscribes then 1 else 0) s) : Unsubscribed id more (turn.apply s).state := by
  obtain ⟨n,hnext,hroom⟩ := h.next
  rcases apply_listeners s turn with ⟨other,hop,hstate⟩ | ⟨gone,hop,hstate⟩ | ⟨hsubscribes,hlisteners,hid⟩
  · have hsubscribes : turn.subscribes = true := by simp [Turn.subscribes,hop]
    rw [hsubscribes,if_pos rfl] at hroom
    have hne : id ≠ (s.subscribe other).2 := by
      rw [show (s.subscribe other).2 = _ from hnext]
      exact (add_ofNat_ne (by omega)).symm
    have hnone : s.listeners[id]? = none := ExtTreeMap.getElem?_eq_none h.listener
    rw [hstate]
    refine ⟨?_,n+1,?_,by omega⟩
    · rw [ExtTreeMap.mem_iff_isSome_getElem?,subscribe_listeners,if_neg hne,hnone]
      exact Bool.false_ne_true
    · change s.nextListenerId+1 = _
      rw [hnext,UInt32.add_assoc,← UInt32.ofNat_one,← UInt32.ofNat_add]
  · rw [hstate]
    refine ⟨?_,n,hnext,by omega⟩
    rw [ExtTreeMap.mem_iff_isSome_getElem?,unsubscribe_listeners]
    split
    · exact Bool.false_ne_true
    · rw [← ExtTreeMap.mem_iff_isSome_getElem?]
      exact h.listener
  · exact ⟨hlisteners ▸ h.listener,n,hid ▸ hnext,by omega⟩

def subscriptions (turns : List (Turn Tsfn)) : ℕ := turns.countP Turn.subscribes

theorem subscriptions_cons (turn : Turn Tsfn) (turns : List (Turn Tsfn)) (more : ℕ) :
    more+subscriptions (turn::turns) = more+subscriptions turns+if turn.subscribes then 1 else 0 := by
  rw [subscriptions,List.countP_cons,Nat.add_assoc]
  rfl

/-- While it is subscribed a listener is called as itself, and it hears of every value when all
functions take their calls. -/
theorem Subscribed.runTurns {tsfn : Tsfn} {turns : List (Turn Tsfn)} {more : ℕ}
    (h : Subscribed id tsfn (more+subscriptions turns) s) (hstays : ∀ turn ∈ turns, turn.op ≠ .unsubscribe id) :
    Subscribed id tsfn more (s.runTurns turns).1 ∧
      ((∀ turn ∈ turns, turn.Answered) → heard id (s.runTurns turns).2 = storedValues turns) := by
  induction turns generalizing s with
  | nil => exact ⟨h,fun _ => rfl⟩
  | cons turn turns ih =>
    rw [subscriptions_cons] at h
    have hlive : id ∈ s.listeners := by simp [ExtTreeMap.mem_iff_isSome_getElem?,h.listener]
    obtain ⟨hlast,hheard⟩ :=
      ih (h.apply (hstays turn List.mem_cons_self)) fun later hlater => hstays later (.tail _ hlater)
    refine ⟨hlast,fun hanswered => ?_⟩
    simp only [State.runTurns,heard_append,storedValues_cons]
    rw [(heard_apply s turn id).2.2 hlive (hanswered turn List.mem_cons_self),
      hheard fun later hlater => hanswered later (.tail _ hlater)]

/-- Without a subscription nothing is heard. -/
theorem Unsubscribed.runTurns {turns : List (Turn Tsfn)} {more : ℕ}
    (h : Unsubscribed id (more+subscriptions turns) s) :
    Unsubscribed id more (s.runTurns turns).1 ∧ heard id (s.runTurns turns).2 = [] := by
  induction turns generalizing s with
  | nil => exact ⟨h,rfl⟩
  | cons turn turns ih =>
    rw [subscriptions_cons] at h
    obtain ⟨hlast,hheard⟩ := ih h.apply
    refine ⟨hlast,?_⟩
    simp only [State.runTurns,heard_append]
    rw [(heard_apply s turn id).2.1 h.listener,hheard]
    rfl

/-- From its subscription to its end a listener hears the values that are stored, in this order and
none of them twice; all of them, when the functions take their calls; and nothing of what is stored
later. The state holds the last of them all. -/
theorem listener_hears (s : State Tsfn) (tsfn : Tsfn) (before after : List (Turn Tsfn)) (stop : Turn Tsfn)
    (hstop : stop.op = .unsubscribe (s.subscribe tsfn).2)
    (hstays : ∀ turn ∈ before, turn.op ≠ .unsubscribe (s.subscribe tsfn).2)
    (hroom : subscriptions before+subscriptions after < 2^32) :
    let id := (s.subscribe tsfn).2
    let run := (s.subscribe tsfn).1.runTurns (before ++ stop::after)
    (heard id run.2).Sublist (storedValues before) ∧
      ((∀ turn ∈ before, turn.Answered) → heard id run.2 = storedValues before) ∧
      run.1.value = (storedValues (before ++ stop::after)).getLast?.or s.value := by
  intro id run
  have hstart : Subscribed id tsfn (subscriptions after+subscriptions before) (s.subscribe tsfn).1 :=
    ⟨by rw [subscribe_listeners,if_pos rfl],0,rfl,by omega⟩
  obtain ⟨hmiddle,hall⟩ := hstart.runTurns hstays
  have hstopped : Unsubscribed id (0+subscriptions after)
      (stop.apply ((s.subscribe tsfn).1.runTurns before).1).state := by
    obtain ⟨n,hnext,hfits⟩ := hmiddle.next
    have hstate : (stop.apply ((s.subscribe tsfn).1.runTurns before).1).state =
        ((s.subscribe tsfn).1.runTurns before).1.unsubscribe id := by
      rw [Turn.apply,hstop]
    rw [hstate,Nat.zero_add]
    refine ⟨?_,n,hnext,hfits⟩
    rw [ExtTreeMap.mem_iff_isSome_getElem?,unsubscribe_listeners,if_pos rfl]
    exact Bool.false_ne_true
  have hcalls : heard id run.2 = heard id ((s.subscribe tsfn).1.runTurns before).2 := by
    have hquiet : (stop.apply ((s.subscribe tsfn).1.runTurns before).1).calls = [] :=
      (apply_unstored (by rw [hstop]; rfl)).1
    change heard id ((s.subscribe tsfn).1.runTurns (before ++ stop::after)).2 = _
    rw [runTurns_append,heard_append,State.runTurns,heard_append,hquiet,hstopped.runTurns.2]
    exact List.append_nil _
  refine ⟨?_,fun hanswered => ?_,?_⟩
  · rw [hcalls]
    exact runTurns_heard _ before id
  · rw [hcalls]
    exact hall hanswered
  · exact runTurns_value _ _

/-- It hears of a value and of a key, but not of the value after its end. -/
theorem listener_hears_two :
    let answer (op : StateOp Unit) : Turn Unit := ⟨op,.sorted,fun _ => .ok⟩
    let s : State Unit := ⟨some "a",∅,0⟩
    let before := [answer (.set (.ok "b")),answer (.keyState .done ⟨.enter,.control⟩)]
    let run := (s.subscribe ()).1.runTurns (before ++ answer (.unsubscribe 0)::[answer (.set (.ok "c"))])
    (heard 0 run.2).Sublist (storedValues before) ∧
      ((∀ turn ∈ before, turn.Answered) → heard 0 run.2 = storedValues before) ∧
      run.1.value =
        (storedValues (before ++ answer (.unsubscribe 0)::[answer (.set (.ok "c"))])).getLast?.or s.value := by
  intro answer s before run
  exact listener_hears s () before [answer (.set (.ok "c"))] (answer (.unsubscribe 0)) rfl
    (by simp [before,answer]) (by simp [subscriptions,before,answer,Turn.subscribes])

end

end State
end VirtualDom
end NodeRustPty
