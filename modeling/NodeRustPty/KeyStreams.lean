import NodeRustPty.EscapeCodes
import NodeRustPty.KeyEncoders

/-! Sequences of key presses and the bytes that are left of them: when the bytes tell which keys
were pressed, and that those of `handle_event` in `pty/emulator.rs` always do. -/
namespace NodeRustPty

/-! ### The three encoders -/

theorem escapeWord_plain (code : KeyCode) : EscapeWord 0x1B (plainKeyBytes code) := by
  cases code with
  | left | right | up | down => exact .inr ⟨_,rfl,.inl (by decide)⟩
  | char c | enter | backspace | tab | esc => exact .inl le_rfl
  | _ => exact .inl (Nat.zero_le 1)

theorem escapeWord_toList (byte : Option UInt8) : EscapeWord 0x1B byte.toList := by
  cases byte <;> exact .inl (by simp)

theorem escapeWord_encodeKey (controlKeyToByte : KeyCode → Option UInt8) (keyEvent : KeyEvent) :
    EscapeWord 0x1B (encodeKey controlKeyToByte keyEvent) := by
  rw [encodeKey]
  split
  · exact escapeWord_toList _
  · exact escapeWord_plain _

theorem escapeWord_ansiParser (keyEvent : KeyEvent) : EscapeWord 0x1B (AnsiParser.keyEventToBytes keyEvent) := by
  rw [AnsiParser.keyEventToBytes]
  split
  · exact escapeWord_toList _
  · split
    · -- Alt and a character that sends the escape byte
      split
      · next c _ =>
        refine .inr ⟨[charByte c],rfl,?_⟩
        by_cases h : charByte c = 0x1B
        · exact .inr (by rw [h])
        · exact .inl (by simpa using Ne.symm h)
      · exact .inl (by simp)
    · split
      · exact .inr ⟨_,rfl,.inl (by decide)⟩
      · exact .inr ⟨_,rfl,.inl (by decide)⟩
      · exact .inr ⟨_,rfl,.inl (by decide)⟩
      · exact .inr ⟨_,rfl,.inl (by decide)⟩
      · exact .inr ⟨_,rfl,.inl (by decide)⟩
      · exact .inr ⟨_,rfl,.inl (by decide)⟩
      · exact escapeWord_plain _

/-- The bytes tell which of these keys were pressed, in which order, exactly when no single press can
be mistaken for others. -/
theorem presses_determined_iff (keys : Set KeyEvent) :
    (Determined Emulator.keyEventToBytes keys ↔ SymbolsAlone Emulator.keyEventToBytes keys) ∧
    (Determined InputHandler.keyEventToBytes keys ↔ SymbolsAlone InputHandler.keyEventToBytes keys) ∧
    (Determined AnsiParser.keyEventToBytes keys ↔ SymbolsAlone AnsiParser.keyEventToBytes keys) :=
  ⟨determined_iff_alone fun _ _ => escapeWord_encodeKey _ _,determined_iff_alone fun _ _ => escapeWord_encodeKey _ _,
    determined_iff_alone fun _ _ => escapeWord_ansiParser _⟩

/-- Escape, a bracket and a letter are also an arrow. -/
example : [(⟨.esc,.none⟩ : KeyEvent),⟨.char '[',.none⟩,⟨.char 'A',.none⟩].flatMap Emulator.keyEventToBytes =
    Emulator.keyEventToBytes ⟨.up,.none⟩ := by decide

/-! ### `handle_event` -/

/-- The flags that have a name. -/
def KeyModifiers.fromBits (bits : UInt8) : Option KeyModifiers :=
  if bits &&& 0x3F = bits then some ⟨bits⟩ else Option.none

/-- Its own error, or one of the engine. -/
inductive EventError
  | invalidArg (message : String)
  | engine (reason : String)
  deriving DecidableEq

namespace Emulator

def constructKeyEvent (keyCode : String) (modifiers : UInt32) : Except EventError KeyEvent := do
  let key ← match keyCode with
    | "Char" => .ok (.char 'a')
    | "Enter" => .ok .enter
    | "Backspace" => .ok .backspace
    | "Tab" => .ok .tab
    | "Esc" => .ok .esc
    | "Left" => .ok .left
    | "Right" => .ok .right
    | "Up" => .ok .up
    | "Down" => .ok .down
    | _ => .error (.invalidArg "Invalid key code")
  .ok ⟨key,(KeyModifiers.fromBits modifiers.toUInt8).getD .none⟩

/-- A call of `handle_event`, with what the engine answers when the buffer becomes a value and when the
function is called. -/
structure EventCall where
  keyCode : String
  modifiers : UInt32
  toNapiValue : Except String Unit
  call : Except String Unit

/-- The buffers that the function got, and the result. -/
def handleEvent (event : EventCall) : List Bytes × Except EventError Unit :=
  match constructKeyEvent event.keyCode event.modifiers with
  | .error e => ([],.error e)
  | .ok keyEvent =>
    match event.toNapiValue with
    | .error reason => ([],.error (.engine reason))
    | .ok _ => ([keyEventToBytes keyEvent],event.call.mapError .engine)

/-- All that the function got in a run. -/
def sent (calls : List EventCall) : Bytes := (calls.flatMap fun event => (handleEvent event).1).flatten

/-- What `key_event_to_bytes` looks at: Control, and then only characters. -/
def pressOf (keyEvent : KeyEvent) : Option KeyEvent :=
  if keyEvent.modifiers.contains .control then
    match keyEvent.code with
    | .char c => some ⟨.char c,.control⟩
    | _ => none
  else some ⟨keyEvent.code,.none⟩

/-- The presses that a call hands to the function. -/
def pressed (event : EventCall) : List KeyEvent :=
  match constructKeyEvent event.keyCode event.modifiers,event.toNapiValue with
  | .ok keyEvent,.ok _ => (pressOf keyEvent).toList
  | _,_ => []

/-- The presses that a call can hand to the function. -/
def presses : List KeyEvent := [⟨.char 'a',.control⟩,⟨.char 'a',.none⟩,⟨.enter,.none⟩,⟨.backspace,.none⟩,⟨.tab,.none⟩,
  ⟨.esc,.none⟩,⟨.left,.none⟩,⟨.right,.none⟩,⟨.up,.none⟩,⟨.down,.none⟩]

theorem keyEventToBytes_pressOf (keyEvent : KeyEvent) :
    keyEventToBytes keyEvent = (pressOf keyEvent).toList.flatMap keyEventToBytes := by
  obtain ⟨code,modifiers⟩ := keyEvent
  have hcontrol : KeyModifiers.control.contains .control = true := rfl
  have hnone : KeyModifiers.none.contains .control = false := rfl
  cases h : modifiers.contains .control with
  | false => simp [pressOf,keyEventToBytes,encodeKey,h,hnone]
  | true => cases code <;> simp [pressOf,keyEventToBytes,encodeKey,controlKeyToByte,h,hcontrol]

theorem constructKeyEvent_code {keyCode : String} {modifiers : UInt32} {keyEvent : KeyEvent}
    (h : constructKeyEvent keyCode modifiers = .ok keyEvent) :
    keyEvent.code ∈ [.char 'a',.enter,.backspace,.tab,.esc,.left,.right,.up,.down] := by
  unfold constructKeyEvent at h
  split at h
  all_goals cases h
  all_goals simp

theorem pressed_mem (event : EventCall) : ∀ press ∈ pressed event, press ∈ presses := by
  intro press hpress
  unfold pressed at hpress
  split at hpress
  · next keyEvent value hkey hvalue =>
    have hcode := constructKeyEvent_code hkey
    obtain ⟨code,modifiers⟩ := keyEvent
    rw [Option.mem_toList,pressOf] at hpress
    split at hpress
    · fin_cases hcode <;> simp_all [presses]
    · fin_cases hcode <;> simp_all [presses]
  · cases hpress

theorem handleEvent_pressed (event : EventCall) :
    (handleEvent event).1.flatten = (pressed event).flatMap keyEventToBytes := by
  unfold handleEvent pressed
  cases constructKeyEvent event.keyCode event.modifiers with
  | error e => rfl
  | ok keyEvent =>
    cases event.toNapiValue with
    | error reason => rfl
    | ok value => simpa using keyEventToBytes_pressOf keyEvent

/-- What the function got is what the presses send. -/
theorem sent_eq (calls : List EventCall) : sent calls = (calls.flatMap pressed).flatMap keyEventToBytes := by
  induction calls with
  | nil => rfl
  | cons event calls ih =>
    simp only [sent,List.flatMap_cons,List.flatten_append,List.flatMap_append] at ih ⊢
    rw [handleEvent_pressed,ih]

/-- No press is also a sequence of others: none sends the bracket that follows the escape byte. -/
theorem presses_alone : SymbolsAlone keyEventToBytes {press | press ∈ presses} := by
  have hsends : ∀ press ∈ presses, keyEventToBytes press ≠ [] := by decide
  have hprefix : ∀ press ∈ presses, ∀ first ∈ presses, keyEventToBytes first <+: keyEventToBytes press →
      first = press ∨ keyEventToBytes first = [0x1B] ∧ (keyEventToBytes press)[1]? = some 0x5B := by decide
  have hbracket : ∀ press ∈ presses, (keyEventToBytes press).head? ≠ some 0x5B := by decide
  intro press hpress xs hxs heq
  cases xs with
  | nil => exact absurd heq.symm (hsends press hpress)
  | cons first xs =>
    obtain ⟨hfirst,hxs⟩ := List.forall_mem_cons.mp hxs
    rw [List.flatMap_cons] at heq
    rcases hprefix press hpress first hfirst ⟨_,heq⟩ with rfl | ⟨hesc,harrow⟩
    · -- nothing is left for the others
      have hnil := List.flatMap_eq_nil_iff.mp (List.append_right_eq_self.mp heq)
      cases xs with
      | nil => rfl
      | cons second xs => exact absurd (hnil second List.mem_cons_self) (hsends second (hxs second List.mem_cons_self))
    · rw [← heq,hesc] at harrow
      cases xs with
      | nil => simp at harrow
      | cons second xs =>
        have hsecond := hxs second List.mem_cons_self
        obtain ⟨byte,bytes,hbytes⟩ := List.exists_cons_of_ne_nil (hsends second hsecond)
        refine absurd ?_ (hbracket second hsecond)
        simpa [hbytes] using harrow

/-- Two runs send the same bytes exactly when they are runs of the same presses. -/
theorem sent_eq_iff (calls calls' : List EventCall) :
    sent calls = sent calls' ↔ calls.flatMap pressed = calls'.flatMap pressed := by
  rw [sent_eq,sent_eq]
  constructor
  · refine (determined_iff_alone fun _ _ => escapeWord_encodeKey _ _).mpr presses_alone _ _ ?_ ?_
    · exact List.forall_mem_flatMap.mpr fun event _ => pressed_mem event
    · exact List.forall_mem_flatMap.mpr fun event _ => pressed_mem event
  · exact congrArg _

end Emulator
end NodeRustPty
