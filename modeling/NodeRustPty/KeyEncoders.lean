import NodeRustPty.Utf8Encoding

/-! Three encoders of key events: `Emulator::key_event_to_bytes` of `pty/emulator.rs`, and the
functions `key_event_to_bytes` of `virtual_dom/input_handler.rs` and `utils/ansi_parser.rs`. -/
namespace NodeRustPty

/-! ### Key events of crossterm -/

inductive MediaKeyCode
  | play | pause | playPause | reverse | stop | fastForward | rewind
  | trackNext | trackPrevious | record | lowerVolume | raiseVolume | muteVolume
  deriving DecidableEq

inductive ModifierKeyCode
  | leftShift | leftControl | leftAlt | leftSuper | leftHyper | leftMeta
  | rightShift | rightControl | rightAlt | rightSuper | rightHyper | rightMeta
  | isoLevel3Shift | isoLevel5Shift
  deriving DecidableEq

inductive KeyCode
  | backspace | enter | left | right | up | down | home | end | pageUp | pageDown
  | tab | backTab | delete | insert
  | f (number : UInt8)
  | char (c : Char)
  | null | esc | capsLock | scrollLock | numLock | printScreen | pause | menu | keypadBegin
  | media (code : MediaKeyCode)
  | modifier (code : ModifierKeyCode)
  deriving DecidableEq

/-- One bit for each modifier. -/
structure KeyModifiers where
  bits : UInt8
  deriving DecidableEq

namespace KeyModifiers

def none : KeyModifiers := ⟨0x00⟩

def control : KeyModifiers := ⟨0x02⟩

def alt : KeyModifiers := ⟨0x04⟩

def contains (modifiers other : KeyModifiers) : Bool := modifiers.bits &&& other.bits == other.bits

end KeyModifiers

/-- No encoder looks at the kind or the state of an event. -/
structure KeyEvent where
  code : KeyCode
  modifiers : KeyModifiers
  deriving DecidableEq

/-! ### The encoders -/

/-- The cast `c as u8` keeps the low byte. -/
def charByte (c : Char) : UInt8 := UInt8.ofNat c.toNat

/-- The key codes that all encoders know without a modifier. -/
def plainKeyBytes : KeyCode → Bytes
  | .char c => [charByte c]
  | .enter => [0x0A]
  | .backspace => [0x7F]
  | .tab => [0x09]
  | .esc => [0x1B]
  | .left => [0x1B,0x5B,0x44]
  | .right => [0x1B,0x5B,0x43]
  | .up => [0x1B,0x5B,0x41]
  | .down => [0x1B,0x5B,0x42]
  | _ => []

/-- The body that `emulator.rs` and `input_handler.rs` share. -/
def encodeKey (controlKeyToByte : KeyCode → Option UInt8) (keyEvent : KeyEvent) : Bytes :=
  if keyEvent.modifiers.contains .control then (controlKeyToByte keyEvent.code).toList
  else plainKeyBytes keyEvent.code

def Emulator.controlKeyToByte : KeyCode → Option UInt8
  | .char c => some (charByte c &&& 0x1F)
  | _ => none

def Emulator.keyEventToBytes (keyEvent : KeyEvent) : Bytes := encodeKey Emulator.controlKeyToByte keyEvent

def InputHandler.controlKeyToByte : KeyCode → Option UInt8
  | .char c => some (charByte c &&& 0x1F)
  | _ => none

def InputHandler.keyEventToBytes (keyEvent : KeyEvent) : Bytes := encodeKey InputHandler.controlKeyToByte keyEvent

def AnsiParser.controlKeyToByte : KeyCode → Option UInt8
  | .char c => some (charByte c &&& 0x1F)
  | .enter => some 0x0A
  | .backspace => some 0x08
  | .tab => some 0x09
  | .esc => some 0x1B
  | _ => none

/-- Only here Alt has a branch, and Home and the keys around it a sequence. -/
def AnsiParser.keyEventToBytes (keyEvent : KeyEvent) : Bytes :=
  if keyEvent.modifiers.contains .control then (AnsiParser.controlKeyToByte keyEvent.code).toList
  else if keyEvent.modifiers.contains .alt then
    [0x1B] ++ match keyEvent.code with
      | .char c => [charByte c]
      | _ => []
  else match keyEvent.code with
    | .home => [0x1B,0x5B,0x48]
    | .end => [0x1B,0x5B,0x46]
    | .pageUp => [0x1B,0x5B,0x35,0x7E]
    | .pageDown => [0x1B,0x5B,0x36,0x7E]
    | .delete => [0x1B,0x5B,0x33,0x7E]
    | .insert => [0x1B,0x5B,0x32,0x7E]
    | code => plainKeyBytes code

/-! ### Where they agree -/

def EncodersAgree (keyEvent : KeyEvent) : Prop :=
  Emulator.keyEventToBytes keyEvent = InputHandler.keyEventToBytes keyEvent ∧
  InputHandler.keyEventToBytes keyEvent = AnsiParser.keyEventToBytes keyEvent

/-- No key that only `ansi_parser.rs` knows under these modifiers. -/
def Common (keyEvent : KeyEvent) : Prop :=
  if keyEvent.modifiers.contains .control then keyEvent.code ∉ [.enter,.backspace,.tab,.esc]
  else if keyEvent.modifiers.contains .alt then keyEvent.code = .esc
  else keyEvent.code ∉ [.home,.end,.pageUp,.pageDown,.delete,.insert]

theorem encodersAgree_iff (keyEvent : KeyEvent) : EncodersAgree keyEvent ↔ Common keyEvent := by
  obtain ⟨code,modifiers⟩ := keyEvent
  have hsame : Emulator.keyEventToBytes ⟨code,modifiers⟩ = InputHandler.keyEventToBytes ⟨code,modifiers⟩ := rfl
  rw [EncodersAgree,and_iff_right hsame,InputHandler.keyEventToBytes,encodeKey,AnsiParser.keyEventToBytes,Common]
  dsimp only
  by_cases hcontrol : modifiers.contains .control = true
  · simp only [if_pos hcontrol]
    cases code
    all_goals first
      | exact iff_of_true rfl (by simp)
      | exact iff_of_false (by decide) (by simp)
  · simp only [if_neg hcontrol]
    by_cases halt : modifiers.contains .alt = true
    · simp only [if_pos halt]
      cases code
      all_goals first
        | exact iff_of_true rfl rfl
        | exact iff_of_false (by decide) nofun
        | exact iff_of_false (fun h => absurd (congrArg List.length h) (Nat.ne_of_beq_eq_false rfl)) nofun
    · simp only [if_neg halt]
      cases code
      all_goals first
        | exact iff_of_true rfl (by simp)
        | exact iff_of_false (by decide) (by simp)

/-- Home is sent by one encoder only. -/
theorem encodersAgree_fails : ¬∀ keyEvent : KeyEvent, EncodersAgree keyEvent := by
  intro h
  have hhome := h ⟨.home,.none⟩
  exact absurd hhome.2 (by decide)

/-! ### Typed text -/

/-- A text as key presses without a modifier. -/
def typed (text : String) : List KeyEvent := text.toList.map fun c => ⟨.char c,.none⟩

theorem flatMap_typed {encoder : KeyEvent → Bytes} (h : ∀ c, encoder ⟨.char c,.none⟩ = [charByte c]) (text : String) :
    (typed text).flatMap encoder = text.toUTF8.toList ↔ ∀ c ∈ text.toList, c.toNat < 0x80 := by
  have hbytes : (typed text).flatMap encoder = text.toList.map charByte := by
    rw [typed,List.flatMap_map,List.map_eq_flatMap]
    exact congrArg (List.flatMap · text.toList) (funext h)
  rw [hbytes,Utf8.toUTF8_toList]
  exact Utf8.map_ofNat_eq_encode_iff text.toList

theorem encodeKey_char (controlKeyToByte : KeyCode → Option UInt8) (c : Char) :
    encodeKey controlKeyToByte ⟨.char c,.none⟩ = [charByte c] := by
  have hcontrol : KeyModifiers.none.contains .control = false := rfl
  rw [encodeKey]
  dsimp only
  rw [hcontrol]
  rfl

theorem ansiParser_char (c : Char) : AnsiParser.keyEventToBytes ⟨.char c,.none⟩ = [charByte c] := by
  have hcontrol : KeyModifiers.none.contains .control = false := rfl
  have halt : KeyModifiers.none.contains .alt = false := rfl
  rw [AnsiParser.keyEventToBytes]
  dsimp only
  rw [hcontrol,halt]
  rfl

/-- A typed text is sent as UTF-8 exactly when it is ASCII. -/
theorem typed_encoded_iff (text : String) :
    ((typed text).flatMap Emulator.keyEventToBytes = text.toUTF8.toList ↔ ∀ c ∈ text.toList, c.toNat < 0x80) ∧
    ((typed text).flatMap InputHandler.keyEventToBytes = text.toUTF8.toList ↔ ∀ c ∈ text.toList, c.toNat < 0x80) ∧
    ((typed text).flatMap AnsiParser.keyEventToBytes = text.toUTF8.toList ↔ ∀ c ∈ text.toList, c.toNat < 0x80) :=
  ⟨flatMap_typed (encodeKey_char _) text,flatMap_typed (encodeKey_char _) text,flatMap_typed ansiParser_char text⟩

/-- A letter is sent as Ctrl-C. -/
theorem typed_interrupts : ¬∀ text : String,
    (typed text).flatMap Emulator.keyEventToBytes = text.toUTF8.toList ∧
    (typed text).flatMap InputHandler.keyEventToBytes = text.toUTF8.toList ∧
    (typed text).flatMap AnsiParser.keyEventToBytes = text.toUTF8.toList := by
  intro h
  obtain ⟨hemulator,-,-⟩ := h "ă"
  have hsent : (typed "ă").flatMap Emulator.keyEventToBytes = [0x03] := by decide
  rw [hsent,Utf8.toUTF8_toList] at hemulator
  exact absurd hemulator (by decide)

end NodeRustPty
