import Mathlib

/-! Graphic rendition of a terminal: control sequences that end in `m` select attributes,
which stay for all that is shown after them until others are selected. -/
namespace NodeRustPty
namespace Sgr

structure Attributes where
  foreground : Option ℕ
  background : Option ℕ
  bold : Bool
  italic : Bool
  underline : Bool
  strikethrough : Bool
  deriving DecidableEq

def plain : Attributes := ⟨none,none,false,false,false,false⟩

/-- What one code selects. Zero resets everything. -/
def select (a : Attributes) (code : ℕ) : Attributes :=
  if code = 0 then plain
  else if code = 1 then { a with bold := true }
  else if code = 3 then { a with italic := true }
  else if code = 4 then { a with underline := true }
  else if code = 9 then { a with strikethrough := true }
  else if 30 ≤ code ∧ code ≤ 37 then { a with foreground := some (code-30) }
  else if 40 ≤ code ∧ code ≤ 47 then { a with background := some (code-40) }
  else a

/-- Where in a control sequence the terminal is: outside, after ESC, or in its codes. -/
inductive Mode
  | ground
  | escape
  | codes (before : List ℕ) (value : ℕ)
  deriving DecidableEq

structure Pen where
  mode : Mode
  attributes : Attributes
  deriving DecidableEq

/-- Outside of a control sequence, with these attributes. -/
def Pen.at (a : Attributes) : Pen := ⟨.ground,a⟩

def Pen.read (pen : Pen) (c : Char) : Pen :=
  match pen.mode with
  | .ground => if c = '\x1b' then { pen with mode := .escape } else pen
  | .escape => if c = '[' then { pen with mode := .codes [] 0 } else { pen with mode := .ground }
  | .codes before value =>
    if c.isDigit then { pen with mode := .codes before (10*value+(c.toNat-48)) }
    else if c = ';' then { pen with mode := .codes (before ++ [value]) 0 }
    else if c = 'm' then .at ((before ++ [value]).foldl select pen.attributes)
    else { pen with mode := .ground }

def Pen.readAll (pen : Pen) (text : String) : Pen := text.toList.foldl Pen.read pen

theorem Pen.readAll_append (pen : Pen) (first second : String) :
    pen.readAll (first ++ second) = (pen.readAll first).readAll second := by
  rw [readAll,String.toList_append,List.foldl_append]
  rfl

@[simp] theorem Pen.readAll_empty (pen : Pen) : pen.readAll "" = pen := rfl

/-- A sequence with one code, whose digits are read as this number. -/
theorem Pen.readAll_code (a : Attributes) {digits : String} {code : ℕ}
    (h : digits.toList.foldl Pen.read ⟨.codes [] 0,a⟩ = ⟨.codes [] code,a⟩) :
    (Pen.at a).readAll ("\x1b[" ++ digits ++ "m") = .at (select a code) := by
  rw [readAll_append,readAll_append]
  have hopen : (Pen.at a).readAll "\x1b[" = ⟨.codes [] 0,a⟩ := rfl
  rw [hopen,readAll,readAll,h]
  rfl

/-! ### Output -/

/-- A piece of output: characters that are interpreted, or a text that is shown as it is. -/
inductive Output
  | control (text : String)
  | content (text : String)

def Output.text : Output → String
  | .control text => text
  | .content text => text

/-- The pen after some output. -/
def Pen.after (pen : Pen) : List Output → Pen
  | [] => pen
  | .control text::rest => (pen.readAll text).after rest
  | .content _::rest => pen.after rest

/-- What some output shows: each text with the attributes it is shown under. -/
def Pen.shows (pen : Pen) : List Output → List (String × Attributes)
  | [] => []
  | .control text::rest => (pen.readAll text).shows rest
  | .content text::rest => (text,pen.attributes)::pen.shows rest

theorem Pen.after_append (pen : Pen) (first second : List Output) :
    pen.after (first ++ second) = (pen.after first).after second := by
  induction first generalizing pen with
  | nil => rfl
  | cons piece first ih => cases piece <;> exact ih _

theorem Pen.shows_append (pen : Pen) (first second : List Output) :
    pen.shows (first ++ second) = pen.shows first ++ (pen.after first).shows second := by
  induction first generalizing pen with
  | nil => rfl
  | cons piece first ih =>
    cases piece with
    | control text => exact ih _
    | content text => exact congrArg _ (ih _)

/-- Groups of output that each leave the pen as they found it show what each of them shows. -/
theorem Pen.shows_flatten {pen : Pen} {groups : List (List Output)} (h : ∀ group ∈ groups, pen.after group = pen) :
    pen.after groups.flatten = pen ∧ pen.shows groups.flatten = groups.flatMap pen.shows := by
  induction groups with
  | nil => exact ⟨rfl,rfl⟩
  | cons group groups ih =>
    obtain ⟨hafter,hshows⟩ := ih fun other hother => h other (List.mem_cons_of_mem _ hother)
    have hgroup := h group List.mem_cons_self
    rw [List.flatten_cons,after_append,shows_append,hgroup,hafter,hshows]
    exact ⟨rfl,rfl⟩

end Sgr
end NodeRustPty
