import NodeRustPty.Multiplexer
import NodeRustPty.LineTerminal

/-! `ASCIIParser` of `utils/ascii_parser.rs`: the lines it keeps of what it passes on, and
the terminal of one row that they are meant to be. -/
namespace NodeRustPty

@[match_pattern] def asciiBel : UInt8 := 0x07
@[match_pattern] def asciiBs : UInt8 := 0x08
@[match_pattern] def asciiHt : UInt8 := 0x09
@[match_pattern] def asciiLf : UInt8 := 0x0A
@[match_pattern] def asciiVt : UInt8 := 0x0B
@[match_pattern] def asciiFf : UInt8 := 0x0C
@[match_pattern] def asciiCr : UInt8 := 0x0D
@[match_pattern] def asciiSub : UInt8 := 0x1A
@[match_pattern] def asciiEsc : UInt8 := 0x1B
@[match_pattern] def asciiDel : UInt8 := 0x7F

/-- No string is longer. -/
def isizeMax : ℕ := 2^63-1

inductive AsciiPanic
  | remainderByZero
  | capacityOverflow
  deriving DecidableEq

/-- `outputs` are the slices that the output handler was given, and `bellCallback` counts the
calls of the callback when one is set. -/
structure ASCIIParser where
  outputs : List Bytes
  currentLine : String
  lineBuffer : List String
  wordBuffer : String
  columnPosition : ℕ
  tabWidth : ℕ
  bellCallback : Option ℕ
  deriving DecidableEq

namespace ASCIIParser

def new : ASCIIParser := ⟨[],"",[],"",0,8,none⟩

def setTabWidth (width : ℕ) (p : ASCIIParser) : ASCIIParser := { p with tabWidth := width }

/-! ### The handlers -/

def handleOutput (data : Bytes) (p : ASCIIParser) : ASCIIParser := { p with outputs := p.outputs ++ [data] }

/-- `String::pop` without the character. -/
def pop (text : String) : String := String.ofList text.toList.dropLast

def flushWordBuffer (p : ASCIIParser) : ASCIIParser :=
  if !p.wordBuffer.isEmpty then { p with wordBuffer := "" } else p

def flushCurrentLine (p : ASCIIParser) : ASCIIParser :=
  if !p.currentLine.isEmpty then
    { p with lineBuffer := p.lineBuffer ++ [p.currentLine],currentLine := "",wordBuffer := "" }
  else p

def handleBell (p : ASCIIParser) : ASCIIParser :=
  handleOutput [asciiBel] { p with bellCallback := p.bellCallback.map Nat.succ }

def handleBackspace (p : ASCIIParser) : ASCIIParser :=
  handleOutput [asciiBs] (
    if p.columnPosition > 0 then
      { p with columnPosition := p.columnPosition-1
               currentLine := if !p.currentLine.isEmpty then pop p.currentLine else p.currentLine }
    else p)

/-- The remainder wants a width, `repeat` a string that fits in memory, and `push_str` a line
that does. -/
def handleTab (p : ASCIIParser) : Except AsciiPanic ASCIIParser :=
  if p.tabWidth = 0 then .error .remainderByZero
  else
    let spacesToAdd := p.tabWidth-p.columnPosition%p.tabWidth
    if spacesToAdd > isizeMax ∨ p.currentLine.utf8ByteSize+spacesToAdd > isizeMax then .error .capacityOverflow
    else .ok (handleOutput [asciiHt]
      { p with currentLine := p.currentLine ++ String.ofList (List.replicate spacesToAdd ' ')
               columnPosition := p.columnPosition+spacesToAdd })

def handleLinefeed (p : ASCIIParser) : ASCIIParser :=
  handleOutput [asciiLf] { p.flushCurrentLine with columnPosition := 0 }

def handleVerticalTab (p : ASCIIParser) : ASCIIParser := p.handleLinefeed

def handleFormFeed (p : ASCIIParser) : ASCIIParser :=
  handleOutput [asciiFf] { p.flushCurrentLine with lineBuffer := [],columnPosition := 0 }

def handleCarriageReturn (p : ASCIIParser) : ASCIIParser :=
  handleOutput [asciiCr] { p with columnPosition := 0 }

def handleSubstitute (p : ASCIIParser) : ASCIIParser :=
  handleOutput [asciiSub]
    { p with currentLine := (p.currentLine.push '^').push 'Z',columnPosition := p.columnPosition+2 }

def handleEscape (p : ASCIIParser) : ASCIIParser := handleOutput [asciiEsc] p

def handleDelete (p : ASCIIParser) : ASCIIParser :=
  handleOutput [asciiDel] (
    if !p.currentLine.isEmpty then
      { p with currentLine := pop p.currentLine,columnPosition := p.columnPosition-1 }
    else p)

/-- Every byte is a character. -/
def handlePrintable (byte : UInt8) (p : ASCIIParser) : ASCIIParser :=
  let c := Char.ofNat byte.toNat
  let p := { p with currentLine := p.currentLine.push c,columnPosition := p.columnPosition+1 }
  handleOutput [byte] (
    if c.isWhitespace then p.flushWordBuffer else { p with wordBuffer := p.wordBuffer.push c })

def handleInvalidByte (byte : UInt8) (p : ASCIIParser) : ASCIIParser :=
  handleOutput [byte] { p with currentLine := p.currentLine.push '?',columnPosition := p.columnPosition+1 }

def isPrintable (byte : UInt8) : Bool := 0x20 ≤ byte && byte ≤ 0x7E

def processByte (p : ASCIIParser) (byte : UInt8) : Except AsciiPanic ASCIIParser :=
  match byte with
  | asciiBel => .ok p.handleBell
  | asciiBs => .ok p.handleBackspace
  | asciiHt => p.handleTab
  | asciiLf => .ok p.handleLinefeed
  | asciiVt => .ok p.handleVerticalTab
  | asciiFf => .ok p.handleFormFeed
  | asciiCr => .ok p.handleCarriageReturn
  | asciiSub => .ok p.handleSubstitute
  | asciiEsc => .ok p.handleEscape
  | asciiDel => .ok p.handleDelete
  | _ => .ok (if isPrintable byte then p.handlePrintable byte else p.handleInvalidByte byte)

def processBytes (p : ASCIIParser) (bytes : Bytes) : Except AsciiPanic ASCIIParser := bytes.foldlM processByte p

def getColumn (p : ASCIIParser) : ℕ := p.columnPosition

def getCurrentLine (p : ASCIIParser) : String := p.currentLine

def getBuffer (p : ASCIIParser) : List String := p.lineBuffer

def getCurrentWord (p : ASCIIParser) : String := p.wordBuffer

def clear (p : ASCIIParser) : ASCIIParser :=
  { p with lineBuffer := [],currentLine := "",wordBuffer := "",columnPosition := 0 }

/-! ### The terminal of one row -/

open LineTerminal

/-- What a byte of text asks of a terminal. -/
def key (byte : UInt8) : Key Char :=
  if byte = asciiCr then .carriageReturn
  else if byte = asciiLf then .lineFeed
  else .print (Char.ofNat byte.toNat)

def isText (byte : UInt8) : Prop := isPrintable byte = true ∨ byte = asciiCr ∨ byte = asciiLf

def terminal (bytes : Bytes) : Screen Char := Screen.shown (bytes.map key)

/-- The parser has the lines and the column of the terminal, and the byte it took last, if
it was printed, stands right before the column. -/
structure Agrees (bytes : Bytes) (p : ASCIIParser) : Prop where
  buffer : p.getBuffer = (terminal bytes).lines.map String.ofList
  line : p.getCurrentLine = String.ofList (terminal bytes).row.cells
  column : p.getColumn = (terminal bytes).row.cursor
  printed : ∀ before byte, bytes = before ++ [byte] → isPrintable byte = true →
    p.getCurrentLine.toList[p.getColumn-1]? = some (Char.ofNat byte.toNat)

/-- The parser holds what is on a screen. -/
structure Shows (p : ASCIIParser) (s : Screen Char) : Prop where
  buffer : p.lineBuffer = s.lines.map String.ofList
  line : p.currentLine = String.ofList s.row.cells
  column : p.columnPosition = s.row.cursor

variable {p : ASCIIParser} {s : Screen Char} {byte : UInt8}

theorem new_shows : Shows new Screen.blank := ⟨rfl,rfl,rfl⟩

theorem handleOutput_shows {data : Bytes} (h : Shows p s) : Shows (handleOutput data p) s := ⟨h.1,h.2,h.3⟩

theorem handlePrintable_shows (h : Shows p s) (byte : UInt8) :
    Shows (handlePrintable byte p) (s.press Row.append (.print (Char.ofNat byte.toNat))) := by
  have hline : p.currentLine.push (Char.ofNat byte.toNat) =
      String.ofList (s.row.cells ++ [Char.ofNat byte.toNat]) := by
    apply String.toList_inj.mp
    simp [h.line]
  have hcolumn : p.columnPosition+1 = s.row.cursor+1 := by rw [h.column]
  refine handleOutput_shows ?_
  split
  · rw [flushWordBuffer]
    split <;> exact ⟨h.buffer,hline,hcolumn⟩
  · exact ⟨h.buffer,hline,hcolumn⟩

theorem handleCarriageReturn_shows (h : Shows p s) :
    Shows p.handleCarriageReturn (s.press Row.append .carriageReturn) :=
  handleOutput_shows ⟨h.buffer,h.line,rfl⟩

theorem handleLinefeed_shows (h : Shows p s) : Shows p.handleLinefeed (s.press Row.append .lineFeed) := by
  have hempty : p.currentLine.isEmpty = s.row.cells.isEmpty := by
    rw [h.line]
    cases s.row.cells <;> simp
  refine handleOutput_shows ?_
  rw [flushCurrentLine,hempty,Screen.press]
  cases hcells : s.row.cells with
  | nil =>
    refine ⟨h.buffer,?_,rfl⟩
    rw [if_neg (by simp),h.line,hcells]
    rfl
  | cons cell cells =>
    refine ⟨?_,rfl,rfl⟩
    simp [h.buffer,h.line,hcells]

theorem isPrintable_iff : isPrintable byte = true ↔ 0x20 ≤ byte.toNat ∧ byte.toNat ≤ 0x7E := by
  simp [isPrintable,UInt8.le_iff_toNat_le]

theorem key_printable (h : isPrintable byte = true) : key byte = .print (Char.ofNat byte.toNat) := by
  have hrange := isPrintable_iff.mp h
  have hcr : byte ≠ asciiCr := by
    rintro rfl
    exact absurd hrange (by decide)
  have hlf : byte ≠ asciiLf := by
    rintro rfl
    exact absurd hrange (by decide)
  rw [key,if_neg hcr,if_neg hlf]

theorem processByte_printable (h : isPrintable byte = true) : processByte p byte = .ok (p.handlePrintable byte) := by
  unfold processByte
  -- no control byte is printable
  split
  all_goals first
    | exact absurd h (by decide)
    | rw [if_pos h]

theorem processByte_shows (h : Shows p s) (hbyte : isText byte) :
    ∃ p', processByte p byte = .ok p' ∧ Shows p' (s.press Row.append (key byte)) := by
  rcases hbyte with hprintable | rfl | rfl
  · rw [key_printable hprintable]
    exact ⟨_,processByte_printable hprintable,handlePrintable_shows h byte⟩
  · exact ⟨_,rfl,handleCarriageReturn_shows h⟩
  · exact ⟨_,rfl,handleLinefeed_shows h⟩

/-- The parser keeps what a terminal would that only appends. -/
theorem processBytes_shows (bytes : Bytes) (hbytes : ∀ byte ∈ bytes, isText byte) :
    ∃ p, processBytes new bytes = .ok p ∧ Shows p (Screen.appended (bytes.map key)) := by
  induction bytes using List.reverseRecOn with
  | nil => exact ⟨new,rfl,new_shows⟩
  | append_singleton bytes byte ih =>
    obtain ⟨p,hp,hshows⟩ := ih fun byte hbyte => hbytes byte (List.mem_append_left _ hbyte)
    obtain ⟨p',hp',hshows'⟩ := processByte_shows hshows (hbytes byte (by simp))
    refine ⟨p',?_,?_⟩
    · rw [processBytes] at hp ⊢
      rw [List.foldlM_append,hp]
      change (processByte p byte >>= pure) = _
      rw [hp']
      rfl
    · rw [List.map_append,List.map_singleton,Screen.appended_snoc]
      exact hshows'

/-- On the terminal the byte that was printed is left of the cursor. -/
theorem terminal_printed {before : Bytes} (h : isPrintable byte = true) :
    (terminal (before ++ [byte])).row.cells[(terminal (before ++ [byte])).row.cursor-1]? =
      some (Char.ofNat byte.toNat) := by
  rw [terminal,List.map_append,List.map_singleton,Screen.shown_snoc,key_printable h]
  exact Row.put_cursor _ _

theorem Shows.agrees_iff {bytes : Bytes} (h : Shows p s) : Agrees bytes p ↔ terminal bytes = s := by
  constructor
  · intro hagrees
    have hlines : (terminal bytes).lines.map String.ofList = s.lines.map String.ofList :=
      hagrees.buffer.symm.trans h.buffer
    have hcells : (terminal bytes).row.cells = s.row.cells := String.ofList_inj.mp (hagrees.line.symm.trans h.line)
    have hcursor : (terminal bytes).row.cursor = s.row.cursor := hagrees.column.symm.trans h.column
    refine Screen.ext (List.map_injective_iff.mpr (fun _ _ => String.ofList_inj.mp) hlines) ?_
    exact Row.ext hcells hcursor
  · rintro rfl
    refine ⟨h.buffer,h.line,h.column,?_⟩
    rintro before byte rfl hprintable
    rw [getCurrentLine,getColumn,h.line,h.column,String.toList_ofList]
    exact terminal_printed hprintable

/-- The parser is the terminal exactly when no line is printed over after a carriage return. -/
theorem processBytes_agrees_iff (bytes : Bytes) (hbytes : ∀ byte ∈ bytes, isText byte) :
    (∃ p, processBytes new bytes = .ok p ∧ Agrees bytes p) ↔
      ∀ line ∈ (bytes.map key).splitOn .lineFeed, ¬PrintsOver line := by
  obtain ⟨p,hp,hshows⟩ := processBytes_shows bytes hbytes
  rw [← shown_eq_appended_iff,← terminal,← hshows.agrees_iff]
  constructor
  · rintro ⟨p',hp',hagrees⟩
    rw [hp,Except.ok.injEq] at hp'
    rw [hp']
    exact hagrees
  · exact fun hagrees => ⟨p,hp,hagrees⟩

theorem processBytes_agrees_prompt :
    (∀ byte ∈ ([0x61,0x0D,0x0A,0x62] : Bytes), isText byte) ∧
    ((∃ p, processBytes new [0x61,0x0D,0x0A,0x62] = .ok p ∧ Agrees [0x61,0x0D,0x0A,0x62] p) ↔
      ∀ line ∈ ([0x61,0x0D,0x0A,0x62].map key).splitOn .lineFeed, ¬PrintsOver line) := by
  have hbytes : ∀ byte ∈ ([0x61,0x0D,0x0A,0x62] : Bytes), isText byte := by simp [isText,isPrintable,asciiCr,asciiLf]
  exact ⟨hbytes,processBytes_agrees_iff _ hbytes⟩

/-- `ab`, CR and `c`: the line is `abc`, and `cb` is on the terminal. -/
theorem processBytes_misplaces : ¬∀ bytes : Bytes, (∀ byte ∈ bytes, isText byte) →
    ∃ p, processBytes new bytes = .ok p ∧ Agrees bytes p := by
  intro h
  obtain ⟨p,hp,hagrees⟩ := h [0x61,0x62,0x0D,0x63] (by simp [isText,isPrintable,asciiCr,asciiLf])
  obtain ⟨p',hp',hshows⟩ := processBytes_shows [0x61,0x62,0x0D,0x63] (by simp [isText,isPrintable,asciiCr,asciiLf])
  rw [hp,Except.ok.injEq] at hp'
  rw [hp'] at hagrees
  have hcells := congrArg (fun s => s.row.cells) (hshows.agrees_iff.mp hagrees)
  exact absurd hcells (by decide)

end ASCIIParser
end NodeRustPty
