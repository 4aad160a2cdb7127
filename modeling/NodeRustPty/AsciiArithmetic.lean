import NodeRustPty.AsciiLayout

/-! `ASCIIParser` on a machine of 64 bits: every sum, difference, remainder and allocation of
its handlers with the panic it can end in. -/
namespace NodeRustPty
namespace ASCIIParser

def usizeMax : ℕ := 2^64-1

/-- A string or a vector is `full` where its capacity would go beyond `isizeMax`. -/
inductive Panic
  | remainderByZero
  | addOverflow
  | subOverflow
  | repeatOverflow
  | full
  deriving DecidableEq

/-- A panic of the arithmetic, the repetition of a string included. -/
def Panic.Arithmetic (panic : Panic) : Prop := panic ≠ .full

namespace Usize

def rem (a b : ℕ) : Except Panic ℕ := if b = 0 then .error .remainderByZero else .ok (a%b)

def add (a b : ℕ) : Except Panic ℕ := if a+b > usizeMax then .error .addOverflow else .ok (a+b)

def sub (a b : ℕ) : Except Panic ℕ := if a < b then .error .subOverflow else .ok (a-b)

end Usize

def repeatSpace (n : ℕ) : Except Panic String :=
  if n > isizeMax then .error .repeatOverflow else .ok (String.ofList (List.replicate n ' '))

def pushStr (text more : String) : Except Panic String :=
  if text.utf8ByteSize+more.utf8ByteSize > isizeMax then .error .full else .ok (text ++ more)

/-- What a `String` takes in a vector. -/
def stringSize : ℕ := 24

def pushLine (buffer : List String) (line : String) : Except Panic (List String) :=
  if (buffer.length+1)*stringSize > isizeMax then .error .full else .ok (buffer ++ [line])

namespace Machine

def flushCurrentLine (p : ASCIIParser) : Except Panic ASCIIParser := do
  if !p.currentLine.isEmpty then
    let lineBuffer ← pushLine p.lineBuffer p.currentLine
    return { p with lineBuffer := lineBuffer,currentLine := "",wordBuffer := "" }
  return p

def handleBackspace (p : ASCIIParser) : Except Panic ASCIIParser := do
  if p.columnPosition > 0 then
    let column ← Usize.sub p.columnPosition 1
    let line := if !p.currentLine.isEmpty then pop p.currentLine else p.currentLine
    return handleOutput [asciiBs] { p with columnPosition := column,currentLine := line }
  return handleOutput [asciiBs] p

def handleTab (p : ASCIIParser) : Except Panic ASCIIParser := do
  let past ← Usize.rem p.columnPosition p.tabWidth
  let spacesToAdd ← Usize.sub p.tabWidth past
  let line ← pushStr p.currentLine (← repeatSpace spacesToAdd)
  let column ← Usize.add p.columnPosition spacesToAdd
  return handleOutput [asciiHt] { p with currentLine := line,columnPosition := column }

def handleLinefeed (p : ASCIIParser) : Except Panic ASCIIParser := do
  let p ← flushCurrentLine p
  return handleOutput [asciiLf] { p with columnPosition := 0 }

def handleFormFeed (p : ASCIIParser) : Except Panic ASCIIParser := do
  let p ← flushCurrentLine p
  return handleOutput [asciiFf] { p with lineBuffer := [],columnPosition := 0 }

def handleSubstitute (p : ASCIIParser) : Except Panic ASCIIParser := do
  let line ← pushStr p.currentLine "^"
  let line ← pushStr line "Z"
  let column ← Usize.add p.columnPosition 2
  return handleOutput [asciiSub] { p with currentLine := line,columnPosition := column }

def handlePrintable (byte : UInt8) (p : ASCIIParser) : Except Panic ASCIIParser := do
  let c := Char.ofNat byte.toNat
  let line ← pushStr p.currentLine (String.singleton c)
  let column ← Usize.add p.columnPosition 1
  let p := { p with currentLine := line,columnPosition := column }
  if c.isWhitespace then
    return handleOutput [byte] p.flushWordBuffer
  let word ← pushStr p.wordBuffer (String.singleton c)
  return handleOutput [byte] { p with wordBuffer := word }

def handleInvalidByte (byte : UInt8) (p : ASCIIParser) : Except Panic ASCIIParser := do
  let line ← pushStr p.currentLine "?"
  let column ← Usize.add p.columnPosition 1
  return handleOutput [byte] { p with currentLine := line,columnPosition := column }

/-- What the handlers do that neither compute nor allocate is as it was; `saturating_sub` is
a difference of naturals. -/
def processByte (p : ASCIIParser) (byte : UInt8) : Except Panic ASCIIParser :=
  match byte with
  | asciiBel => .ok p.handleBell
  | asciiBs => handleBackspace p
  | asciiHt => handleTab p
  | asciiLf => handleLinefeed p
  | asciiVt => handleLinefeed p
  | asciiFf => handleFormFeed p
  | asciiCr => .ok p.handleCarriageReturn
  | asciiSub => handleSubstitute p
  | asciiEsc => .ok p.handleEscape
  | asciiDel => .ok p.handleDelete
  | _ => if isPrintable byte then handlePrintable byte p else handleInvalidByte byte p

end Machine

/-! ### Requests -/

/-- A call on the parser. Any `usize` is taken for a width. -/
inductive Request
  | setTabWidth (width : UInt64)
  | processBytes (bytes : Bytes)
  | clear

/-- What a call is made of. -/
inductive Piece
  | setTabWidth (width : UInt64)
  | processByte (byte : UInt8)
  | clear

def Request.run (p : ASCIIParser) : Request → Except Panic ASCIIParser
  | .setTabWidth width => .ok (p.setTabWidth width.toNat)
  | .processBytes bytes => bytes.foldlM Machine.processByte p
  | .clear => .ok p.clear

/-- A new parser after these calls, or the panic that one of them ended in. -/
def runRequests (requests : List Request) : Except Panic ASCIIParser := requests.foldlM Request.run new

def Request.pieces : Request → List Piece
  | .setTabWidth width => [.setTabWidth width]
  | .processBytes bytes => bytes.map .processByte
  | .clear => [.clear]

def Piece.run (p : ASCIIParser) : Piece → Except Panic ASCIIParser
  | .setTabWidth width => .ok (p.setTabWidth width.toNat)
  | .processByte byte => Machine.processByte p byte
  | .clear => .ok p.clear

def runPieces (pieces : List Piece) : Except Panic ASCIIParser := pieces.foldlM Piece.run new

variable {p p' : ASCIIParser} {byte : UInt8}

theorem Request.run_pieces (p : ASCIIParser) (request : Request) : request.run p = request.pieces.foldlM Piece.run p := by
  cases request with
  | setTabWidth width => rfl
  | clear => rfl
  | processBytes bytes =>
    rw [pieces,List.foldlM_map]
    rfl

theorem runRequests_pieces (requests : List Request) :
    runRequests requests = runPieces (requests.flatMap Request.pieces) := by
  rw [runRequests,runPieces]
  generalize new = p
  induction requests generalizing p with
  | nil => rfl
  | cons request requests ih =>
    rw [List.flatMap_cons,List.foldlM_append,List.foldlM_cons,Request.run_pieces]
    simp only [ih]

/-! ### One byte -/

/-- The width is one, and what is missing to the next stop fits in a string. -/
structure TabFits (p : ASCIIParser) : Prop where
  positive : 1 ≤ p.tabWidth
  short : p.layout.spaces p.tabWidth ≤ isizeMax

/-- The column is in the line, and the line in a string. -/
structure Small (p : ASCIIParser) : Prop where
  inBounds : p.layout.column ≤ p.layout.length
  fits : p.currentLine.utf8ByteSize ≤ isizeMax

/-- A vector or a string was full, or this is the parser, with a line that fits. -/
def Served (p : ASCIIParser) (result : Except Panic ASCIIParser) : Prop :=
  result = .error .full ∨ result = .ok p ∧ p.currentLine.utf8ByteSize ≤ isizeMax

theorem length_le_utf8ByteSize (text : String) : text.length ≤ text.utf8ByteSize := by
  have hchars (chars : List Char) : chars.length ≤ String.utf8Len chars := by
    induction chars with
    | nil => exact le_rfl
    | cons c chars ih => exact Nat.add_le_add ih c.utf8Size_pos
  rw [← String.length_toList,← String.ofList_toList (s := text),String.utf8ByteSize_ofList,String.toList_ofList]
  exact hchars _

theorem utf8ByteSize_pop (text : String) : (pop text).utf8ByteSize ≤ text.utf8ByteSize := by
  rw [pop,← String.ofList_toList (s := text),String.utf8ByteSize_ofList,String.utf8ByteSize_ofList,
    String.toList_ofList]
  exact String.utf8Len_le_of_sublist (List.dropLast_sublist _)

theorem utf8ByteSize_spaces (n : ℕ) : (String.ofList (List.replicate n ' ')).utf8ByteSize = n := by
  rw [String.utf8ByteSize_ofList]
  induction n with
  | zero => rfl
  | succ n ih =>
    rw [List.replicate_succ]
    change String.utf8Len _+1 = n+1
    rw [ih]

theorem Small.column (h : Small p) : p.columnPosition ≤ isizeMax :=
  h.inBounds.trans ((length_le_utf8ByteSize _).trans h.fits)

/-- A column in a string and what fits in a string do not overflow. -/
theorem Usize.add_small {a b : ℕ} (ha : a ≤ isizeMax) (hb : b ≤ isizeMax) : Usize.add a b = .ok (a+b) := by
  rw [Usize.add,if_neg]
  simp only [isizeMax,usizeMax] at *
  omega

theorem pushStr_cases (text more : String) : pushStr text more = .error .full ∨
    pushStr text more = .ok (text ++ more) ∧ (text ++ more).utf8ByteSize ≤ isizeMax := by
  rw [pushStr,String.utf8ByteSize_append]
  split
  · exact .inl rfl
  · next h => exact .inr ⟨rfl,Nat.le_of_not_lt h⟩

theorem flushCurrentLine_cases (p : ASCIIParser) :
    Machine.flushCurrentLine p = .error .full ∨ Machine.flushCurrentLine p = .ok p.flushCurrentLine := by
  rw [Machine.flushCurrentLine,flushCurrentLine]
  split
  · rw [pushLine]
    split
    · exact .inl rfl
    · exact .inr rfl
  · exact .inr rfl

theorem handleBackspace_served (hp : Small p) : Served p.handleBackspace (Machine.handleBackspace p) := by
  rw [Machine.handleBackspace,handleBackspace]
  split
  · next hcolumn =>
    have hsub : Usize.sub p.columnPosition 1 = .ok (p.columnPosition-1) := if_neg (by omega)
    rw [hsub]
    refine .inr ⟨rfl,?_⟩
    change (if !p.currentLine.isEmpty then pop p.currentLine else p.currentLine).utf8ByteSize ≤ isizeMax
    split
    · exact (utf8ByteSize_pop _).trans hp.fits
    · exact hp.fits
  · exact .inr ⟨rfl,hp.fits⟩

theorem handleDelete_served (hp : Small p) : Served p.handleDelete (.ok p.handleDelete) := by
  refine .inr ⟨rfl,?_⟩
  rw [handleDelete]
  split
  · exact (utf8ByteSize_pop _).trans hp.fits
  · exact hp.fits

/-- What comes after a push to the line and a move of the column. -/
theorem advance_cases {column n : ℕ} (hcolumn : column ≤ isizeMax) (hn : n ≤ isizeMax) (text more : String)
    (next : String → ℕ → Except Panic ASCIIParser) :
    (do next (← pushStr text more) (← Usize.add column n)) = .error .full ∨
    (do next (← pushStr text more) (← Usize.add column n)) = next (text ++ more) (column+n) ∧
      (text ++ more).utf8ByteSize ≤ isizeMax := by
  rcases pushStr_cases text more with hpush | ⟨hpush,hfits⟩
  · rw [hpush]
    exact .inl rfl
  · rw [hpush,Usize.add_small hcolumn hn]
    exact .inr ⟨rfl,hfits⟩

theorem handleTab_served (hp : Small p) (h : TabFits p) : Machine.handleTab p = .error .full ∨
    ∃ p', p.handleTab = .ok p' ∧ Served p' (Machine.handleTab p) := by
  have hlt := Nat.mod_lt p.columnPosition h.positive
  have hshort : p.tabWidth-p.columnPosition%p.tabWidth ≤ isizeMax := h.short
  have hwidth : p.tabWidth ≠ 0 := Nat.pos_iff_ne_zero.mp h.positive
  have hrem : Usize.rem p.columnPosition p.tabWidth = .ok (p.columnPosition%p.tabWidth) := if_neg hwidth
  have hsub : Usize.sub p.tabWidth (p.columnPosition%p.tabWidth) = .ok (p.tabWidth-p.columnPosition%p.tabWidth) :=
    if_neg (by omega)
  have hrepeat : repeatSpace (p.tabWidth-p.columnPosition%p.tabWidth) = .ok _ := if_neg (Nat.not_lt_of_le hshort)
  rw [Machine.handleTab,hrem]
  change (Usize.sub p.tabWidth (p.columnPosition%p.tabWidth) >>= _) = _ ∨
    ∃ p', _ ∧ Served p' (Usize.sub p.tabWidth (p.columnPosition%p.tabWidth) >>= _)
  rw [hsub]
  change (repeatSpace (p.tabWidth-p.columnPosition%p.tabWidth) >>= _) = _ ∨
    ∃ p', _ ∧ Served p' (repeatSpace (p.tabWidth-p.columnPosition%p.tabWidth) >>= _)
  rw [hrepeat]
  rcases advance_cases hp.column hshort p.currentLine
      (String.ofList (List.replicate (p.tabWidth-p.columnPosition%p.tabWidth) ' ')) fun line column =>
      return handleOutput [asciiHt] { p with currentLine := line,columnPosition := column } with hfull | ⟨hadvance,hfits⟩
  · exact .inl hfull
  · refine .inr ⟨_,?_,.inr ⟨hadvance,hfits⟩⟩
    rw [handleTab,if_neg hwidth]
    rw [String.utf8ByteSize_append,utf8ByteSize_spaces] at hfits
    exact if_neg (not_or.mpr ⟨Nat.not_lt_of_le hshort,Nat.not_lt_of_le hfits⟩)

/-- A width of zero has no remainder, and what does not fit cannot be repeated. -/
theorem handleTab_panics (h : ¬TabFits p) : ∃ panic, Machine.handleTab p = .error panic ∧ panic.Arithmetic := by
  rw [Machine.handleTab]
  by_cases hwidth : p.tabWidth = 0
  · refine ⟨.remainderByZero,?_,nofun⟩
    have hrem : Usize.rem p.columnPosition p.tabWidth = .error .remainderByZero := if_pos hwidth
    rw [hrem]
    rfl
  · have hpositive : 1 ≤ p.tabWidth := Nat.pos_of_ne_zero hwidth
    have hlt := Nat.mod_lt p.columnPosition hpositive
    have hshort : p.tabWidth-p.columnPosition%p.tabWidth > isizeMax :=
      Nat.lt_of_not_le fun hle => h ⟨hpositive,hle⟩
    refine ⟨.repeatOverflow,?_,nofun⟩
    have hrem : Usize.rem p.columnPosition p.tabWidth = .ok (p.columnPosition%p.tabWidth) := if_neg hwidth
    have hsub : Usize.sub p.tabWidth (p.columnPosition%p.tabWidth) = .ok (p.tabWidth-p.columnPosition%p.tabWidth) :=
      if_neg (by omega)
    have hrepeat : repeatSpace (p.tabWidth-p.columnPosition%p.tabWidth) = .error .repeatOverflow := if_pos hshort
    rw [hrem]
    change (Usize.sub p.tabWidth (p.columnPosition%p.tabWidth) >>= _) = _
    rw [hsub]
    change (repeatSpace (p.tabWidth-p.columnPosition%p.tabWidth) >>= _) = _
    rw [hrepeat]
    rfl

/-- What comes after the line has been handed on and leaves it empty. -/
theorem flushed_served (p : ASCIIParser) (next : ASCIIParser → ASCIIParser)
    (hnext : ∀ q, (next q).currentLine = q.currentLine) :
    Served (next p.flushCurrentLine) (do return next (← Machine.flushCurrentLine p)) := by
  rcases flushCurrentLine_cases p with h | h
  · rw [h]
    exact .inl rfl
  · rw [h]
    refine .inr ⟨rfl,?_⟩
    rw [hnext,(flushCurrentLine_fields p).2.2]
    exact Nat.zero_le _

theorem handleLinefeed_served (p : ASCIIParser) : Served p.handleLinefeed (Machine.handleLinefeed p) :=
  flushed_served p (fun q => handleOutput [asciiLf] { q with columnPosition := 0 }) fun _ => rfl

theorem handleFormFeed_served (p : ASCIIParser) : Served p.handleFormFeed (Machine.handleFormFeed p) :=
  flushed_served p (fun q => handleOutput [asciiFf] { q with lineBuffer := [],columnPosition := 0 }) fun _ => rfl

theorem handleSubstitute_served (hp : Small p) : Served p.handleSubstitute (Machine.handleSubstitute p) := by
  rw [Machine.handleSubstitute]
  rcases pushStr_cases p.currentLine "^" with hpush | ⟨hpush,-⟩
  · rw [hpush]
    exact .inl rfl
  · rw [hpush]
    rcases advance_cases hp.column (n := 2) (by decide) (p.currentLine ++ "^") "Z" fun line column =>
        return handleOutput [asciiSub] { p with currentLine := line,columnPosition := column } with
      hfull | ⟨hadvance,hfits⟩
    · exact .inl hfull
    · refine .inr ⟨hadvance.trans ?_,hfits⟩
      rfl

theorem handleInvalidByte_served (hp : Small p) (byte : UInt8) :
    Served (p.handleInvalidByte byte) (Machine.handleInvalidByte byte p) := by
  rw [Machine.handleInvalidByte]
  rcases advance_cases hp.column (n := 1) (by decide) p.currentLine "?" fun line column =>
      return handleOutput [byte] { p with currentLine := line,columnPosition := column } with hfull | ⟨hadvance,hfits⟩
  · exact .inl hfull
  · exact .inr ⟨hadvance,hfits⟩

theorem handlePrintable_served (hp : Small p) (byte : UInt8) :
    Served (p.handlePrintable byte) (Machine.handlePrintable byte p) := by
  rw [Machine.handlePrintable,handlePrintable]
  dsimp only
  rw [← String.append_singleton]
  rcases advance_cases hp.column (n := 1) (by decide) p.currentLine (String.singleton (Char.ofNat byte.toNat))
      fun line column => do
        let p := { p with currentLine := line,columnPosition := column }
        if (Char.ofNat byte.toNat).isWhitespace then
          return handleOutput [byte] p.flushWordBuffer
        let word ← pushStr p.wordBuffer (String.singleton (Char.ofNat byte.toNat))
        return handleOutput [byte] { p with wordBuffer := word } with hfull | ⟨hadvance,hfits⟩
  · exact .inl hfull
  · by_cases hblank : (Char.ofNat byte.toNat).isWhitespace = true
    · rw [if_pos hblank] at hadvance
      rw [if_pos hblank]
      refine .inr ⟨hadvance,?_⟩
      obtain ⟨-,-,-,hline,-⟩ := flushWordBuffer_fields { p with
        currentLine := p.currentLine ++ String.singleton (Char.ofNat byte.toNat), columnPosition := p.columnPosition+1 }
      rw [handleOutput,hline]
      exact hfits
    · rw [if_neg hblank] at hadvance
      rw [if_neg hblank,← String.append_singleton]
      rcases pushStr_cases p.wordBuffer (String.singleton (Char.ofNat byte.toNat)) with hpush | ⟨hpush,-⟩
      · rw [hpush] at hadvance
        exact .inl hadvance
      · rw [hpush] at hadvance
        exact .inr ⟨hadvance,hfits⟩

theorem processByte_other (hbyte : byte ∉ controlBytes) : processByte p byte =
    .ok (if isPrintable byte then p.handlePrintable byte else p.handleInvalidByte byte) := by
  unfold processByte
  split
  all_goals first
    | rfl
    | exact absurd hbyte (by decide)

theorem Machine.processByte_other (hbyte : byte ∉ controlBytes) : Machine.processByte p byte =
    if isPrintable byte then Machine.handlePrintable byte p else Machine.handleInvalidByte byte p := by
  unfold Machine.processByte
  split
  all_goals first
    | rfl
    | exact absurd hbyte (by decide)

/-- A byte finds the line full or is served, unless it is a tab that does not fit. -/
theorem processByte_served (hp : Small p) (h : byte = asciiHt → TabFits p) :
    Machine.processByte p byte = .error .full ∨
      ∃ p', processByte p byte = .ok p' ∧ Served p' (Machine.processByte p byte) := by
  by_cases htab : byte = asciiHt
  · obtain rfl := htab
    exact handleTab_served hp (h rfl)
  refine .inr ?_
  by_cases hbyte : byte ∈ controlBytes
  · simp only [controlBytes,List.mem_cons,List.not_mem_nil,or_false] at hbyte
    rcases hbyte with rfl | rfl | rfl | rfl | rfl | rfl | rfl | rfl | rfl | rfl
    · exact ⟨_,rfl,.inr ⟨rfl,hp.fits⟩⟩
    · exact ⟨_,rfl,handleBackspace_served hp⟩
    · exact absurd rfl htab
    · exact ⟨_,rfl,handleLinefeed_served p⟩
    · exact ⟨_,rfl,handleLinefeed_served p⟩
    · exact ⟨_,rfl,handleFormFeed_served p⟩
    · exact ⟨_,rfl,.inr ⟨rfl,hp.fits⟩⟩
    · exact ⟨_,rfl,handleSubstitute_served hp⟩
    · exact ⟨_,rfl,.inr ⟨rfl,hp.fits⟩⟩
    · exact ⟨_,rfl,handleDelete_served hp⟩
  · rw [processByte_other hbyte,Machine.processByte_other hbyte]
    split
    · exact ⟨_,rfl,handlePrintable_served hp byte⟩
    · exact ⟨_,rfl,handleInvalidByte_served hp byte⟩

/-- What the parser is on this machine is what it is without bounds. -/
theorem Machine.processByte_ok (hp : Small p) (h : Machine.processByte p byte = .ok p') :
    ASCIIParser.processByte p byte = .ok p' ∧ Small p' := by
  have hfits : byte = asciiHt → TabFits p := by
    rintro rfl
    by_contra hnot
    obtain ⟨panic,hpanic,-⟩ := handleTab_panics hnot
    rw [show Machine.processByte p asciiHt = Machine.handleTab p from rfl,hpanic] at h
    exact absurd h nofun
  rcases processByte_served hp hfits with hfull | ⟨q,hq,hfull | ⟨hok,hline⟩⟩
  · rw [hfull] at h
    exact absurd h nofun
  · rw [hfull] at h
    exact absurd h nofun
  · rw [hok] at h
    obtain rfl := Except.ok.inj h
    refine ⟨hq,?_,hline⟩
    rw [(processByte_handled hq).moves.layout]
    exact Layout.step_inBounds hp.inBounds byte

/-! ### All the calls -/

theorem Piece.run_small (hp : Small p) {piece : Piece} (h : piece.run p = .ok p') : Small p' := by
  cases piece with
  | setTabWidth width =>
    obtain rfl := Except.ok.inj h
    exact ⟨hp.inBounds,hp.fits⟩
  | processByte byte => exact (Machine.processByte_ok hp h).2
  | clear =>
    obtain rfl := Except.ok.inj h
    exact ⟨le_rfl,Nat.zero_le _⟩

theorem foldlM_small {pieces : List Piece} (hp : Small p) (h : pieces.foldlM Piece.run p = .ok p') : Small p' := by
  induction pieces generalizing p with
  | nil =>
    obtain rfl := Except.ok.inj h
    exact hp
  | cons piece pieces ih =>
    obtain ⟨q,hstep,hrest⟩ := foldlM_cons_ok h
    exact ih (Piece.run_small hp hstep) hrest

/-- A piece ends in a panic of the arithmetic only where it is a tab that does not fit. -/
theorem Piece.run_panics_iff (hp : Small p) (piece : Piece) :
    (∃ panic, piece.run p = .error panic ∧ panic.Arithmetic) ↔ piece = .processByte asciiHt ∧ ¬TabFits p := by
  constructor
  · rintro ⟨panic,hpanic,harithmetic⟩
    cases piece with
    | setTabWidth width => exact absurd hpanic nofun
    | clear => exact absurd hpanic nofun
    | processByte byte =>
      by_contra hnot
      have hfits : byte = asciiHt → TabFits p := by
        rintro rfl
        by_contra hfits
        exact hnot ⟨rfl,hfits⟩
      rw [show (Piece.processByte byte).run p = Machine.processByte p byte from rfl] at hpanic
      rcases processByte_served hp hfits with hfull | ⟨p',-,hfull | ⟨hok,-⟩⟩
      · rw [hfull] at hpanic
        exact harithmetic (Except.error.inj hpanic).symm
      · rw [hfull] at hpanic
        exact harithmetic (Except.error.inj hpanic).symm
      · rw [hok] at hpanic
        exact absurd hpanic nofun
  · rintro ⟨rfl,hnot⟩
    exact handleTab_panics hnot

theorem new_small : Small new := ⟨le_rfl,Nat.zero_le _⟩

/-- A list of pieces ends in a panic where one of them does. -/
theorem foldlM_error_iff {pieces : List Piece} {panic : Panic} : pieces.foldlM Piece.run p = .error panic ↔
    ∃ before piece after q, pieces = before ++ piece::after ∧ before.foldlM Piece.run p = .ok q ∧
      piece.run q = .error panic := by
  induction pieces generalizing p with
  | nil =>
    refine ⟨nofun,?_⟩
    rintro ⟨before,piece,after,q,h,-⟩
    exact absurd h (by simp)
  | cons piece pieces ih =>
    rw [List.foldlM_cons]
    cases hstep : piece.run p with
    | error e =>
      refine ⟨fun h => ⟨[],piece,pieces,p,rfl,rfl,hstep.trans h⟩,?_⟩
      rintro ⟨_ | ⟨first,before⟩,piece',after,q,hsplit,hbefore,hpanic⟩
      · obtain ⟨rfl,-⟩ := List.cons.inj hsplit
        obtain rfl := Except.ok.inj hbefore
        exact hstep.symm.trans hpanic
      · obtain ⟨rfl,-⟩ := List.cons.inj hsplit
        rw [List.foldlM_cons,hstep] at hbefore
        exact absurd hbefore nofun
    | ok p' =>
      change pieces.foldlM Piece.run p' = .error panic ↔ _
      rw [ih]
      constructor
      · rintro ⟨before,piece',after,q,rfl,hbefore,hpanic⟩
        refine ⟨piece::before,piece',after,q,rfl,?_,hpanic⟩
        rw [List.foldlM_cons,hstep]
        exact hbefore
      · rintro ⟨_ | ⟨first,before⟩,piece',after,q,hsplit,hbefore,hpanic⟩
        · obtain ⟨rfl,-⟩ := List.cons.inj hsplit
          obtain rfl := Except.ok.inj hbefore
          rw [hstep] at hpanic
          exact absurd hpanic nofun
        · obtain ⟨rfl,hrest⟩ := List.cons.inj hsplit
          rw [List.foldlM_cons,hstep] at hbefore
          exact ⟨before,piece',after,q,hrest,hbefore,hpanic⟩

/-- No calls end in a panic of the arithmetic exactly when every tab they come to has a width
and fits in a string. -/
theorem runRequests_panics_iff (requests : List Request) :
    (∀ panic, runRequests requests = .error panic → ¬panic.Arithmetic) ↔
      ∀ before after p, requests.flatMap Request.pieces = before ++ .processByte asciiHt::after →
        runPieces before = .ok p → TabFits p := by
  simp only [runRequests_pieces]
  generalize requests.flatMap Request.pieces = pieces
  constructor
  · intro h before after p hsplit hbefore
    by_contra hnot
    obtain ⟨panic,hpanic,harithmetic⟩ := handleTab_panics hnot
    exact h panic (foldlM_error_iff.mpr ⟨before,_,after,p,hsplit,hbefore,hpanic⟩) harithmetic
  · intro h panic hpanic harithmetic
    obtain ⟨before,piece,after,p,hsplit,hbefore,herror⟩ := foldlM_error_iff.mp hpanic
    have hsmall := foldlM_small new_small hbefore
    obtain ⟨rfl,hnot⟩ := (Piece.run_panics_iff hsmall piece).mp ⟨panic,herror,harithmetic⟩
    exact hnot (h before after p hsplit hbefore)

/-- A width of 0 and a tab. -/
theorem runRequests_divides : ¬∀ (requests : List Request) (panic : Panic),
    runRequests requests = .error panic → ¬panic.Arithmetic :=
  fun h => h [.setTabWidth 0,.processBytes [asciiHt]] .remainderByZero rfl nofun

end ASCIIParser
end NodeRustPty
