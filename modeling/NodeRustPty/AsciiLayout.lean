import NodeRustPty.AsciiParser

/-! What every byte does to `ASCIIParser`: the byte it passes on, where the column goes in
the line, and what the lines are made of. -/
namespace NodeRustPty
namespace ASCIIParser

/-- How long the line is, and the column. -/
structure Layout where
  length : ℕ
  column : ℕ
  deriving DecidableEq

namespace Layout

def advance (l : Layout) (n : ℕ) : Layout := ⟨l.length+n,l.column+n⟩

def back (l : Layout) : Layout := ⟨l.length-1,l.column-1⟩

/-- What a tab adds. -/
def spaces (width : ℕ) (l : Layout) : ℕ := width-l.column%width

def step (width : ℕ) (l : Layout) (byte : UInt8) : Layout :=
  match byte with
  | asciiBel | asciiEsc => l
  | asciiBs => if l.column > 0 then l.back else l
  | asciiHt => l.advance (l.spaces width)
  | asciiLf | asciiVt | asciiFf => ⟨0,0⟩
  | asciiCr => ⟨l.length,0⟩
  | asciiSub => l.advance 2
  | asciiDel => if l.length > 0 then l.back else l
  | _ => l.advance 1

variable {width : ℕ} {l : Layout} {byte : UInt8}

theorem step_inBounds (h : l.column ≤ l.length) (byte : UInt8) :
    (l.step width byte).column ≤ (l.step width byte).length := by
  unfold step
  split <;> try split
  all_goals first
    | exact h
    | (dsimp only [advance,back]; omega)

/-- Only a carriage return parts the column from the end of the line. -/
theorem step_atEnd (h : l.column = l.length) (hbyte : byte ≠ asciiCr) :
    (l.step width byte).column = (l.step width byte).length := by
  unfold step
  split <;> try split
  all_goals first
    | exact h
    | rfl
    | exact absurd rfl hbyte
    | (dsimp only [advance,back]; omega)

theorem dvd_step_tab (hwidth : 0 < width) (l : Layout) : width ∣ (l.step width asciiHt).column := by
  have hlt := Nat.mod_lt l.column hwidth
  have hdiv := Nat.div_add_mod l.column width
  have hcolumn : (l.step width asciiHt).column = width*(l.column/width+1) := by
    change l.column+(width-l.column%width) = _
    rw [Nat.mul_succ]
    omega
  exact ⟨_,hcolumn⟩

end Layout

def layout (p : ASCIIParser) : Layout := ⟨p.currentLine.length,p.columnPosition⟩

/-! ### One byte -/

def controlBytes : Bytes :=
  [asciiBel,asciiBs,asciiHt,asciiLf,asciiVt,asciiFf,asciiCr,asciiSub,asciiEsc,asciiDel]

/-- The handler that a byte finds, and what it leaves. -/
inductive Handled (p : ASCIIParser) : UInt8 → ASCIIParser → Prop
  | bell : Handled p asciiBel p.handleBell
  | backspace : Handled p asciiBs p.handleBackspace
  | tab {p' : ASCIIParser} (h : p.handleTab = .ok p') : Handled p asciiHt p'
  | linefeed : Handled p asciiLf p.handleLinefeed
  | verticalTab : Handled p asciiVt p.handleVerticalTab
  | formFeed : Handled p asciiFf p.handleFormFeed
  | carriageReturn : Handled p asciiCr p.handleCarriageReturn
  | substitute : Handled p asciiSub p.handleSubstitute
  | escape : Handled p asciiEsc p.handleEscape
  | delete : Handled p asciiDel p.handleDelete
  | printable {byte : UInt8} (hbyte : byte ∉ controlBytes) (h : isPrintable byte = true) :
      Handled p byte (p.handlePrintable byte)
  | invalidByte {byte : UInt8} (hbyte : byte ∉ controlBytes) : Handled p byte (p.handleInvalidByte byte)

variable {p p' : ASCIIParser} {byte : UInt8}

theorem processByte_handled (h : processByte p byte = .ok p') : Handled p byte p' := by
  unfold processByte at h
  split at h
  case h_3 => exact .tab h
  case h_11 hbel hbs hht hlf hvt hff hcr hsub hesc hdel =>
    have hbyte : byte ∉ controlBytes := by
      simp only [controlBytes,List.mem_cons,List.not_mem_nil,or_false]
      rintro (rfl | rfl | rfl | rfl | rfl | rfl | rfl | rfl | rfl | rfl) <;> contradiction
    obtain rfl := Except.ok.inj h
    split
    · next hprintable => exact .printable hbyte hprintable
    · exact .invalidByte hbyte
  all_goals
    obtain rfl := Except.ok.inj h
    constructor

theorem handleTab_ok (h : p.handleTab = .ok p') :
    0 < p.tabWidth ∧ p.currentLine.utf8ByteSize+p.layout.spaces p.tabWidth ≤ isizeMax ∧ p' = handleOutput [asciiHt]
      { p with currentLine := p.currentLine ++ String.ofList (List.replicate (p.layout.spaces p.tabWidth) ' ')
               columnPosition := p.columnPosition+p.layout.spaces p.tabWidth } := by
  rw [handleTab] at h
  split at h
  · exact absurd h nofun
  · next hwidth =>
    dsimp only at h
    split at h
    · exact absurd h nofun
    · next hspaces =>
      rw [not_or] at hspaces
      exact ⟨Nat.pos_of_ne_zero hwidth,Nat.le_of_not_lt hspaces.2,(Except.ok.inj h).symm⟩

/-- VT is handled as LF is, down to the byte that goes out. -/
def passed (byte : UInt8) : UInt8 := if byte = asciiVt then asciiLf else byte

theorem flushWordBuffer_fields (p : ASCIIParser) : p.flushWordBuffer.outputs = p.outputs ∧
    p.flushWordBuffer.layout = p.layout ∧ p.flushWordBuffer.tabWidth = p.tabWidth ∧
    p.flushWordBuffer.currentLine = p.currentLine ∧ p.flushWordBuffer.lineBuffer = p.lineBuffer := by
  rw [flushWordBuffer]
  split <;> exact ⟨rfl,rfl,rfl,rfl,rfl⟩

theorem flushCurrentLine_fields (p : ASCIIParser) : p.flushCurrentLine.outputs = p.outputs ∧
    p.flushCurrentLine.tabWidth = p.tabWidth ∧ p.flushCurrentLine.currentLine = "" := by
  rw [flushCurrentLine]
  split
  · exact ⟨rfl,rfl,rfl⟩
  · next h => exact ⟨rfl,rfl,by simpa using h⟩

theorem length_pop (text : String) : (pop text).length = text.length-1 := by
  rw [pop,String.length_ofList,List.length_dropLast,String.length_toList]

theorem isEmpty_iff_length {text : String} : text.isEmpty = true ↔ text.length = 0 := by
  rw [String.isEmpty_iff,← String.length_eq_zero_iff]

/-- What goes out and where the line stands afterwards, whichever handler it was. -/
structure Moves (p : ASCIIParser) (byte : UInt8) (p' : ASCIIParser) : Prop where
  tabWidth : p'.tabWidth = p.tabWidth
  outputs : p'.outputs = p.outputs ++ [[passed byte]]
  layout : p'.layout = p.layout.step p.tabWidth byte

theorem handleBackspace_moves (p : ASCIIParser) : Moves p asciiBs p.handleBackspace := by
  by_cases hcolumn : p.columnPosition > 0
  · rw [handleBackspace,if_pos hcolumn]
    refine ⟨rfl,rfl,?_⟩
    have hlength : (if !p.currentLine.isEmpty then pop p.currentLine else p.currentLine).length =
        p.currentLine.length-1 := by
      split
      · exact length_pop _
      · next hempty =>
        have : p.currentLine.length = 0 := isEmpty_iff_length.mp (by simpa using hempty)
        omega
    change Layout.mk _ _ = if p.columnPosition > 0 then p.layout.back else _
    rw [if_pos hcolumn]
    exact congrArg (Layout.mk · (p.columnPosition-1)) hlength
  · rw [handleBackspace,if_neg hcolumn]
    refine ⟨rfl,rfl,?_⟩
    change p.layout = if p.columnPosition > 0 then _ else p.layout
    rw [if_neg hcolumn]

theorem handleDelete_moves (p : ASCIIParser) : Moves p asciiDel p.handleDelete := by
  by_cases hempty : p.currentLine.isEmpty
  · have hlength : ¬p.currentLine.length > 0 := by
      have := isEmpty_iff_length.mp hempty
      omega
    rw [handleDelete,if_neg (by simp [hempty])]
    refine ⟨rfl,rfl,?_⟩
    change p.layout = if p.currentLine.length > 0 then _ else p.layout
    rw [if_neg hlength]
  · have hlength : p.currentLine.length > 0 := Nat.pos_of_ne_zero fun h => hempty (isEmpty_iff_length.mpr h)
    rw [handleDelete,if_pos (by simp [hempty])]
    refine ⟨rfl,rfl,?_⟩
    change Layout.mk _ _ = if p.currentLine.length > 0 then p.layout.back else _
    rw [if_pos hlength]
    exact congrArg (Layout.mk · (p.columnPosition-1)) (length_pop _)

theorem flushed_layout (p : ASCIIParser) : layout { p.flushCurrentLine with columnPosition := 0 } = ⟨0,0⟩ := by
  change Layout.mk p.flushCurrentLine.currentLine.length 0 = _
  rw [(flushCurrentLine_fields p).2.2]
  rfl

theorem step_other {width : ℕ} {l : Layout} (hbyte : byte ∉ controlBytes) : l.step width byte = l.advance 1 := by
  unfold Layout.step
  split
  all_goals first
    | rfl
    | exact absurd hbyte (by decide)

theorem passed_other (hbyte : byte ∉ controlBytes) : passed byte = byte := by
  rw [passed,if_neg]
  rintro rfl
  exact absurd hbyte (by decide)

theorem handlePrintable_moves (hbyte : byte ∉ controlBytes) (p : ASCIIParser) : Moves p byte (p.handlePrintable byte) := by
  have hlayout : layout { p with currentLine := p.currentLine.push (Char.ofNat byte.toNat)
                                 columnPosition := p.columnPosition+1 } = p.layout.step p.tabWidth byte := by
    rw [step_other hbyte,layout,String.length_push]
    rfl
  rw [handlePrintable]
  dsimp only
  split
  · obtain ⟨houtputs,hmoved,hwidth,-,-⟩ := flushWordBuffer_fields { p with
      currentLine := p.currentLine.push (Char.ofNat byte.toNat), columnPosition := p.columnPosition+1 }
    refine ⟨hwidth,?_,hmoved.trans hlayout⟩
    rw [passed_other hbyte]
    exact congrArg (· ++ [[byte]]) houtputs
  · refine ⟨rfl,?_,hlayout⟩
    rw [passed_other hbyte]
    rfl

theorem handleInvalidByte_moves (hbyte : byte ∉ controlBytes) (p : ASCIIParser) :
    Moves p byte (p.handleInvalidByte byte) := by
  refine ⟨rfl,?_,?_⟩
  · rw [passed_other hbyte]
    rfl
  · change Layout.mk (p.currentLine.push '?').length (p.columnPosition+1) = _
    rw [step_other hbyte,String.length_push]
    rfl

theorem Handled.moves (h : Handled p byte p') : Moves p byte p' := by
  obtain ⟨houtputs,hwidth,-⟩ := flushCurrentLine_fields p
  cases h with
  | bell | carriageReturn | escape => exact ⟨rfl,rfl,rfl⟩
  | backspace => exact handleBackspace_moves p
  | delete => exact handleDelete_moves p
  | printable hbyte _ => exact handlePrintable_moves hbyte p
  | invalidByte hbyte => exact handleInvalidByte_moves hbyte p
  | tab h =>
    obtain ⟨-,-,rfl⟩ := handleTab_ok h
    refine ⟨rfl,rfl,?_⟩
    change Layout.mk (p.currentLine ++ _).length _ = _
    rw [String.length_append,String.length_ofList,List.length_replicate]
    rfl
  | substitute =>
    refine ⟨rfl,rfl,?_⟩
    change Layout.mk ((p.currentLine.push '^').push 'Z').length _ = _
    rw [String.length_push,String.length_push]
    rfl
  | linefeed | verticalTab => exact ⟨hwidth,congrArg (· ++ [[asciiLf]]) houtputs,flushed_layout p⟩
  | formFeed => exact ⟨hwidth,congrArg (· ++ [[asciiFf]]) houtputs,flushed_layout p⟩

/-! ### What goes out -/

/-- The slices that the handler got on the way from `p` to `p'` make up `out`. -/
def HandedOver (p p' : ASCIIParser) (out : Bytes) : Prop :=
  ∃ slices, p'.outputs = p.outputs ++ slices ∧ slices.flatten = out

theorem foldlM_cons_ok {σ α ε : Type} {f : σ → α → Except ε σ} {x : α} {xs : List α} {s s'' : σ}
    (h : (x::xs).foldlM f s = .ok s'') : ∃ s', f s x = .ok s' ∧ xs.foldlM f s' = .ok s'' := by
  rw [List.foldlM_cons] at h
  cases hstep : f s x with
  | error e =>
    rw [hstep] at h
    exact absurd h nofun
  | ok s' =>
    rw [hstep] at h
    exact ⟨s',rfl,h⟩

theorem processBytes_outputs {bytes : Bytes} (h : processBytes p bytes = .ok p') :
    p'.outputs = p.outputs ++ bytes.map fun byte => [passed byte] := by
  induction bytes generalizing p with
  | nil =>
    obtain rfl := Except.ok.inj h
    simp
  | cons byte bytes ih =>
    obtain ⟨q,hstep,hrest⟩ := foldlM_cons_ok h
    rw [ih hrest,(processByte_handled hstep).moves.outputs,List.append_assoc]
    rfl

/-- What is passed on is the input with LF for every VT. -/
theorem processBytes_handsOver (bytes : Bytes) (h : processBytes p bytes = .ok p') :
    HandedOver p p' (bytes.map passed) := by
  refine ⟨_,processBytes_outputs h,?_⟩
  rw [← List.flatMap_def]
  exact List.map_eq_flatMap.symm

theorem processBytes_handsOver_bell : ∃ p', processBytes new [asciiBel,asciiHt,asciiVt] = .ok p' ∧
    HandedOver new p' [asciiBel,asciiHt,asciiLf] :=
  ⟨_,rfl,processBytes_handsOver [asciiBel,asciiHt,asciiVt] rfl⟩

/-- VT alone goes out as LF. -/
theorem processBytes_changes : ¬∀ (p p' : ASCIIParser) (bytes : Bytes), 1 ≤ p.tabWidth →
    processBytes p bytes = .ok p' → HandedOver p p' bytes := by
  intro h
  obtain ⟨slices,houtputs,hslices⟩ := h new _ [asciiVt] (by decide) rfl
  obtain rfl : [[asciiLf]] = slices := houtputs
  exact absurd hslices (by decide)

/-! ### What the parser keeps -/

inductive Call
  | processByte (byte : UInt8)
  | clear
  | setTabWidth (width : ℕ) (positive : 1 ≤ width)

def Call.run (p : ASCIIParser) : Call → Except AsciiPanic ASCIIParser
  | .processByte byte => p.processByte byte
  | .clear => .ok p.clear
  | .setTabWidth width _ => .ok (p.setTabWidth width)

/-- A new parser after these calls. -/
def runCalls (calls : List Call) : Except AsciiPanic ASCIIParser := calls.foldlM Call.run new

def isClean (text : String) : Prop := ∀ c ∈ text.toList, 0x20 ≤ c.toNat ∧ c.toNat ≤ 0x7E

/-- What holds of a parser after these calls. Whatever resets the line leaves it empty. -/
structure Kept (calls : List Call) (p : ASCIIParser) : Prop where
  inBounds : p.getColumn ≤ p.getCurrentLine.length
  atEnd : ∀ before after q, calls = before ++ after → runCalls before = .ok q → q.getCurrentLine = "" →
    (∀ call ∈ after, call ≠ .processByte asciiCr) → p.getColumn = p.getCurrentLine.length
  line : isClean p.getCurrentLine
  buffer : ∀ line ∈ p.getBuffer, line ≠ "" ∧ isClean line
  tab : ∀ before, calls = before ++ [.processByte asciiHt] → p.tabWidth ∣ p.getColumn

/-- What the lines are made of. -/
structure Clean (p : ASCIIParser) : Prop where
  line : isClean p.currentLine
  buffer : ∀ line ∈ p.lineBuffer, line ≠ "" ∧ isClean line

theorem isClean_push {text : String} (h : isClean text) {c : Char} (hc : 0x20 ≤ c.toNat ∧ c.toNat ≤ 0x7E) :
    isClean (text.push c) := by
  intro d hd
  rw [String.toList_push,List.mem_append,List.mem_singleton] at hd
  rcases hd with hd | rfl
  · exact h d hd
  · exact hc

theorem isClean_pop {text : String} (h : isClean text) : isClean (pop text) := by
  intro c hc
  rw [pop,String.toList_ofList] at hc
  exact h c (List.mem_of_mem_dropLast hc)

theorem isClean_spaces {text : String} (h : isClean text) (n : ℕ) :
    isClean (text ++ String.ofList (List.replicate n ' ')) := by
  intro c hc
  rw [String.toList_append,String.toList_ofList,List.mem_append] at hc
  rcases hc with hc | hc
  · exact h c hc
  · obtain rfl := List.eq_of_mem_replicate hc
    decide

theorem Clean.flushCurrentLine (h : Clean p) : Clean p.flushCurrentLine := by
  rw [ASCIIParser.flushCurrentLine]
  split
  · next hline =>
    refine ⟨by simp [isClean],fun line hmem => ?_⟩
    rcases List.mem_append.mp hmem with hmem | hmem
    · exact h.buffer line hmem
    · obtain rfl := List.mem_singleton.mp hmem
      exact ⟨by simpa using hline,h.line⟩
  · exact h

theorem Clean.handlePrintable (h : Clean p) (hprintable : isPrintable byte = true) : Clean (p.handlePrintable byte) := by
  have hrange := isPrintable_iff.mp hprintable
  have hc : (Char.ofNat byte.toNat).toNat = byte.toNat := by
    have hvalid : byte.toNat.isValidChar := .inl (by omega)
    rw [Char.ofNat,dif_pos hvalid]
    rfl
  have hline : isClean (p.currentLine.push (Char.ofNat byte.toNat)) := isClean_push h.line (by rw [hc]; exact hrange)
  rw [ASCIIParser.handlePrintable]
  dsimp only
  split
  · obtain ⟨-,-,-,hcurrent,hbuffer⟩ := flushWordBuffer_fields { p with
      currentLine := p.currentLine.push (Char.ofNat byte.toNat), columnPosition := p.columnPosition+1 }
    refine ⟨?_,?_⟩
    · rw [handleOutput,hcurrent]
      exact hline
    · rw [handleOutput,hbuffer]
      exact h.buffer
  · exact ⟨hline,h.buffer⟩

theorem Handled.clean (hp : Clean p) (h : Handled p byte p') : Clean p' := by
  cases h with
  | bell | carriageReturn | escape => exact ⟨hp.line,hp.buffer⟩
  | printable _ hprintable => exact hp.handlePrintable hprintable
  | invalidByte => exact ⟨isClean_push hp.line (by decide),hp.buffer⟩
  | substitute => exact ⟨isClean_push (isClean_push hp.line (by decide)) (by decide),hp.buffer⟩
  | linefeed | verticalTab => exact ⟨hp.flushCurrentLine.line,hp.flushCurrentLine.buffer⟩
  | formFeed => exact ⟨hp.flushCurrentLine.line,nofun⟩
  | tab h =>
    obtain ⟨-,-,rfl⟩ := handleTab_ok h
    exact ⟨isClean_spaces hp.line _,hp.buffer⟩
  | backspace =>
    rw [handleBackspace]
    split
    · refine ⟨?_,hp.buffer⟩
      change isClean (if !p.currentLine.isEmpty then pop p.currentLine else p.currentLine)
      split
      · exact isClean_pop hp.line
      · exact hp.line
    · exact ⟨hp.line,hp.buffer⟩
  | delete =>
    rw [handleDelete]
    split
    · exact ⟨isClean_pop hp.line,hp.buffer⟩
    · exact ⟨hp.line,hp.buffer⟩

/-- What every call keeps; the rest of what is kept looks back at the calls. -/
structure Tidy (p : ASCIIParser) : Prop extends Clean p where
  positive : 1 ≤ p.tabWidth
  inBounds : p.layout.column ≤ p.layout.length

theorem new_tidy : Tidy new where
  line := by simp [new,isClean]
  buffer := by simp [new]
  positive := by decide
  inBounds := le_rfl

theorem Call.run_tidy (hp : Tidy p) {call : Call} (h : call.run p = .ok p') : Tidy p' := by
  cases call with
  | processByte byte =>
    have hhandled := processByte_handled h
    have hclean := hhandled.clean hp.toClean
    refine ⟨hclean,?_,?_⟩
    · rw [hhandled.moves.tabWidth]
      exact hp.positive
    · rw [hhandled.moves.layout]
      exact Layout.step_inBounds hp.inBounds byte
  | clear =>
    obtain rfl := Except.ok.inj h
    exact ⟨⟨by simp [ASCIIParser.clear,isClean],nofun⟩,hp.positive,le_rfl⟩
  | setTabWidth width positive =>
    obtain rfl := Except.ok.inj h
    exact ⟨⟨hp.line,hp.buffer⟩,positive,hp.inBounds⟩

theorem Call.run_atEnd (hp : p.layout.column = p.layout.length) {call : Call} (hcall : call ≠ .processByte asciiCr)
    (h : call.run p = .ok p') : p'.layout.column = p'.layout.length := by
  cases call with
  | processByte byte =>
    rw [(processByte_handled h).moves.layout]
    exact Layout.step_atEnd hp fun hbyte => hcall (congrArg _ hbyte)
  | clear =>
    obtain rfl := Except.ok.inj h
    rfl
  | setTabWidth width positive =>
    obtain rfl := Except.ok.inj h
    exact hp

theorem foldlM_tidy {calls : List Call} (hp : Tidy p) (h : calls.foldlM Call.run p = .ok p') : Tidy p' := by
  induction calls generalizing p with
  | nil =>
    obtain rfl := Except.ok.inj h
    exact hp
  | cons call calls ih =>
    obtain ⟨q,hstep,hrest⟩ := foldlM_cons_ok h
    exact ih (Call.run_tidy hp hstep) hrest

theorem foldlM_atEnd {calls : List Call} (hp : p.layout.column = p.layout.length)
    (hcalls : ∀ call ∈ calls, call ≠ .processByte asciiCr) (h : calls.foldlM Call.run p = .ok p') :
    p'.layout.column = p'.layout.length := by
  induction calls generalizing p with
  | nil =>
    obtain rfl := Except.ok.inj h
    exact hp
  | cons call calls ih =>
    obtain ⟨q,hstep,hrest⟩ := foldlM_cons_ok h
    have hq := Call.run_atEnd hp (hcalls call List.mem_cons_self) hstep
    exact ih hq (fun call hcall => hcalls call (List.mem_cons_of_mem _ hcall)) hrest

theorem runCalls_append {before after : List Call} (h : runCalls (before ++ after) = .ok p') :
    ∃ q, runCalls before = .ok q ∧ after.foldlM Call.run q = .ok p' := by
  rw [runCalls,List.foldlM_append] at h
  cases hbefore : runCalls before with
  | error e =>
    rw [← runCalls,hbefore] at h
    exact absurd h nofun
  | ok q =>
    rw [← runCalls,hbefore] at h
    exact ⟨q,rfl,h⟩

theorem runCalls_kept (calls : List Call) (h : runCalls calls = .ok p) : Kept calls p := by
  have htidy := foldlM_tidy new_tidy h
  refine ⟨htidy.inBounds,?_,htidy.line,htidy.buffer,?_⟩
  · rintro before after q rfl hbefore hempty hafter
    obtain ⟨q',hq',hrun⟩ := runCalls_append h
    obtain rfl : q = q' := by rw [hbefore] at hq'; exact Except.ok.inj hq'
    have hlength : q.layout.length = 0 := congrArg String.length hempty
    have hq := (foldlM_tidy new_tidy hbefore).inBounds
    exact foldlM_atEnd (by omega) hafter hrun
  · rintro before rfl
    obtain ⟨q,hbefore,hrun⟩ := runCalls_append h
    obtain ⟨p',hstep,hnil⟩ := foldlM_cons_ok hrun
    obtain rfl := Except.ok.inj hnil
    have hmoves := (processByte_handled (show q.processByte asciiHt = .ok p' from hstep)).moves
    have hdvd := Layout.dvd_step_tab (foldlM_tidy new_tidy hbefore).positive q.layout
    rw [← hmoves.layout,← hmoves.tabWidth] at hdvd
    exact hdvd

theorem runCalls_kept_tab : ∃ p, runCalls [.setTabWidth 4 (by decide),.processByte 0x61,.processByte asciiHt] = .ok p ∧
    Kept [.setTabWidth 4 (by decide),.processByte 0x61,.processByte asciiHt] p :=
  ⟨_,rfl,runCalls_kept _ rfl⟩

end ASCIIParser
end NodeRustPty
