import NodeRustPty.AsciiLayout

/-! The word that `ASCIIParser` keeps beside the line, and the edits of the line that leave
it in step. -/
namespace NodeRustPty
namespace ASCIIParser

/-! ### The last word of a text -/

/-- The longest suffix without whitespace. -/
structure IsLastWord (line word : String) : Prop where
  suffix : word.toList <:+ line.toList
  unbroken : ∀ c ∈ word.toList, c.isWhitespace = false
  longest : ∀ other, other <:+ line.toList → (∀ c ∈ other, c.isWhitespace = false) → other.length ≤ word.length

def lastWord (text : List Char) : List Char := text.rtakeWhile (!·.isWhitespace)

/-- The text is empty, or whitespace is at its end. -/
def EndsBlank (text : List Char) : Prop := ∀ c, text.getLast? = some c → c.isWhitespace = true

variable {text : List Char} {c : Char}

theorem lastWord_blank (h : c.isWhitespace = true) : lastWord (text ++ [c]) = [] :=
  List.rtakeWhile_concat_neg _ _ _ (by simp [h])

theorem lastWord_concat (h : c.isWhitespace = false) : lastWord (text ++ [c]) = lastWord text ++ [c] :=
  List.rtakeWhile_concat_pos _ _ _ (by simp [h])

theorem lastWord_eq_nil_iff : lastWord text = [] ↔ EndsBlank text := by
  induction text using List.reverseRecOn with
  | nil => exact ⟨fun _ => nofun,fun _ => rfl⟩
  | append_singleton text c _ =>
    rw [EndsBlank,List.getLast?_concat]
    cases hc : c.isWhitespace with
    | true =>
      refine ⟨?_,fun _ => lastWord_blank hc⟩
      rintro - d ⟨rfl⟩
      exact hc
    | false =>
      rw [lastWord_concat hc]
      refine ⟨fun h => absurd h (by simp),fun h => ?_⟩
      rw [h c rfl] at hc
      exact absurd hc nofun

theorem lastWord_spaces {n : ℕ} (h : 0 < n) : lastWord (text ++ List.replicate n ' ') = [] := by
  obtain ⟨n,rfl⟩ := Nat.exists_eq_succ_of_ne_zero h.ne'
  rw [List.replicate_succ',← List.append_assoc]
  exact lastWord_blank rfl

theorem lastWord_append {word : List Char} (h : ∀ c ∈ word, c.isWhitespace = false) :
    lastWord (text ++ word) = lastWord text ++ word := by
  induction word using List.reverseRecOn with
  | nil => rw [List.append_nil,List.append_nil]
  | append_singleton word c ih =>
    rw [← List.append_assoc,lastWord_concat (h c (by simp)),ih fun d hd => h d (List.mem_append_left _ hd),
      List.append_assoc]

theorem isLastWord_iff {line word : String} : IsLastWord line word ↔ word.toList = lastWord line.toList := by
  have hsuffix : lastWord line.toList <:+ line.toList := List.rtakeWhile_suffix _ _
  have hunbroken (c : Char) (hc : c ∈ lastWord line.toList) : c.isWhitespace = false := by
    simpa using List.mem_rtakeWhile_imp hc
  have hlongest (other : List Char) (hother : other <:+ line.toList) (h : ∀ c ∈ other, c.isWhitespace = false) :
      other.length ≤ (lastWord line.toList).length := by
    obtain ⟨before,hline⟩ := hother
    rw [← hline,lastWord_append h,List.length_append]
    exact Nat.le_add_left _ _
  constructor
  · intro h
    have hle := hlongest _ h.suffix h.unbroken
    have hge := h.longest _ hsuffix hunbroken
    rw [← String.length_toList] at hge
    exact (List.suffix_of_suffix_length_le h.suffix hsuffix hle).eq_of_length (le_antisymm hle hge)
  · intro h
    refine ⟨h ▸ hsuffix,h ▸ hunbroken,fun other hother hall => ?_⟩
    rw [← String.length_toList,h]
    exact hlongest other hother hall

/-! ### One byte -/

/-- The bytes of typing: text, tabs, line feeds and the two that take a character back. -/
def isTyped (byte : UInt8) : Prop :=
  isPrintable byte = true ∨ byte = asciiHt ∨ byte = asciiLf ∨ byte = asciiBs ∨ byte = asciiDel

/-- The word is what it is meant to be. -/
def InStep (p : ASCIIParser) : Prop := IsLastWord p.getCurrentLine p.getCurrentWord

/-- A tab has no word to end, and what is taken back is whitespace after whitespace. -/
structure KeepsWord (p : ASCIIParser) (byte : UInt8) : Prop where
  blank : byte = asciiHt ∨ byte = asciiBs ∨ byte = asciiDel → EndsBlank p.getCurrentLine.toList
  blankBelow : byte = asciiBs ∨ byte = asciiDel → EndsBlank p.getCurrentLine.toList.dropLast

/-- The column is at the end of the line. -/
def AtEnd (p : ASCIIParser) : Prop := p.layout.column = p.layout.length

variable {p p' : ASCIIParser} {byte : UInt8}

theorem Handled.atEnd (hp : AtEnd p) (hbyte : isTyped byte) (h : Handled p byte p') : AtEnd p' := by
  rw [AtEnd,h.moves.layout]
  refine Layout.step_atEnd hp ?_
  rintro rfl
  exact absurd hbyte (by simp [isTyped,isPrintable,asciiCr,asciiHt,asciiLf,asciiBs,asciiDel])

theorem inStep_iff : InStep p ↔ p.wordBuffer.toList = lastWord p.currentLine.toList := isLastWord_iff

/-- What took a character back is in step only where there was no word and is none now. -/
theorem inStep_pop (hp : InStep p) (hword : p'.wordBuffer = p.wordBuffer)
    (hline : p'.currentLine.toList = p.currentLine.toList.dropLast) :
    InStep p' ↔ EndsBlank p.currentLine.toList ∧ EndsBlank p.currentLine.toList.dropLast := by
  rw [inStep_iff] at hp ⊢
  rw [hword,hp,hline]
  generalize p.currentLine.toList = text
  cases text using List.reverseRecOn with
  | nil => exact ⟨fun _ => ⟨nofun,nofun⟩,fun _ => rfl⟩
  | append_singleton text c =>
    rw [List.dropLast_concat,← lastWord_eq_nil_iff,← lastWord_eq_nil_iff]
    cases hc : c.isWhitespace with
    | true =>
      rw [lastWord_blank hc]
      exact ⟨fun h => ⟨rfl,h.symm⟩,fun h => h.2.symm⟩
    | false =>
      rw [lastWord_concat hc]
      exact ⟨fun h => absurd h (by simp),fun h => absurd h.1 (by simp)⟩

theorem flushWordBuffer_word (p : ASCIIParser) : p.flushWordBuffer.wordBuffer = "" := by
  rw [flushWordBuffer]
  split
  · rfl
  · next h => simpa using h

theorem handlePrintable_inStep (hp : InStep p) (byte : UInt8) : InStep (p.handlePrintable byte) := by
  rw [inStep_iff] at hp ⊢
  rw [handlePrintable]
  dsimp only
  split
  · next hblank =>
    obtain ⟨-,-,-,hline,-⟩ := flushWordBuffer_fields { p with
      currentLine := p.currentLine.push (Char.ofNat byte.toNat), columnPosition := p.columnPosition+1 }
    rw [handleOutput,flushWordBuffer_word,hline,String.toList_push,lastWord_blank hblank]
    rfl
  · next hblank =>
    rw [handleOutput,String.toList_push,String.toList_push,hp,lastWord_concat (by simpa using hblank)]

theorem handleLinefeed_inStep (hp : InStep p) : InStep p.handleLinefeed := by
  rw [inStep_iff] at hp ⊢
  rw [handleLinefeed,handleOutput,flushCurrentLine]
  split
  · rfl
  · exact hp

theorem handleTab_inStep_iff (hp : InStep p) (h : p.handleTab = .ok p') :
    InStep p' ↔ EndsBlank p.getCurrentLine.toList := by
  obtain ⟨hwidth,-,rfl⟩ := handleTab_ok h
  have hspaces : 0 < p.layout.spaces p.tabWidth := Nat.sub_pos_of_lt (Nat.mod_lt _ hwidth)
  rw [inStep_iff] at hp ⊢
  rw [handleOutput,String.toList_append,String.toList_ofList,lastWord_spaces hspaces,hp]
  exact lastWord_eq_nil_iff

theorem toList_pop (text : String) : (pop text).toList = text.toList.dropLast := String.toList_ofList

/-- An empty line has nothing to take back. -/
theorem dropLast_of_isEmpty {text : String} (h : ¬(!text.isEmpty) = true) : text.toList = text.toList.dropLast := by
  obtain rfl : text = "" := by simpa using h
  rfl

theorem handleDelete_inStep_iff (hp : InStep p) : InStep p.handleDelete ↔
    EndsBlank p.getCurrentLine.toList ∧ EndsBlank p.getCurrentLine.toList.dropLast := by
  rw [handleDelete]
  split
  · exact inStep_pop hp rfl (toList_pop _)
  · next h => exact inStep_pop hp rfl (dropLast_of_isEmpty h)

theorem handleBackspace_inStep_iff (hp : InStep p) (hend : AtEnd p) : InStep p.handleBackspace ↔
    EndsBlank p.getCurrentLine.toList ∧ EndsBlank p.getCurrentLine.toList.dropLast := by
  rw [handleBackspace]
  split
  · refine inStep_pop hp rfl ?_
    change (if !p.currentLine.isEmpty then pop p.currentLine else p.currentLine).toList = _
    split
    · exact toList_pop _
    · next h => exact dropLast_of_isEmpty h
  · next hcolumn =>
    have hlength : p.currentLine.length = 0 := by
      have hcolumns : p.columnPosition = p.currentLine.length := hend
      omega
    have hempty : ¬(!p.currentLine.isEmpty) = true := by simp [isEmpty_iff_length.mpr hlength]
    exact inStep_pop hp rfl (dropLast_of_isEmpty hempty)

/-- What one byte of typing does to a word in step. -/
theorem processByte_inStep_iff (hp : InStep p) (hend : AtEnd p) (hbyte : isTyped byte)
    (h : processByte p byte = .ok p') : InStep p' ↔ KeepsWord p byte := by
  rcases hbyte with hprintable | rfl | rfl | rfl | rfl
  · rw [processByte_printable hprintable] at h
    obtain rfl := Except.ok.inj h
    refine ⟨fun _ => ⟨?_,?_⟩,fun _ => handlePrintable_inStep hp byte⟩
    · rintro (rfl | rfl | rfl) <;> exact absurd hprintable (by decide)
    · rintro (rfl | rfl) <;> exact absurd hprintable (by decide)
  · rw [handleTab_inStep_iff hp h]
    exact ⟨fun hblank => ⟨fun _ => hblank,by simp [asciiHt,asciiBs,asciiDel]⟩,fun hkeeps => hkeeps.blank (.inl rfl)⟩
  · obtain rfl := Except.ok.inj h
    refine ⟨fun _ => ⟨?_,?_⟩,fun _ => handleLinefeed_inStep hp⟩
    · simp [asciiLf,asciiHt,asciiBs,asciiDel]
    · simp [asciiLf,asciiBs,asciiDel]
  · obtain rfl := Except.ok.inj h
    rw [handleBackspace_inStep_iff hp hend]
    exact ⟨fun hblank => ⟨fun _ => hblank.1,fun _ => hblank.2⟩,
      fun hkeeps => ⟨hkeeps.blank (.inr (.inl rfl)),hkeeps.blankBelow (.inl rfl)⟩⟩
  · obtain rfl := Except.ok.inj h
    rw [handleDelete_inStep_iff hp]
    exact ⟨fun hblank => ⟨fun _ => hblank.1,fun _ => hblank.2⟩,
      fun hkeeps => ⟨hkeeps.blank (.inr (.inr rfl)),hkeeps.blankBelow (.inr rfl)⟩⟩

/-! ### All the bytes -/

theorem processBytes_snoc {bytes : Bytes} (h : processBytes p (bytes ++ [byte]) = .ok p') :
    ∃ q, processBytes p bytes = .ok q ∧ processByte q byte = .ok p' := by
  rw [processBytes,List.foldlM_append] at h
  cases hbytes : bytes.foldlM processByte p with
  | error e =>
    rw [hbytes] at h
    cases h
  | ok q =>
    rw [hbytes] at h
    obtain ⟨q',hstep,hnil⟩ := foldlM_cons_ok (show [byte].foldlM processByte q = .ok p' from h)
    obtain rfl := Except.ok.inj hnil
    exact ⟨q,hbytes,hstep⟩

theorem processBytes_concat {bytes : Bytes} {q : ASCIIParser} (h : processBytes p bytes = .ok q)
    (hstep : processByte q byte = .ok p') : processBytes p (bytes ++ [byte]) = .ok p' := by
  rw [processBytes] at h ⊢
  rw [List.foldlM_append,h]
  change (processByte q byte >>= pure) = _
  rw [hstep]
  rfl

theorem processBytes_atEnd {bytes : Bytes} (hp : AtEnd p) (hbytes : ∀ byte ∈ bytes, isTyped byte)
    (h : processBytes p bytes = .ok p') : AtEnd p' := by
  induction bytes generalizing p with
  | nil =>
    obtain rfl := Except.ok.inj h
    exact hp
  | cons byte bytes ih =>
    obtain ⟨q,hstep,hrest⟩ := foldlM_cons_ok h
    have hq := (processByte_handled hstep).atEnd hp (hbytes byte List.mem_cons_self)
    exact ih hq (fun byte hbyte => hbytes byte (List.mem_cons_of_mem _ hbyte)) hrest

/-- The word is the last one of the line in all that a new parser comes to with these bytes
exactly when no tab ends a word, and only whitespace after whitespace is taken back. -/
theorem processBytes_inStep_iff (width : ℕ) (bytes : Bytes) (hbytes : ∀ byte ∈ bytes, isTyped byte) :
    (∀ before after p, bytes = before ++ after → processBytes (new.setTabWidth width) before = .ok p →
      IsLastWord p.getCurrentLine p.getCurrentWord) ↔
    ∀ before byte after p p', bytes = before ++ byte::after → processBytes (new.setTabWidth width) before = .ok p →
      processByte p byte = .ok p' → KeepsWord p byte := by
  have hend {before after : Bytes} {p : ASCIIParser} (hsplit : bytes = before ++ after)
      (h : processBytes (new.setTabWidth width) before = .ok p) : AtEnd p := by
    refine processBytes_atEnd (p := new.setTabWidth width) rfl (fun byte hbyte => hbytes byte ?_) h
    rw [hsplit]
    exact List.mem_append_left _ hbyte
  have htyped {before after : Bytes} {byte : UInt8} (hsplit : bytes = before ++ byte::after) : isTyped byte := by
    refine hbytes byte ?_
    rw [hsplit]
    exact List.mem_append_right _ List.mem_cons_self
  constructor
  · intro h before byte after p p' hsplit hbefore hstep
    have hp : InStep p := h before (byte::after) p hsplit hbefore
    have hp' : InStep p' := h (before ++ [byte]) after p' (by rw [hsplit,List.append_assoc]; rfl)
      (processBytes_concat hbefore hstep)
    exact (processByte_inStep_iff hp (hend hsplit hbefore) (htyped hsplit) hstep).mp hp'
  · intro h before
    induction before using List.reverseRecOn with
    | nil =>
      intro after p _ hp
      obtain rfl := Except.ok.inj hp
      exact isLastWord_iff.mpr rfl
    | append_singleton before byte ih =>
      intro after p' hsplit hp'
      obtain ⟨p,hbefore,hstep⟩ := processBytes_snoc hp'
      have hrest : bytes = before ++ byte::after := by rw [hsplit,List.append_assoc]; rfl
      have hp := ih (byte::after) p hrest hbefore
      exact (processByte_inStep_iff hp (hend hrest hbefore) (htyped hrest) hstep).mpr
        (h before byte after p p' hrest hbefore hstep)

theorem processBytes_inStep_blanks : (∀ byte ∈ ([0x20,asciiHt,asciiDel,0x61] : Bytes), isTyped byte) ∧
    ((∀ before after p, [0x20,asciiHt,asciiDel,0x61] = before ++ after →
        processBytes (new.setTabWidth 4) before = .ok p → IsLastWord p.getCurrentLine p.getCurrentWord) ↔
      ∀ before byte after p p', [0x20,asciiHt,asciiDel,0x61] = before ++ byte::after →
        processBytes (new.setTabWidth 4) before = .ok p → processByte p byte = .ok p' → KeepsWord p byte) := by
  have hbytes : ∀ byte ∈ ([0x20,asciiHt,asciiDel,0x61] : Bytes), isTyped byte := by
    simp [isTyped,isPrintable,asciiHt,asciiDel]
  exact ⟨hbytes,processBytes_inStep_iff 4 _ hbytes⟩

/-- `a` and BS: the line is empty, and the word is still `a`. -/
theorem processBytes_keeps_deleted : ¬∀ (width : ℕ) (bytes : Bytes), 1 ≤ width → (∀ byte ∈ bytes, isTyped byte) →
    ∀ p, processBytes (new.setTabWidth width) bytes = .ok p → IsLastWord p.getCurrentLine p.getCurrentWord := by
  intro h
  have hword := h 8 [0x61,asciiBs] (by decide) (by simp [isTyped,isPrintable,asciiBs]) _ rfl
  exact absurd (isLastWord_iff.mp hword) (by decide)

end ASCIIParser
end NodeRustPty
