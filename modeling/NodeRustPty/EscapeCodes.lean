import Mathlib

/-! Codes whose longer words begin with an escape letter. They are uniquely decodable as soon as
none of their words can be read as several. -/
namespace NodeRustPty

open InformationTheory

variable {α β : Type}

/-- At most one letter, or the escape letter and others, or the escape letter twice. -/
def EscapeWord (esc : β) (word : List β) : Prop :=
  word.length ≤ 1 ∨ ∃ rest, word = esc::rest ∧ (esc ∉ rest ∨ rest = [esc])

/-- No word is also several words, or no word, of the code. -/
def WordsAlone (code : Set (List β)) : Prop :=
  ∀ word ∈ code, ∀ words : List (List β), (∀ w ∈ words, w ∈ code) → words.flatten = word → words = [word]

theorem WordsAlone.ne_nil {code : Set (List β)} (h : WordsAlone code) {word : List β} (hword : word ∈ code) :
    word ≠ [] := by
  rintro rfl
  simpa using h [] hword [] (by simp) rfl

section Code

variable {esc : β} {code : Set (List β)}

/-- Letters before the next escape letter are words of their own. -/
theorem exists_flatten_eq (hcode : ∀ word ∈ code, EscapeWord esc word) (hne : ∀ word ∈ code, word ≠ [])
    {letters rest : List β} (hletters : esc ∉ letters) {words : List (List β)} (hwords : ∀ w ∈ words, w ∈ code)
    (h : words.flatten = letters ++ rest) : ∃ first last, words = first ++ last ∧ first.flatten = letters := by
  induction letters generalizing words with
  | nil => exact ⟨[],words,rfl,rfl⟩
  | cons letter letters ih =>
    obtain ⟨hletter,hothers⟩ := not_or.mp (mt List.mem_cons.mpr hletters)
    cases words with
    | nil => simp at h
    | cons word words =>
      obtain ⟨hword,htails⟩ := List.forall_mem_cons.mp hwords
      cases word with
      | nil => exact absurd rfl (hne _ hword)
      | cons first more =>
        obtain ⟨rfl,htail⟩ := List.cons_eq_cons.mp h
        obtain rfl : more = [] := by
          rcases hcode _ hword with hlength | ⟨others,hesc,-⟩
          · exact List.length_eq_zero_iff.mp (by simpa using hlength)
          · exact absurd (List.cons_eq_cons.mp hesc).1.symm hletter
        obtain ⟨before,after,rfl,hbefore⟩ := ih hothers htails htail
        exact ⟨[first]::before,after,rfl,congrArg (first::·) hbefore⟩

/-- A word does not begin where a longer one does. -/
theorem WordsAlone.not_longer (hcode : ∀ word ∈ code, EscapeWord esc word) (halone : WordsAlone code)
    {word more rest : List β} (hword : word ∈ code) (hlonger : word ++ more ∈ code)
    {words : List (List β)} (hwords : ∀ w ∈ words, w ∈ code) (h : words.flatten = more ++ rest) : more = [] := by
  by_contra hmore
  obtain ⟨letter,tail,rfl⟩ := List.exists_cons_of_ne_nil (halone.ne_nil hword)
  obtain ⟨letters,hletters,hesc⟩ :
      ∃ letters, tail ++ more = letters ∧ (esc ∉ letters ∨ letters = [esc] ∧ letter = esc) := by
    rcases hcode _ hlonger with hlength | ⟨others,heq,hothers⟩
    · simp only [List.cons_append,List.length_cons,List.length_append] at hlength
      exact absurd (List.length_eq_zero_iff.mp (by omega)) hmore
    · obtain ⟨rfl,htail⟩ := List.cons_eq_cons.mp heq
      exact ⟨others,htail,hothers.imp_right fun h => ⟨h,rfl⟩⟩
  rcases hesc with hfree | ⟨rfl,rfl⟩
  · have hfree' : esc ∉ more := fun hmem => hfree (hletters ▸ List.mem_append_right _ hmem)
    obtain ⟨first,last,rfl,hfirst⟩ := exists_flatten_eq hcode (fun _ => halone.ne_nil) hfree' hwords h
    have hone := halone _ hlonger ((letter::tail)::first)
      (List.forall_mem_cons.mpr ⟨hword,fun w hw => hwords w (List.mem_append_left _ hw)⟩) (by simp [hfirst])
    simp [(List.cons_eq_cons.mp hone).2] at hfirst
    exact hmore hfirst
  · -- the escape letter twice, and once is a word
    obtain ⟨rfl,rfl⟩ : tail = [] ∧ more = [letter] := by
      rcases List.append_eq_singleton_iff.mp hletters with h | h
      · exact h
      · exact absurd h.2 hmore
    simpa using halone _ hlonger [[letter],[letter]] (by simp [hword]) rfl

/-- When no word can be read as several, no sequence of words can be read as another one. -/
theorem uniquelyDecodable_iff (hcode : ∀ word ∈ code, EscapeWord esc word) :
    UniquelyDecodable code ↔ WordsAlone code := by
  constructor
  · intro h word hword words hwords heq
    exact h words [word] hwords (by simpa using hword) (by simpa using heq)
  · intro halone first
    induction first with
    | nil =>
      intro second _ hsecond heq
      cases second with
      | nil => rfl
      | cons word words =>
        have hnil : word = [] := (List.append_eq_nil_iff.mp heq.symm).1
        exact absurd hnil (halone.ne_nil (hsecond _ List.mem_cons_self))
    | cons word words ih =>
      intro second hfirst hsecond heq
      obtain ⟨hword,hwords⟩ := List.forall_mem_cons.mp hfirst
      cases second with
      | nil =>
        have hnil : word = [] := (List.append_eq_nil_iff.mp heq).1
        exact absurd hnil (halone.ne_nil hword)
      | cons word' words' =>
        obtain ⟨hword',hwords'⟩ := List.forall_mem_cons.mp hsecond
        have hsame : word = word' := by
          rcases List.append_eq_append_iff.mp heq with ⟨more,rfl,hmore⟩ | ⟨more,rfl,hmore⟩
          · rw [halone.not_longer hcode hword hword' hwords hmore,List.append_nil]
          · rw [halone.not_longer hcode hword' hword hwords' hmore,List.append_nil]
        subst hsame
        rw [ih words' hwords hwords' (List.append_cancel_left heq)]

end Code

/-! ### What the words stand for -/

/-- Lists of these symbols have different encodings when they differ. -/
def Determined (code : α → List β) (symbols : Set α) : Prop :=
  ∀ xs ys : List α, (∀ x ∈ xs, x ∈ symbols) → (∀ y ∈ ys, y ∈ symbols) →
    xs.flatMap code = ys.flatMap code → xs = ys

/-- The encoding of one symbol is that of no other list. -/
def SymbolsAlone (code : α → List β) (symbols : Set α) : Prop :=
  ∀ x ∈ symbols, ∀ xs : List α, (∀ y ∈ xs, y ∈ symbols) → xs.flatMap code = code x → xs = [x]

section Symbols

variable {code : α → List β} {symbols : Set α}

theorem SymbolsAlone.injOn (h : SymbolsAlone code symbols) : symbols.InjOn code := by
  intro x hx y hy heq
  have hone := h y hy [x] (by simpa using hx) (by simpa using heq)
  exact (List.cons_eq_cons.mp hone).1

theorem exists_map_eq {words : List (List β)} (h : ∀ w ∈ words, w ∈ code '' symbols) :
    ∃ xs : List α, (∀ x ∈ xs, x ∈ symbols) ∧ xs.map code = words := by
  induction words with
  | nil => exact ⟨[],by simp,rfl⟩
  | cons word words ih =>
    obtain ⟨⟨x,hx,rfl⟩,hwords⟩ := List.forall_mem_cons.mp h
    obtain ⟨xs,hxs,rfl⟩ := ih hwords
    exact ⟨x::xs,List.forall_mem_cons.mpr ⟨hx,hxs⟩,rfl⟩

theorem SymbolsAlone.wordsAlone (h : SymbolsAlone code symbols) : WordsAlone (code '' symbols) := by
  rintro _ ⟨x,hx,rfl⟩ words hwords heq
  obtain ⟨xs,hxs,rfl⟩ := exists_map_eq hwords
  rw [h x hx xs hxs (by rw [List.flatMap_def,heq])]
  rfl

/-- Over an escape code all lists are determined by their encodings when single symbols are. -/
theorem determined_iff_alone {esc : β} (hcode : ∀ x ∈ symbols, EscapeWord esc (code x)) :
    Determined code symbols ↔ SymbolsAlone code symbols := by
  constructor
  · intro h x hx xs hxs heq
    exact h xs [x] hxs (by simpa using hx) (by simpa using heq)
  · intro halone xs ys hxs hys heq
    have hwords : UniquelyDecodable (code '' symbols) :=
      (uniquelyDecodable_iff (Set.forall_mem_image.mpr hcode)).mpr halone.wordsAlone
    have hmap : xs.map code = ys.map code := by
      refine hwords _ _ ?_ ?_ (by simpa only [List.flatMap_def] using heq)
      · exact List.forall_mem_map.mpr fun x hx => ⟨x,hxs x hx,rfl⟩
      · exact List.forall_mem_map.mpr fun y hy => ⟨y,hys y hy,rfl⟩
    lift xs to List symbols using hxs
    lift ys to List symbols using hys
    rw [List.map_map,List.map_map] at hmap
    exact congrArg _ (List.map_injective_iff.mpr halone.injOn.injective hmap)

end Symbols

end NodeRustPty
