import Mathlib

/-! References in a text: a lead, an opener, a name made of word characters, and a closer.
Replacing them all at once is compared with replacing the first occurrence of one after
another, which may find text that an earlier replacement brought in. -/
namespace NodeRustPty
namespace References

variable {α : Type} [DecidableEq α]

/-! ### The first occurrence of a pattern -/

/-- Where the pattern occurs first. -/
def find (pattern : List α) : List α → Option ℕ
  | [] => if pattern = [] then some 0 else none
  | c::rest => if pattern <+: c::rest then some 0 else (find pattern rest).map Nat.succ

def replaceRange (pos len : ℕ) (value text : List α) : List α := text.take pos ++ value ++ text.drop (pos+len)

def replaceFirst (pattern value text : List α) : List α :=
  match find pattern text with
  | some pos => replaceRange pos pattern.length value text
  | none => text

theorem find_spec {pattern text : List α} {pos : ℕ} (h : find pattern text = some pos) :
    ∃ before after, text = before ++ pattern ++ after ∧ before.length = pos := by
  induction text generalizing pos with
  | nil =>
    rw [find] at h
    split at h
    · next hpattern => exact ⟨[],[],by simp [hpattern],Option.some.inj h⟩
    · exact absurd h nofun
  | cons c rest ih =>
    rw [find] at h
    split at h
    · next hfirst =>
      obtain ⟨after,hafter⟩ := hfirst
      exact ⟨[],after,hafter.symm,Option.some.inj h⟩
    · obtain ⟨pos',hpos',rfl⟩ := Option.map_eq_some_iff.mp h
      obtain ⟨before,after,hrest,hlength⟩ := ih hpos'
      refine ⟨c::before,after,?_,?_⟩
      · rw [hrest]
        rfl
      · rw [List.length_cons,hlength]

/-- An occurrence is found, or one before it. -/
theorem find_le (pattern before after : List α) :
    ∃ pos, find pattern (before ++ pattern ++ after) = some pos ∧ pos ≤ before.length := by
  induction before with
  | nil =>
    refine ⟨0,?_,Nat.zero_le _⟩
    rw [List.nil_append]
    cases htext : pattern ++ after with
    | nil => rw [find,if_pos (List.append_eq_nil_iff.mp htext).1]
    | cons c rest => rw [find,if_pos ⟨after,htext⟩]
  | cons c before ih =>
    obtain ⟨pos,hpos,hle⟩ := ih
    by_cases hfirst : pattern <+: c::(before ++ pattern ++ after)
    · exact ⟨0,if_pos hfirst,Nat.zero_le _⟩
    · refine ⟨pos+1,?_,Nat.succ_le_succ hle⟩
      have hfind : find pattern (c::(before ++ pattern ++ after)) =
          (find pattern (before ++ pattern ++ after)).map Nat.succ := if_neg hfirst
      rw [hpos] at hfind
      exact hfind

omit [DecidableEq α] in
theorem replaceRange_append (before pattern after value : List α) :
    replaceRange before.length pattern.length value (before ++ pattern ++ after) = before ++ value ++ after := by
  rw [replaceRange,List.append_assoc before pattern,List.take_left,← List.append_assoc before pattern,
    ← List.length_append,List.drop_left]

/-- The first occurrence goes, when there is one. -/
theorem replaceFirst_cases (pattern value text : List α) :
    replaceFirst pattern value text = text ∨ ∃ before after, text = before ++ pattern ++ after ∧
      (∀ before' after', text = before' ++ pattern ++ after' → before.length ≤ before'.length) ∧
      replaceFirst pattern value text = before ++ value ++ after := by
  cases hfind : find pattern text with
  | none =>
    left
    rw [replaceFirst,hfind]
  | some pos =>
    right
    obtain ⟨before,after,rfl,rfl⟩ := find_spec hfind
    refine ⟨before,after,rfl,?_,?_⟩
    · intro before' after' htext
      obtain ⟨pos,hpos,hle⟩ := find_le pattern before' after'
      rw [← htext,hfind,Option.some.injEq] at hpos
      omega
    · rw [replaceFirst,hfind]
      exact replaceRange_append before pattern after value

theorem replaceFirst_first {before pattern after : List α} (value : List α)
    (h : ∀ before' after', before ++ pattern ++ after = before' ++ pattern ++ after' → before.length ≤ before'.length) :
    replaceFirst pattern value (before ++ pattern ++ after) = before ++ value ++ after := by
  obtain ⟨pos,hpos,hle⟩ := find_le pattern before after
  obtain ⟨before',after',htext,hlength⟩ := find_spec hpos
  have hge := h before' after' htext
  obtain rfl : pos = before.length := by omega
  rw [replaceFirst,hpos]
  exact replaceRange_append before pattern after value

/-! ### References -/

/-- The marks around a name, none of which can be taken for a part of one. -/
structure Delimiters (α : Type) where
  lead : α
  opener : α
  closer : α
  isWord : α → Bool
  lead_not_word : isWord lead = false
  closer_not_word : isWord closer = false
  lead_ne_opener : lead ≠ opener
  lead_ne_closer : lead ≠ closer

inductive Piece (α : Type)
  | plain (c : α)
  | reference (name : List α)

namespace Delimiters

variable (d : Delimiters α)

def IsName (name : List α) : Prop := name ≠ [] ∧ ∀ c ∈ name, d.isWord c = true

def wrap (name : List α) : List α := d.lead::d.opener::(name ++ [d.closer])

/-- The name of the reference that starts here. -/
def read : List α → Option (List α)
  | first::second::rest =>
    if first = d.lead ∧ second = d.opener ∧ rest.takeWhile d.isWord ≠ [] ∧
      (rest.dropWhile d.isWord).head? = some d.closer then some (rest.takeWhile d.isWord)
    else none
  | _ => none

/-- The pieces of a text from the left, after `skip` entries. -/
def scan : ℕ → List α → List (Piece α)
  | _, [] => []
  | skip+1, _::rest => scan skip rest
  | 0, c::rest =>
    match d.read (c::rest) with
    | some name => .reference name::scan (name.length+2) rest
    | none => .plain c::scan 0 rest

end Delimiters

def Piece.name : Piece α → Option (List α)
  | .plain _ => none
  | .reference name => some name

def Piece.replaced (value : List α → List α) : Piece α → List α
  | .plain c => [c]
  | .reference name => value name

namespace Delimiters

variable (d : Delimiters α)

def names (text : List α) : List (List α) := (d.scan 0 text).filterMap Piece.name

/-- All references replaced at once. -/
def substitute (value : List α → List α) (text : List α) : List α := (d.scan 0 text).flatMap (Piece.replaced value)

variable {d} {name other text rest before after : List α}

theorem read_wrap (h : d.IsName name) (rest : List α) : d.read (d.wrap name ++ rest) = some name := by
  have htake : (name ++ [d.closer] ++ rest).takeWhile d.isWord = name := by
    rw [List.append_assoc,List.takeWhile_append_of_pos h.2,List.singleton_append,
      List.takeWhile_cons_of_neg (by simp [d.closer_not_word]),List.append_nil]
  have hdrop : (name ++ [d.closer] ++ rest).dropWhile d.isWord = d.closer::rest := by
    rw [List.append_assoc,List.dropWhile_append_of_pos h.2,List.singleton_append,
      List.dropWhile_cons_of_neg (by simp [d.closer_not_word])]
  rw [wrap,List.cons_append,List.cons_append,read,htake,hdrop]
  exact if_pos ⟨rfl,rfl,h.1,rfl⟩

theorem read_spec (h : d.read text = some name) : d.IsName name ∧ ∃ rest, text = d.wrap name ++ rest := by
  unfold read at h
  split at h
  · next first second rest =>
    split at h
    · next hshape =>
      obtain ⟨rfl,rfl,hne,hcloser⟩ := hshape
      obtain rfl := Option.some.inj h
      refine ⟨⟨hne,fun c hc => List.mem_takeWhile_imp hc⟩,?_⟩
      obtain ⟨after,hafter⟩ := List.head?_eq_some_iff.mp hcloser
      refine ⟨after,?_⟩
      have hsplit := List.takeWhile_append_dropWhile (p := d.isWord) (l := rest)
      rw [hafter] at hsplit
      rw [wrap,List.cons_append,List.cons_append,List.append_assoc,List.singleton_append,hsplit]
    · exact absurd h nofun
  · exact absurd h nofun

theorem scan_skip (skip : ℕ) (text : List α) : d.scan skip text = d.scan 0 (text.drop skip) := by
  induction text generalizing skip with
  | nil => simp [scan]
  | cons c rest ih =>
    cases skip with
    | zero => rfl
    | succ skip => rw [scan,ih,List.drop_succ_cons]

theorem scan_wrap (h : d.IsName name) (rest : List α) :
    d.scan 0 (d.wrap name ++ rest) = .reference name::d.scan 0 rest := by
  have hread := read_wrap h rest
  rw [wrap,List.cons_append] at hread ⊢
  rw [scan,hread]
  dsimp only
  have hdrop : (d.opener::(name ++ [d.closer]) ++ rest).drop (name.length+2) = rest :=
    List.drop_left' (by simp)
  rw [scan_skip,hdrop]

theorem scan_plain {c : α} (h : d.read (c::rest) = none) : d.scan 0 (c::rest) = .plain c::d.scan 0 rest := by
  rw [scan,h]

/-- What the scan does, read off the text. -/
inductive Scans (d : Delimiters α) : List α → List (Piece α) → Prop
  | nil : Scans d [] []
  | plain {c : α} {rest : List α} {pieces : List (Piece α)} (h : d.read (c::rest) = none)
      (hrest : Scans d rest pieces) : Scans d (c::rest) (.plain c::pieces)
  | reference {name rest : List α} {pieces : List (Piece α)} (h : d.IsName name) (hrest : Scans d rest pieces) :
      Scans d (d.wrap name ++ rest) (.reference name::pieces)

theorem scans (text : List α) : Scans d text (d.scan 0 text) := by
  induction hlength : text.length using Nat.strong_induction_on generalizing text with
  | _ n ih =>
    subst hlength
    cases text with
    | nil => exact .nil
    | cons c rest =>
      cases hread : d.read (c::rest) with
      | none =>
        rw [scan_plain hread]
        exact .plain hread (ih rest.length (by simp) rest rfl)
      | some name =>
        obtain ⟨hname,after,htext⟩ := read_spec hread
        rw [htext,scan_wrap hname]
        refine .reference hname (ih after.length ?_ after rfl)
        rw [htext,List.length_append,wrap,List.length_cons]
        omega

/-- A reference that starts in or before another is that one, or ends before it. -/
theorem wrap_split (hname : d.IsName name) (hother : d.IsName other)
    (h : d.wrap name ++ after = before ++ (d.wrap other ++ rest)) :
    before = [] ∧ name = other ∧ after = rest ∨ ∃ between, before = d.wrap name ++ between := by
  rcases List.append_eq_append_iff.mp h with ⟨between,rfl,-⟩ | ⟨inside,hwrap,hafter⟩
  · exact .inr ⟨between,rfl⟩
  · cases before with
    | nil =>
      left
      have hsome := read_wrap hname after
      rw [h,List.nil_append,read_wrap hother rest,Option.some.injEq] at hsome
      obtain rfl := hsome
      exact ⟨rfl,rfl,List.append_cancel_left h⟩
    | cons c before =>
      right
      cases inside with
      | nil =>
        rw [List.append_nil] at hwrap
        exact ⟨[],by rw [hwrap,List.append_nil]⟩
      | cons lead inside =>
        -- the lead of the other reference would stand inside this one
        obtain ⟨rfl,-⟩ := List.cons.inj hafter
        obtain ⟨-,htail⟩ := List.cons.inj hwrap
        have hmem : d.lead ∈ d.opener::(name ++ [d.closer]) := by
          rw [htail]
          exact List.mem_append_right _ List.mem_cons_self
        rw [List.mem_cons,List.mem_append,List.mem_singleton] at hmem
        rcases hmem with hopener | hin | hcloser
        · exact absurd hopener d.lead_ne_opener
        · have hword := hname.2 d.lead hin
          rw [d.lead_not_word] at hword
          exact absurd hword Bool.false_ne_true
        · exact absurd hcloser d.lead_ne_closer

/-- The names are those of the occurrences. -/
theorem mem_names_iff : name ∈ d.names text ↔ d.IsName name ∧ ∃ before after, text = before ++ d.wrap name ++ after := by
  have hscans := scans (d := d) text
  rw [names]
  generalize d.scan 0 text = pieces at hscans
  induction hscans with
  | nil => simp [wrap]
  | @plain c rest pieces hread hrest ih =>
    have hpieces : (Piece.plain c::pieces).filterMap Piece.name = pieces.filterMap Piece.name := rfl
    rw [hpieces]
    refine ih.trans (and_congr_right fun hname => ⟨?_,?_⟩)
    · rintro ⟨before,after,rfl⟩
      exact ⟨c::before,after,rfl⟩
    · rintro ⟨_ | ⟨first,before⟩,after,htext⟩
      · rw [htext,List.nil_append,read_wrap hname] at hread
        exact absurd hread nofun
      · exact ⟨before,after,(List.cons.inj htext).2⟩
  | @reference other rest pieces hother hrest ih =>
    have hpieces : (Piece.reference other::pieces).filterMap Piece.name = other::pieces.filterMap Piece.name := rfl
    rw [hpieces,List.mem_cons]
    refine (or_congr_right ih).trans ?_
    constructor
    · rintro (rfl | ⟨hname,before,after,rfl⟩)
      · exact ⟨hother,[],rest,rfl⟩
      · exact ⟨hname,d.wrap other ++ before,after,by simp only [List.append_assoc]⟩
    · rintro ⟨hname,before,after,htext⟩
      rw [List.append_assoc] at htext
      rcases wrap_split hother hname htext with ⟨-,rfl,-⟩ | ⟨between,rfl⟩
      · exact .inl rfl
      · right
        refine ⟨hname,between,after,?_⟩
        rw [List.append_assoc] at htext ⊢
        exact List.append_cancel_left htext

theorem names_eq_nil_iff : d.names text = [] ↔ ∀ name, d.IsName name → ∀ before after,
    text ≠ before ++ d.wrap name ++ after := by
  rw [List.eq_nil_iff_forall_not_mem]
  refine forall_congr' fun name => ?_
  rw [mem_names_iff]
  simp only [not_and,not_exists]

/-! ### One after another -/

/-- Replacing another reference leaves this one in the text. -/
theorem mem_names_replaceFirst (value : List α) (hname : name ∈ d.names text) (hother : d.IsName other)
    (hne : name ≠ other) : name ∈ d.names (replaceFirst (d.wrap other) value text) := by
  rcases replaceFirst_cases (d.wrap other) value text with hsame | ⟨before,after,htext,-,hreplaced⟩
  · rw [hsame]
    exact hname
  · rw [hreplaced]
    obtain ⟨hname,before',after',htext'⟩ := mem_names_iff.mp hname
    rw [htext,List.append_assoc,List.append_assoc] at htext'
    rw [mem_names_iff]
    refine ⟨hname,?_⟩
    rcases List.append_eq_append_iff.mp htext' with ⟨between,rfl,hrest⟩ | ⟨between,rfl,hrest⟩
    · rcases wrap_split hother hname hrest with ⟨-,rfl,-⟩ | ⟨gap,rfl⟩
      · exact absurd rfl hne
      · refine ⟨before ++ value ++ gap,after',?_⟩
        rw [List.append_assoc,List.append_cancel_left_eq] at hrest
        rw [hrest]
        simp only [List.append_assoc]
    · rcases wrap_split hname hother hrest with ⟨-,rfl,-⟩ | ⟨gap,rfl⟩
      · exact absurd rfl hne
      · exact ⟨before',gap ++ value ++ after,by simp only [List.append_assoc]⟩

theorem mem_names_foldl (value : List α → List α) (others : List (List α)) (hname : name ∈ d.names text)
    (hothers : ∀ other ∈ others, d.IsName other ∧ name ≠ other) :
    name ∈ d.names (others.foldl (fun text other => replaceFirst (d.wrap other) (value other) text) text) := by
  induction others generalizing text with
  | nil => exact hname
  | cons other others ih =>
    obtain ⟨hother,hne⟩ := hothers other List.mem_cons_self
    exact ih (mem_names_replaceFirst _ hname hother hne) fun next hnext => hothers next (List.mem_cons_of_mem _ hnext)

/-- Without a reference in what is done, the next one to be found is the next of the text. -/
theorem replaceFirst_done {done : List α} (value : List α) (hname : d.IsName name) (hdone : d.names done = [])
    (rest : List α) : replaceFirst (d.wrap name) value (done ++ d.wrap name ++ rest) = done ++ value ++ rest := by
  refine replaceFirst_first value fun before after htext => ?_
  rw [List.append_assoc,List.append_assoc] at htext
  rcases List.append_eq_append_iff.mp htext with ⟨between,rfl,-⟩ | ⟨between,rfl,hrest⟩
  · rw [List.length_append]
    exact Nat.le_add_right _ _
  · rcases wrap_split hname hname hrest with ⟨rfl,-,-⟩ | ⟨gap,rfl⟩
    · rw [List.append_nil]
    · exact absurd (List.append_assoc _ _ _).symm (names_eq_nil_iff.mp hdone name hname before gap)

theorem names_done {done : List α} (h : d.names (done ++ rest) = []) : d.names done = [] := by
  rw [names_eq_nil_iff] at h ⊢
  rintro name hname before after rfl
  exact h name hname before (after ++ rest) (by simp only [List.append_assoc])

/-- When no reference is left at the end, none was taken for another on the way. -/
theorem foldl_replaceFirst {value : List α → List α} (h : d.names (d.substitute value text) = []) :
    (d.names text).foldl (fun text name => replaceFirst (d.wrap name) (value name) text) text =
      d.substitute value text := by
  have hscans := scans (d := d) text
  rw [names,substitute] at *
  generalize d.scan 0 text = pieces at hscans h
  -- the pieces in `done` were replaced already
  suffices hdone : ∀ done, d.names (done ++ pieces.flatMap (Piece.replaced value)) = [] →
      (pieces.filterMap Piece.name).foldl (fun text name => replaceFirst (d.wrap name) (value name) text)
        (done ++ text) = done ++ pieces.flatMap (Piece.replaced value) from hdone [] h
  clear h
  induction hscans with
  | nil => exact fun done _ => rfl
  | @plain c rest pieces hread hrest ih =>
    intro done hclean
    have hstep := ih (done ++ [c])
    simp only [List.append_assoc,List.singleton_append] at hstep
    exact hstep hclean
  | @reference name rest pieces hname hrest ih =>
    intro done hclean
    have hflat : (Piece.reference name::pieces).flatMap (Piece.replaced value) =
        value name ++ pieces.flatMap (Piece.replaced value) := rfl
    have hfirst : ((Piece.reference name::pieces).filterMap Piece.name) = name::pieces.filterMap Piece.name := rfl
    rw [hflat] at hclean
    rw [hflat,hfirst,List.foldl_cons,← List.append_assoc,replaceFirst_done _ hname (names_done hclean),
      ← List.append_assoc]
    rw [← List.append_assoc] at hclean
    exact ih (done ++ value name) hclean

end Delimiters

end References
end NodeRustPty
