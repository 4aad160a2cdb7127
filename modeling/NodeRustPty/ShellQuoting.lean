import Mathlib

/-! How a POSIX shell reads text into simple commands: quoting, the places where expansions
start, blanks, comments and newlines. Text that takes more of the grammar than simple commands
(an operator, an unfinished quotation) is not read. How far an expansion reaches is a parameter,
and so is what it gives and where login names have their home. -/
namespace NodeRustPty
namespace ShellQuoting

/-- One part of a word. -/
inductive Part
  | plain (c : Char)
  | quoted (c : Char)
  | expansion (text : List Char)
  deriving DecidableEq

abbrev Word := List Part

inductive Token
  | part (p : Part)
  | mark
  | blank
  | newline
  deriving DecidableEq

/-- Between words, in a word, in one of the two quotations, or in a comment. -/
inductive Mode
  | between | word | single | double | comment
  deriving DecidableEq

structure Grammar where
  /-- How many characters after the first belong to the expansion that starts the text. -/
  extent : List Char → Option ℕ

/-- What the variables, the commands and the users of a shell make of an expansion. -/
structure Shell where
  /-- What an expansion is replaced by. -/
  value : List Char → List Char
  /-- The home directory of a login name, and of the user for the empty one. -/
  home : List Char → Option (List Char)

/-- An end of input inside these is unfinished. -/
def Mode.quotes : Mode → Bool
  | .single | .double => true
  | _ => false

def operators : List Char := ['|','&',';','<','>','(',')']

/-- What a backslash quotes within double quotes. -/
def escapable : List Char := ['$','`','"','\\']

namespace Grammar

variable (grammar : Grammar)

/-- The expansion that starts with this character. -/
def expand (next : Mode) (c : Char) (rest : List Char) : Option (Mode × ℕ × List Token) :=
  (grammar.extent (c::rest)).map fun n => (next,n,[.part (.expansion (c::rest.take n))])

/-- A character outside quotations. -/
def stepUnquoted (mode : Mode) (c : Char) (rest : List Char) : Option (Mode × ℕ × List Token) :=
  if c = '\n' then some (.between,0,[.newline])
  else if c = ' ' ∨ c = '\t' then some (.between,0,[.blank])
  else if c ∈ operators then none
  else if c = '\'' then some (.single,0,[.mark])
  else if c = '"' then some (.double,0,[.mark])
  else if c = '$' ∨ c = '`' then grammar.expand .word c rest
  else if c = '\\' then
    match rest with
    | [] => none
    | d::_ => if d = '\n' then some (mode,1,[]) else some (.word,1,[.part (.quoted d)])
  else if c = '#' ∧ mode = .between then some (.comment,0,[])
  else some (.word,0,[.part (.plain c)])

def stepDouble (c : Char) (rest : List Char) : Option (Mode × ℕ × List Token) :=
  if c = '"' then some (.word,0,[])
  else if c = '$' ∨ c = '`' then grammar.expand .double c rest
  else if c = '\\' then
    match rest with
    | [] => none
    | d::_ =>
      if d = '\n' then some (.double,1,[])
      else if d ∈ escapable then some (.double,1,[.part (.quoted d)])
      else some (.double,0,[.part (.quoted c)])
  else some (.double,0,[.part (.quoted c)])

/-- What a character is for the shell: the mode after it, how many of the characters that
follow it takes with it, and its tokens. No input holds the null character. -/
def step (mode : Mode) (c : Char) (rest : List Char) : Option (Mode × ℕ × List Token) :=
  if c = '\x00' then none
  else match mode with
    | .between | .word => grammar.stepUnquoted mode c rest
    | .single => some (if c = '\'' then (.word,0,[]) else (.single,0,[.part (.quoted c)]))
    | .double => grammar.stepDouble c rest
    | .comment => some (if c = '\n' then (.between,0,[.newline]) else (.comment,0,[]))

/-- The tokens of a text, after `skip` characters. -/
def tokens : Mode → ℕ → List Char → Option (List Token)
  | mode, _, [] => if mode.quotes then none else some []
  | mode, skip+1, _::rest => tokens mode skip rest
  | mode, 0, c::rest =>
    match grammar.step mode c rest with
    | none => none
    | some (next,skip,out) => (tokens next skip rest).map (out ++ ·)

end Grammar

/-! ### Words and commands -/

def Token.part? : Token → Option Part
  | .part p => some p
  | _ => none

/-- Blanks part the words of a line. -/
def wordsOf (line : List Token) : List Word :=
  ((line.splitOn .blank).filter fun word => word ≠ []).map (List.filterMap Token.part?)

/-- The commands of complete lines. -/
def commandsOf (tokens : List Token) : Option (List (List Word)) :=
  if (tokens.splitOn .newline).getLast? = some [] then
    some (((tokens.splitOn .newline).dropLast.map wordsOf).filter fun command => command ≠ [])
  else none

/-- The simple commands that a text is, when it is nothing else. -/
def Grammar.read (grammar : Grammar) (text : List Char) : Option (List (List Word)) :=
  (grammar.tokens .between 0 text).bind commandsOf

/-! ### Assignments as arguments -/

def Part.text (shell : Shell) : Part → List Char
  | .plain c => [c]
  | .quoted c => [c]
  | .expansion text => shell.value text

def Part.isPlain : Part → Bool
  | .plain _ => true
  | _ => false

def Part.inLogin (p : Part) : Bool := p ≠ .plain '/' && p ≠ .plain ':'

/-- The value of an assignment after expansion and quote removal. A tilde at its start or after a
colon is the home directory of the login name behind it. -/
def expandValue (shell : Shell) : Bool → ℕ → List Part → List Char
  | _, _, [] => []
  | _, skip+1, _::rest => expandValue shell false skip rest
  | start, 0, p::rest =>
    let login := rest.takeWhile Part.inLogin
    if start = true ∧ p = .plain '~' ∧ login.all Part.isPlain then
      match shell.home (login.flatMap (Part.text shell)) with
      | some directory => directory ++ expandValue shell false login.length rest
      | none => '~'::expandValue shell false 0 rest
    else p.text shell ++ expandValue shell (p == .plain ':') 0 rest

def isName : List Char → Bool
  | [] => false
  | c::rest => (c.isAlpha || c = '_') && rest.all fun d => d.isAlphanum || d = '_'

/-- The name and the value of an argument in the form of an assignment, as a declaration utility
expands it: neither fields nor pathnames are made of it. -/
def Shell.assignment (shell : Shell) (argument : Word) : Option (List Char × List Char) :=
  let name := argument.takeWhile (· ≠ .plain '=')
  match argument.dropWhile (· ≠ .plain '=') with
  | [] => none
  | _::value =>
    if name.all Part.isPlain ∧ isName (name.flatMap (Part.text shell)) then
      some (name.flatMap (Part.text shell),expandValue shell true 0 value)
    else none

/-- The text is one simple command `utility` with one argument, which assigns this value to this
name in every shell. -/
def ReadsAs (grammar : Grammar) (text utility name value : List Char) : Prop := ∃ argument : Word,
  grammar.read text = some [[utility.map .plain,argument]] ∧
  ∀ shell : Shell, shell.assignment argument = some (name,value)

/-! ### Characters that stand for themselves -/

/-- A character is literal here at most once, and what an expansion gives is not counted. -/
def Part.literal : Part → ℕ
  | .expansion _ => 0
  | _ => 1

def literals (parts : List Part) : ℕ := (parts.map Part.literal).sum

def partsOf (tokens : List Token) : List Part := tokens.filterMap Token.part?

@[simp] theorem literals_nil : literals [] = 0 := rfl

@[simp] theorem literals_cons (p : Part) (parts : List Part) : literals (p::parts) = p.literal+literals parts := rfl

theorem literals_append (first second : List Part) : literals (first ++ second) = literals first+literals second := by
  simp [literals]

theorem literals_plain (text : List Char) : literals (text.map .plain) = text.length := by
  induction text with
  | nil => rfl
  | cons c text ih => rw [List.map_cons,literals_cons,ih,List.length_cons,Nat.add_comm]; rfl

theorem partsOf_append (first second : List Token) : partsOf (first ++ second) = partsOf first ++ partsOf second :=
  List.filterMap_append

theorem partsOf_part (parts : List Part) : partsOf (parts.map .part) = parts := by
  rw [partsOf,List.filterMap_map]
  exact List.filterMap_some

namespace Grammar

variable {grammar : Grammar} {mode next : Mode} {c : Char} {rest : List Char} {skip : ℕ} {out : List Token}

theorem expand_literals (h : grammar.expand mode c rest = some (next,skip,out)) : literals (partsOf out) = 0 := by
  obtain ⟨n,-,heq⟩ := Option.map_eq_some_iff.mp h
  cases heq
  rfl

theorem stepUnquoted_literals (h : grammar.stepUnquoted mode c rest = some (next,skip,out)) :
    literals (partsOf out) ≤ 1 := by
  unfold stepUnquoted at h
  repeat' split at h
  all_goals first
    | exact (expand_literals h).trans_le (Nat.zero_le _)
    | (cases h; exact Nat.zero_le 1)
    | (cases h; exact Nat.le_refl 1)
    | cases h

theorem stepDouble_literals (h : grammar.stepDouble c rest = some (next,skip,out)) : literals (partsOf out) ≤ 1 := by
  unfold stepDouble at h
  repeat' split at h
  all_goals first
    | exact (expand_literals h).trans_le (Nat.zero_le _)
    | (cases h; exact Nat.zero_le 1)
    | (cases h; exact Nat.le_refl 1)
    | cases h

theorem step_literals (h : grammar.step mode c rest = some (next,skip,out)) : literals (partsOf out) ≤ 1 := by
  unfold step at h
  split at h
  · cases h
  · cases mode with
    | between | word => exact stepUnquoted_literals h
    | double => exact stepDouble_literals h
    | single =>
      dsimp only at h
      split at h <;> cases h
      · exact Nat.zero_le 1
      · exact Nat.le_refl 1
    | comment =>
      dsimp only at h
      split at h <;> cases h <;> exact Nat.zero_le 1

/-- Whatever comes before, nothing in this end of a text is literal. -/
def Silent (grammar : Grammar) (tail : List Char) : Prop := ∀ mode skip out,
  grammar.tokens mode skip tail = some out → literals (partsOf out) = 0

theorem tokens_step (h : grammar.tokens mode 0 (c::rest) = some out) : ∃ next skip first later,
    grammar.step mode c rest = some (next,skip,first) ∧ grammar.tokens next skip rest = some later ∧
    out = first ++ later := by
  rw [tokens] at h
  split at h
  · cases h
  · next next skip first hstep =>
    obtain ⟨later,hlater,rfl⟩ := Option.map_eq_some_iff.mp h
    exact ⟨next,skip,first,later,hstep,hlater,rfl⟩

theorem tokens_of_step {first : List Token} (h : grammar.step mode c rest = some (next,skip,first)) :
    grammar.tokens mode 0 (c::rest) = (grammar.tokens next skip rest).map (first ++ ·) := by
  rw [tokens,h]

theorem tokens_skip (mode : Mode) (skip : ℕ) (c : Char) (rest : List Char) :
    grammar.tokens mode (skip+1) (c::rest) = grammar.tokens mode skip rest := by
  rw [tokens]

variable {tail : List Char}

theorem tokens_literals_le (hsilent : Silent grammar tail) {text : List Char}
    (h : grammar.tokens mode skip (text ++ tail) = some out) : literals (partsOf out) ≤ text.length-skip := by
  induction text generalizing mode skip out with
  | nil => exact (hsilent mode skip out h).trans_le (Nat.zero_le _)
  | cons c rest ih =>
    rw [List.cons_append] at h
    cases skip with
    | succ skip =>
      rw [tokens_skip] at h
      have hrest := ih h
      rw [List.length_cons]
      omega
    | zero =>
      obtain ⟨next,skip,first,later,hstep,hlater,rfl⟩ := tokens_step h
      have hfirst := step_literals hstep
      have hrest := ih hlater
      rw [partsOf_append,literals_append,List.length_cons]
      omega

/-- A step that is not literal, or takes a further character of the text with it. -/
def Loses (grammar : Grammar) (mode : Mode) (c : Char) (rest tail : List Char) : Prop := ∀ next skip out,
  grammar.step mode c (rest ++ tail) = some (next,skip,out) → literals (partsOf out) = 0 ∨ 1 ≤ skip ∧ rest ≠ []

theorem tokens_literals_lt (hsilent : Silent grammar tail) (hloses : Loses grammar mode c rest tail)
    (h : grammar.tokens mode 0 (c::(rest ++ tail)) = some out) : literals (partsOf out) < rest.length+1 := by
  obtain ⟨next,skip,first,later,hstep,hlater,rfl⟩ := tokens_step h
  have hfirst := step_literals hstep
  have hrest := tokens_literals_le hsilent hlater
  rw [partsOf_append,literals_append]
  rcases hloses next skip first hstep with hnone | ⟨hskip,hne⟩
  · omega
  · have hlength := List.length_pos_of_ne_nil hne
    omega

theorem silent_newline : Silent grammar ['\n'] := by
  rintro mode (_ | skip) out h
  · cases mode <;> cases h <;> rfl
  · rw [tokens_skip] at h
    cases mode <;> cases h <;> rfl

theorem silent_quote : Silent grammar ['"','\n'] := by
  rintro mode (_ | _ | skip) out h
  · cases mode <;> cases h <;> rfl
  · rw [tokens_skip] at h
    exact silent_newline mode 0 out h
  · rw [tokens_skip] at h
    exact silent_newline mode (skip+1) out h

end Grammar

/-! ### Values without quotes -/

/-- What does not stand for itself outside quotations. -/
def special : List Char := ['\x00','\n',' ','\t','|','&',';','<','>','(',')','\'','"','$','`','\\']

namespace Grammar

variable {grammar : Grammar} {mode : Mode} {c : Char} {rest value : List Char} {out : List Token}

theorem step_word (h : c ∉ special) (rest : List Char) :
    grammar.step .word c rest = some (.word,0,[.part (.plain c)]) := by
  simp only [special,List.mem_cons,List.not_mem_nil,or_false,not_or] at h
  simp [step,stepUnquoted,operators,h]

theorem step_between (h : c ∉ special) (hcomment : c ≠ '#') (rest : List Char) :
    grammar.step .between c rest = some (.word,0,[.part (.plain c)]) := by
  simp only [special,List.mem_cons,List.not_mem_nil,or_false,not_or] at h
  simp [step,stepUnquoted,operators,h,hcomment]

theorem loses_word (h : c ∈ special) (rest : List Char) : Loses grammar .word c rest ['\n'] := by
  intro next skip out hstep
  simp only [special,List.mem_cons,List.not_mem_nil,or_false] at h
  rcases h with rfl | rfl | rfl | rfl | rfl | rfl | rfl | rfl | rfl | rfl | rfl | rfl | rfl | rfl | rfl | rfl
  case inr.inr.inr.inr.inr.inr.inr.inr.inr.inr.inr.inr.inr.inr.inr =>
    cases rest with
    | nil =>
      cases hstep
      exact .inl rfl
    | cons d rest =>
      change (if d = '\n' then some (Mode.word,1,[]) else some (.word,1,[Token.part (.quoted d)])) = _ at hstep
      split at hstep <;> cases hstep
      · exact .inl rfl
      · exact .inr ⟨le_rfl,List.cons_ne_nil _ _⟩
  all_goals first
    | (cases hstep; exact .inl rfl)
    | cases hstep
    | exact .inl (expand_literals hstep)

/-- A value that is literal as a whole stands for itself. -/
theorem plain_of_literals (h : grammar.tokens .word 0 (value ++ ['\n']) = some out)
    (hlength : value.length ≤ literals (partsOf out)) : ∀ c ∈ value, c ∉ special := by
  induction value generalizing out with
  | nil => simp
  | cons c rest ih =>
    rw [List.length_cons] at hlength
    have hc : c ∉ special := fun hc => by
      have hlt := tokens_literals_lt silent_newline (loses_word hc rest) h
      omega
    obtain ⟨next,skip,first,later,hstep,hlater,rfl⟩ := tokens_step h
    rw [step_word hc] at hstep
    cases hstep
    rw [partsOf_append,literals_append] at hlength
    have hfirst : literals (partsOf [.part (.plain c)]) = 1 := rfl
    have hrest := ih hlater (by omega)
    exact List.forall_mem_cons.mpr ⟨hc,hrest⟩

theorem tokens_plain (h : ∀ c ∈ value, c ∉ special) (rest : List Char) :
    grammar.tokens .word 0 (value ++ rest) =
      (grammar.tokens .word 0 rest).map (fun later => (value.map Part.plain).map Token.part ++ later) := by
  induction value with
  | nil => simp
  | cons c value ih =>
    obtain ⟨hc,hvalue⟩ := List.forall_mem_cons.mp h
    rw [List.cons_append,tokens_of_step (step_word hc _),ih hvalue,Option.map_map]
    rfl

theorem tokens_plain_between (h : ∀ c ∈ value, c ∉ special) (hhead : ∀ c ∈ value.head?, c ≠ '#') (hne : value ≠ [])
    (rest : List Char) : grammar.tokens .between 0 (value ++ rest) =
      (grammar.tokens .word 0 rest).map (fun later => (value.map Part.plain).map Token.part ++ later) := by
  cases value with
  | nil => exact absurd rfl hne
  | cons c value =>
    obtain ⟨hc,hvalue⟩ := List.forall_mem_cons.mp h
    rw [List.cons_append,tokens_of_step (step_between hc (hhead c rfl) _),tokens_plain hvalue,Option.map_map]
    rfl

theorem tokens_blank (rest : List Char) :
    grammar.tokens .word 0 (' '::rest) = (grammar.tokens .between 0 rest).map ([.blank] ++ ·) := by
  have hstep : grammar.step .word ' ' rest = some (.between,0,[.blank]) := rfl
  rw [tokens_of_step hstep]

end Grammar

/-! ### Values within double quotes -/

/-- A character that stands for itself there, before this rest of the value. -/
def Kept (c : Char) (rest : List Char) : Prop := c ∉ ['\x00','"','$','`'] ∧
  (c = '\\' → ∃ d after, rest = d::after ∧ d ≠ '\n' ∧ d ∉ escapable)

/-- Every character of the value is kept. -/
def Quotable : List Char → Prop
  | [] => True
  | c::rest => Kept c rest ∧ Quotable rest

namespace Grammar

variable {grammar : Grammar} {mode : Mode} {c : Char} {rest value : List Char} {out : List Token}

theorem step_double (h : Kept c rest) (tail : List Char) :
    grammar.step .double c (rest ++ tail) = some (.double,0,[.part (.quoted c)]) := by
  obtain ⟨hc,hescape⟩ := h
  simp only [List.mem_cons,List.not_mem_nil,or_false,not_or] at hc
  by_cases hbackslash : c = '\\'
  · obtain ⟨d,after,rfl,hd,hescapable⟩ := hescape hbackslash
    subst hbackslash
    simp [step,stepDouble,hd,hescapable]
  · simp [step,stepDouble,hc,hbackslash]

theorem loses_double (h : ¬Kept c rest) (hend : c = '\\' → rest ≠ []) : Loses grammar .double c rest ['"','\n'] := by
  intro next skip out hstep
  by_cases hc : c ∈ ['\x00','"','$','`']
  · simp only [List.mem_cons,List.not_mem_nil,or_false] at hc
    rcases hc with rfl | rfl | rfl | rfl
    · cases hstep
    · cases hstep
      exact .inl rfl
    · exact .inl (expand_literals hstep)
    · exact .inl (expand_literals hstep)
  · have hescape : ¬(c = '\\' → ∃ d after, rest = d::after ∧ d ≠ '\n' ∧ d ∉ escapable) := fun hkept => h ⟨hc,hkept⟩
    push Not at hescape
    obtain ⟨rfl,hescape⟩ := hescape
    obtain ⟨d,after,rfl⟩ := List.exists_cons_of_ne_nil (hend rfl)
    have hd := hescape d after rfl
    change (if d = '\n' then some (Mode.double,1,[]) else if d ∈ escapable then some (.double,1,[Token.part (.quoted d)])
      else some (.double,0,[Token.part (.quoted '\\')])) = _ at hstep
    split at hstep
    · cases hstep
      exact .inl rfl
    · next hnewline =>
      rw [if_pos (hd hnewline)] at hstep
      cases hstep
      exact .inr ⟨le_rfl,List.cons_ne_nil _ _⟩

theorem quotable_of_literals (h : grammar.tokens .double 0 (value ++ ['"','\n']) = some out)
    (hlength : value.length ≤ literals (partsOf out)) : Quotable value := by
  induction value generalizing out with
  | nil => trivial
  | cons c rest ih =>
    rw [List.length_cons] at hlength
    have hkept : Kept c rest := by
      by_contra hlost
      by_cases hend : c = '\\' ∧ rest = []
      · -- the backslash takes the closing quote
        obtain ⟨rfl,rfl⟩ := hend
        cases h
      · have hlt := tokens_literals_lt silent_quote (loses_double hlost fun hc hrest => hend ⟨hc,hrest⟩) h
        omega
    rw [List.cons_append] at h
    obtain ⟨next,skip,first,later,hstep,hlater,rfl⟩ := tokens_step h
    rw [step_double hkept] at hstep
    cases hstep
    rw [partsOf_append,literals_append] at hlength
    have hfirst : literals (partsOf [.part (.quoted c)]) = 1 := rfl
    exact ⟨hkept,ih hlater (by omega)⟩

theorem tokens_quotable (h : Quotable value) (tail : List Char) : grammar.tokens .double 0 (value ++ tail) =
    (grammar.tokens .double 0 tail).map (fun later => (value.map Part.quoted).map Token.part ++ later) := by
  induction value with
  | nil => simp
  | cons c value ih =>
    rw [List.cons_append,tokens_of_step (step_double h.1 _),ih h.2,Option.map_map]
    rfl

end Grammar

/-! ### One command with one argument -/

theorem literals_intercalate {separator : Token} (h : separator.part? = none) (pieces : List (List Token)) :
    literals (partsOf ([separator].intercalate pieces)) = (pieces.map fun piece => literals (partsOf piece)).sum := by
  have hseparator : partsOf [separator] = [] := List.filterMap_cons_none h
  induction pieces with
  | nil => rfl
  | cons piece pieces ih =>
    cases pieces with
    | nil => simp
    | cons next pieces =>
      rw [List.intercalate_cons_cons,partsOf_append,partsOf_append,hseparator,List.append_nil,literals_append,ih]
      rfl

theorem sum_splitOn (separator : Token) (h : separator.part? = none) (tokens : List Token) :
    ((tokens.splitOn separator).map fun piece => literals (partsOf piece)).sum = literals (partsOf tokens) := by
  rw [← literals_intercalate h,List.intercalate_splitOn]

theorem sum_map_le {α : Type} {short long : List α} (h : short.Sublist long) (f : α → ℕ) :
    (short.map f).sum ≤ (long.map f).sum := (h.map f).sum_le_sum fun _ _ => Nat.zero_le _

theorem literals_wordsOf (line : List Token) : ((wordsOf line).map literals).sum ≤ literals (partsOf line) := by
  rw [wordsOf,List.map_map,← sum_splitOn .blank rfl line]
  exact sum_map_le List.filter_sublist _

theorem literals_commandsOf {tokens : List Token} {commands : List (List Word)} (h : commandsOf tokens = some commands) :
    (commands.map fun command => (command.map literals).sum).sum ≤ literals (partsOf tokens) := by
  rw [commandsOf] at h
  split at h
  · cases h
    calc _ ≤ (((tokens.splitOn .newline).dropLast.map wordsOf).map fun command => (command.map literals).sum).sum :=
          sum_map_le List.filter_sublist _
      _ ≤ (((tokens.splitOn .newline).map wordsOf).map fun command => (command.map literals).sum).sum :=
          sum_map_le ((List.dropLast_sublist _).map _) _
      _ ≤ ((tokens.splitOn .newline).map fun line => literals (partsOf line)).sum := by
          rw [List.map_map]
          exact List.sum_le_sum fun line _ => literals_wordsOf line
      _ = literals (partsOf tokens) := sum_splitOn .newline rfl tokens
  · cases h

theorem commandsOf_two {first second : List Token} (hfirst : ∀ token ∈ first, token ≠ .blank ∧ token ≠ .newline)
    (hsecond : ∀ token ∈ second, token ≠ .blank ∧ token ≠ .newline) (hne : first ≠ []) (hne' : second ≠ []) :
    commandsOf (first ++ Token.blank::(second ++ [Token.newline])) = some [[partsOf first,partsOf second]] := by
  have hline : (first ++ Token.blank::(second ++ [Token.newline])).splitOn .newline = [first ++ Token.blank::second,[]] := by
    rw [← List.cons_append,← List.append_assoc,List.splitOn_append_cons_self,List.splitOn_nil,
      List.splitOn_eq_singleton]
    · rfl
    · intro hmem
      rcases List.mem_append.mp hmem with hmem | hmem
      · exact (hfirst _ hmem).2 rfl
      · rcases List.mem_cons.mp hmem with heq | hmem
        · cases heq
        · exact (hsecond _ hmem).2 rfl
  have hwords : wordsOf (first ++ Token.blank::second) = [partsOf first,partsOf second] := by
    rw [wordsOf,List.splitOn_append_cons_self_of_not_mem fun hmem => (hfirst _ hmem).1 rfl,
      List.splitOn_eq_singleton fun hmem => (hsecond _ hmem).1 rfl]
    simp [hne,hne',partsOf]
  rw [commandsOf,hline]
  simp [hwords]

/-! ### What an assignment comes to -/

/-- A shell in which everything that is expanded vanishes. -/
def mute : Shell := ⟨fun _ => [],fun _ => some []⟩

theorem length_text_mute (p : Part) : (p.text mute).length = p.literal := by cases p <;> rfl

theorem length_expandValue_mute (start : Bool) (skip : ℕ) (parts : List Part) :
    (expandValue mute start skip parts).length ≤ literals parts := by
  induction parts generalizing start skip with
  | nil => cases skip <;> exact Nat.zero_le _
  | cons p rest ih =>
    rw [literals_cons]
    cases skip with
    | succ skip =>
      rw [expandValue]
      exact (ih false skip).trans (Nat.le_add_left _ _)
    | zero =>
      rw [expandValue]
      split
      · exact (ih false _).trans (Nat.le_add_left _ _)
      · rw [List.length_append,length_text_mute]
        exact Nat.add_le_add_left (ih _ 0) _

/-- A tilde that is expanded vanishes too. -/
theorem length_expandValue_tilde (value : List Char) :
    (expandValue mute true 0 (('~'::value).map .plain)).length ≤ value.length := by
  have hlogin : ((value.map Part.plain).takeWhile Part.inLogin).all Part.isPlain = true := by
    refine List.all_eq_true.mpr fun p hp => ?_
    obtain ⟨c,-,rfl⟩ := List.mem_map.mp ((List.takeWhile_subset _) hp)
    rfl
  rw [List.map_cons,expandValue]
  rw [if_pos ⟨rfl,rfl,hlogin⟩]
  have hlength := length_expandValue_mute false ((value.map Part.plain).takeWhile Part.inLogin).length (value.map .plain)
  rw [literals_plain] at hlength
  exact hlength

/-- No tilde stands where a home directory would be put: at the start, or after a colon. -/
def NoTilde : Bool → List Char → Prop
  | _, [] => True
  | start, c::rest => (start = true → c ≠ '~') ∧ NoTilde (c == ':') rest

theorem expandValue_plain (shell : Shell) {start : Bool} {value : List Char} (h : NoTilde start value) :
    expandValue shell start 0 (value.map .plain) = value := by
  induction value generalizing start with
  | nil => rfl
  | cons c rest ih =>
    have hplain : (Part.plain c == .plain ':') = (c == ':') := by
      rw [Bool.eq_iff_iff,beq_iff_eq,beq_iff_eq,Part.plain.injEq]
    rw [List.map_cons,expandValue]
    rw [if_neg fun htilde => h.1 htilde.1 (Part.plain.inj htilde.2.1),hplain,ih h.2]
    rfl

theorem noTilde_of_length {start : Bool} {value : List Char}
    (h : value.length ≤ (expandValue mute start 0 (value.map .plain)).length) : NoTilde start value := by
  induction value generalizing start with
  | nil => trivial
  | cons c rest ih =>
    have htilde : start = true → c ≠ '~' := by
      rintro rfl rfl
      have hlength := length_expandValue_tilde rest
      rw [List.length_cons] at h
      omega
    refine ⟨htilde,ih ?_⟩
    have hplain : (Part.plain c == .plain ':') = (c == ':') := by
      rw [Bool.eq_iff_iff,beq_iff_eq,beq_iff_eq,Part.plain.injEq]
    rw [List.map_cons,expandValue] at h
    rw [if_neg fun hactive => htilde hactive.1 (Part.plain.inj hactive.2.1),hplain,List.length_append,List.length_cons] at h
    have hone : ((Part.plain c).text mute).length = 1 := rfl
    omega

theorem expandValue_quoted (shell : Shell) (start : Bool) (value : List Char) :
    expandValue shell start 0 (value.map .quoted) = value := by
  induction value generalizing start with
  | nil => rfl
  | cons c rest ih =>
    rw [List.map_cons,expandValue]
    rw [if_neg fun htilde => Part.noConfusion htilde.2.1,ih]
    rfl

theorem isName_spec {name : List Char} (h : isName name = true) :
    name ≠ [] ∧ ∀ c ∈ name, c.isAlphanum = true ∨ c = '_' := by
  cases name with
  | nil => cases h
  | cons c rest =>
    refine ⟨List.cons_ne_nil _ _,?_⟩
    simp only [isName,Bool.and_eq_true,Bool.or_eq_true,decide_eq_true_eq,List.all_eq_true] at h
    refine List.forall_mem_cons.mpr ⟨?_,h.2⟩
    rcases h.1 with halpha | hunderscore
    · exact .inl (by simp [Char.isAlphanum,halpha])
    · exact .inr hunderscore

theorem ordinary_of_name {c : Char} (h : c.isAlphanum = true ∨ c = '_') : c ∉ special ∧ c ≠ '#' ∧ c ≠ '=' := by
  refine ⟨fun hc => ?_,?_,?_⟩
  · simp only [special,List.mem_cons,List.not_mem_nil,or_false] at hc
    rcases hc with rfl | rfl | rfl | rfl | rfl | rfl | rfl | rfl | rfl | rfl | rfl | rfl | rfl | rfl | rfl | rfl <;>
      revert h <;> decide
  all_goals
    rintro rfl
    revert h
    decide

theorem flatMap_plain (shell : Shell) (text : List Char) : (text.map .plain).flatMap (Part.text shell) = text := by
  induction text with
  | nil => rfl
  | cons c text ih => rw [List.map_cons,List.flatMap_cons,ih]; rfl

theorem assignment_name (shell : Shell) {name : List Char} (h : isName name = true) (parts : List Part) :
    shell.assignment (name.map .plain ++ .plain '='::parts) = some (name,expandValue shell true 0 parts) := by
  have hname : ∀ p ∈ name.map Part.plain, (decide (p ≠ .plain '=')) = true := by
    intro p hp
    obtain ⟨c,hc,rfl⟩ := List.mem_map.mp hp
    have hordinary := (ordinary_of_name ((isName_spec h).2 c hc)).2.2
    simpa using hordinary
  have htake : (name.map Part.plain ++ .plain '='::parts).takeWhile (fun p => decide (p ≠ .plain '=')) =
      name.map .plain := by
    rw [List.takeWhile_append_of_pos hname]
    simp
  have hdrop : (name.map Part.plain ++ .plain '='::parts).dropWhile (fun p => decide (p ≠ .plain '=')) =
      .plain '='::parts := by
    rw [List.dropWhile_append_of_pos hname]
    simp
  have hplain : (name.map Part.plain).all Part.isPlain = true := by simp [Part.isPlain]
  rw [Shell.assignment,htake,hdrop]
  dsimp only
  rw [if_pos ⟨hplain,by rw [flatMap_plain]; exact h⟩,flatMap_plain]

/-- In the mute shell nothing of an assignment comes from anywhere but its literal parts. -/
theorem literals_assignment {argument : Word} {name value : List Char}
    (h : mute.assignment argument = some (name,value)) : name.length+1+value.length ≤ literals argument := by
  rw [Shell.assignment] at h
  split at h
  · cases h
  · next p parts hdrop =>
    split at h
    · next hshape =>
      cases h
      have hequals : p = .plain '=' := by
        have hhead := List.head?_dropWhile_not (· ≠ Part.plain '=') argument
        rw [hdrop] at hhead
        simpa using hhead
      have hsplit := List.takeWhile_append_dropWhile (p := fun q => decide (q ≠ Part.plain '=')) (l := argument)
      have hvalue := length_expandValue_mute true 0 parts
      have hname : ∀ word : Word, (word.flatMap (Part.text mute)).length = literals word := by
        intro word
        rw [List.length_flatMap,literals]
        exact congrArg List.sum (List.map_congr_left fun q _ => length_text_mute q)
      rw [hdrop,hequals] at hsplit
      have hcount := congrArg literals hsplit
      have hone : (Part.plain '=').literal = 1 := rfl
      rw [literals_append,literals_cons,hone] at hcount
      rw [hname]
      omega
    · cases h

/-! ### Lines that assign a value -/

section Lines

variable {grammar : Grammar} {utility name : List Char}

/-- The tokens before the value. -/
def front (utility name : List Char) : List Token :=
  (utility.map Part.plain).map Token.part ++ .blank::((name ++ ['=']).map Part.plain).map Token.part

theorem literals_front (utility name : List Char) :
    literals (partsOf (front utility name)) = utility.length+(name.length+1) := by
  have hblank (parts : List Part) : partsOf (.blank::parts.map Token.part) = parts := partsOf_part parts
  rw [front,partsOf_append,partsOf_part,hblank,literals_append,literals_plain,literals_plain,List.length_append]
  rfl

/-- A word that reads as itself. -/
structure IsUtility (utility : List Char) : Prop where
  ne_nil : utility ≠ []
  plain : ∀ c ∈ utility, c ∉ special
  uncommented : ∀ c ∈ utility.head?, c ≠ '#'

theorem tokens_front (h : IsUtility utility) (hname : isName name = true) (tail : List Char) :
    grammar.tokens .between 0 (utility ++ ' '::(name ++ '='::tail)) =
      (grammar.tokens .word 0 tail).map (front utility name ++ ·) := by
  obtain ⟨hname_ne,hchars⟩ := isName_spec hname
  have hassigned : ∀ c ∈ name ++ ['='], c ∉ special := by
    intro c hc
    rcases List.mem_append.mp hc with hc | hc
    · exact (ordinary_of_name (hchars c hc)).1
    · obtain rfl := List.mem_singleton.mp hc
      decide
  have hfirst : ∀ c ∈ (name ++ ['=']).head?, c ≠ '#' := by
    intro c hc
    rw [List.head?_append_of_ne_nil _ hname_ne] at hc
    exact (ordinary_of_name (hchars c (List.mem_of_mem_head? hc))).2.1
  have hequals : name ++ '='::tail = name ++ ['='] ++ tail := List.append_cons name '=' tail
  rw [Grammar.tokens_plain_between h.plain h.uncommented h.ne_nil,Grammar.tokens_blank,hequals,
    Grammar.tokens_plain_between hassigned hfirst (by simp),Option.map_map,Option.map_map]
  refine congrArg (Option.map · (grammar.tokens .word 0 tail)) (funext fun later => ?_)
  simp only [Function.comp_apply,front,List.append_assoc,List.cons_append,List.nil_append]

variable (hutility : IsUtility utility) (hname : isName name = true)
include hutility hname

/-- All of a value that is read back was literal. -/
theorem literals_of_readsAs {tail value : List Char}
    (h : ReadsAs grammar (utility ++ ' '::(name ++ '='::tail)) utility name value) :
    ∃ out, grammar.tokens .word 0 tail = some out ∧ value.length ≤ literals (partsOf out) := by
  obtain ⟨argument,hread,hassigned⟩ := h
  rw [Grammar.read,tokens_front hutility hname] at hread
  obtain ⟨all,hall,hcommands⟩ := Option.bind_eq_some_iff.mp hread
  obtain ⟨out,hout,rfl⟩ := Option.map_eq_some_iff.mp hall
  refine ⟨out,hout,?_⟩
  have hcount := literals_commandsOf hcommands
  have hargument := literals_assignment (hassigned mute)
  rw [partsOf_append,literals_append,literals_front] at hcount
  simp only [List.map_cons,List.map_nil,List.sum_cons,List.sum_nil,literals_plain] at hcount
  omega

/-- A line whose value is read as these parts. -/
theorem read_line {tail : List Char} (marks : List Token) (parts : List Part) (hmarks : ∀ token ∈ marks, token = .mark)
    (h : grammar.tokens .word 0 tail = some (marks ++ parts.map Token.part ++ [.newline])) :
    grammar.read (utility ++ ' '::(name ++ '='::tail)) =
      some [[utility.map .plain,name.map .plain ++ .plain '='::parts]] := by
  have hpart (parts : List Part) : ∀ token ∈ parts.map Token.part, token ≠ .blank ∧ token ≠ .newline := by
    intro token htoken
    obtain ⟨p,-,rfl⟩ := List.mem_map.mp htoken
    exact ⟨nofun,nofun⟩
  have hmark : ∀ token ∈ marks, token ≠ .blank ∧ token ≠ .newline := by
    intro token htoken
    rw [hmarks token htoken]
    exact ⟨nofun,nofun⟩
  have hnone : partsOf marks = [] := by
    rw [partsOf,List.filterMap_eq_nil_iff]
    intro token htoken
    rw [hmarks token htoken]
    rfl
  have hsecond : ∀ token ∈ ((name ++ ['=']).map Part.plain).map Token.part ++ (marks ++ parts.map Token.part),
      token ≠ .blank ∧ token ≠ .newline := by
    intro token htoken
    rcases List.mem_append.mp htoken with htoken | htoken
    · exact hpart _ token htoken
    · rcases List.mem_append.mp htoken with htoken | htoken
      · exact hmark token htoken
      · exact hpart _ token htoken
  have htwo := commandsOf_two (hpart (utility.map .plain)) hsecond (by simpa using hutility.ne_nil) (by simp)
  rw [Grammar.read,tokens_front hutility hname,h]
  simp only [Option.map_some,Option.bind_some,front,List.append_assoc,List.cons_append] at htwo ⊢
  rw [htwo,partsOf_part,partsOf_append,partsOf_append,partsOf_part,partsOf_part,hnone]
  simp

/-- Without quotes: no special character, and no tilde that is expanded. -/
theorem readsAs_bare_iff (value : List Char) :
    ReadsAs grammar (utility ++ ' '::(name ++ '='::(value ++ ['\n']))) utility name value ↔
      (∀ c ∈ value, c ∉ special) ∧ NoTilde true value := by
  have hplain (h : ∀ c ∈ value, c ∉ special) : grammar.read (utility ++ ' '::(name ++ '='::(value ++ ['\n']))) =
      some [[utility.map .plain,name.map .plain ++ .plain '='::value.map .plain]] := by
    refine read_line hutility hname [] (value.map .plain) nofun ?_
    rw [Grammar.tokens_plain h]
    rfl
  constructor
  · intro h
    obtain ⟨out,hout,hlength⟩ := literals_of_readsAs hutility hname h
    have hvalue := Grammar.plain_of_literals hout hlength
    obtain ⟨argument,hread,hassigned⟩ := h
    rw [hplain hvalue,Option.some.injEq] at hread
    simp only [List.cons.injEq,and_true,true_and] at hread
    have hmute := hassigned mute
    rw [← hread,assignment_name mute hname,Option.some.injEq,Prod.mk.injEq] at hmute
    exact ⟨hvalue,noTilde_of_length (by rw [hmute.2])⟩
  · rintro ⟨hvalue,htilde⟩
    refine ⟨_,hplain hvalue,fun shell => ?_⟩
    rw [assignment_name shell hname,expandValue_plain shell htilde]

/-- Within double quotes: every character is kept. -/
theorem readsAs_quoted_iff (value : List Char) :
    ReadsAs grammar (utility ++ ' '::(name ++ '=':: '"'::(value ++ ['"','\n']))) utility name value ↔
      Quotable value := by
  have hopen (rest : List Char) : grammar.tokens .word 0 ('"'::rest) =
      (grammar.tokens .double 0 rest).map ([.mark] ++ ·) :=
    Grammar.tokens_of_step (show grammar.step .word '"' rest = some (.double,0,[.mark]) from rfl)
  constructor
  · intro h
    obtain ⟨out,hout,hlength⟩ := literals_of_readsAs hutility hname h
    rw [hopen] at hout
    obtain ⟨later,hlater,rfl⟩ := Option.map_eq_some_iff.mp hout
    exact Grammar.quotable_of_literals hlater hlength
  · intro h
    refine ⟨_,read_line hutility hname [.mark] (value.map .quoted) (by simp) ?_,fun shell => ?_⟩
    · rw [hopen,Grammar.tokens_quotable h]
      rfl
    · rw [assignment_name shell hname,expandValue_quoted]

end Lines

end ShellQuoting
end NodeRustPty
