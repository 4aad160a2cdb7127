import NodeRustPty.References

/-! `expand_path` of `path/mod.rs`: a leading tilde is the home directory, and references to
environment variables are replaced one after another in the text that they were collected from. -/
namespace NodeRustPty
namespace Path

open References

/-- The characters that the regular expression `\w` matches, of which only two that it does
not match are used. -/
structure WordClass where
  isWord : Char → Bool
  dollar : isWord '$' = false
  brace : isWord '}' = false

/-- References to a variable, as the regular expression `\$\{(\w+)\}` matches them. -/
def WordClass.variables (w : WordClass) : Delimiters Char where
  lead := '$'
  opener := '{'
  closer := '}'
  isWord := w.isWord
  lead_not_word := w.dollar
  closer_not_word := w.brace
  lead_ne_opener := by decide
  lead_ne_closer := by decide

/-- What `home_dir` and `env::var` find; a variable whose value is no Unicode is an error to
`env::var`, as one that is not set. -/
structure Environment where
  homeDir : Option String
  var : String → Option String

def tildeExpansion (homeDir : Option String) (pathStr : String) : Except String String :=
  if pathStr.toList.head? = some '~' then
    match homeDir with
    | some home => .ok (String.ofList (replaceFirst ['~'] home.toList pathStr.toList))
    | none => .error "Home directory not found for tilde expansion."
  else .ok pathStr

variable (w : WordClass) (env : Environment)

/-- The names of the variables that the text refers to, from the left. -/
def references (pathStr : String) : List String := (w.variables.names pathStr.toList).map String.ofList

/-- The full matches whose variable is set, with the values. -/
def captures (pathStr : String) : List (List Char × List Char) :=
  (references w pathStr).filterMap fun var =>
    (env.var var).map fun val => (w.variables.wrap var.toList,val.toList)

def replaceCaptures (captures : List (List Char × List Char)) (pathStr : String) : String :=
  String.ofList (captures.foldl (fun text capture => replaceFirst capture.1 capture.2 text) pathStr.toList)

def expandPath (pathStr : String) : Except String String :=
  match tildeExpansion env.homeDir pathStr with
  | .error e => .error e
  | .ok pathStr =>
    let replaced := replaceCaptures (captures w env pathStr) pathStr
    if !(references w replaced).isEmpty then .error "Some environment variables were not set."
    else .ok replaced

/-! ### All at once -/

/-- The value of a variable as characters; without one, none. -/
def valueOf (name : List Char) : List Char := ((env.var (String.ofList name)).getD "").toList

/-- Every reference replaced by the value of its variable, in one go. -/
def substituted (pathStr : String) : String :=
  String.ofList (w.variables.substitute (valueOf env) pathStr.toList)

/-- With all variables set the references are replaced in one go, and otherwise it is an error. -/
def Expands (pathStr : String) : Prop := ∀ expanded, tildeExpansion env.homeDir pathStr = .ok expanded →
  ((∀ name ∈ references w expanded, (env.var name).isSome) →
    expandPath w env pathStr = .ok (substituted w env expanded)) ∧
  ((∃ name ∈ references w expanded, env.var name = none) → ∃ e, expandPath w env pathStr = .error e)

variable {w env} {pathStr expanded : String}

theorem mem_references_iff {name : String} :
    name ∈ references w pathStr ↔ name.toList ∈ w.variables.names pathStr.toList := by
  rw [references,List.mem_map]
  constructor
  · rintro ⟨text,htext,rfl⟩
    rwa [String.toList_ofList]
  · exact fun h => ⟨name.toList,h,String.ofList_toList⟩

theorem foldl_captures (pathStr : String) (text : List Char) :
    (captures w env pathStr).foldl (fun text capture => replaceFirst capture.1 capture.2 text) text =
      ((w.variables.names pathStr.toList).filter fun name => (env.var (String.ofList name)).isSome).foldl
        (fun text name => replaceFirst (w.variables.wrap name) (valueOf env name) text) text := by
  rw [captures,references]
  generalize w.variables.names pathStr.toList = names
  induction names generalizing text with
  | nil => rfl
  | cons name names ih =>
    rw [List.map_cons]
    cases hvar : env.var (String.ofList name) with
    | none =>
      rw [List.filterMap_cons_none (by rw [hvar]; rfl),List.filter_cons_of_neg (by simp [hvar])]
      exact ih text
    | some value =>
      have hvalue : valueOf env name = value.toList := by rw [valueOf,hvar]; rfl
      rw [List.filterMap_cons_some (by rw [hvar]; rfl),List.filter_cons_of_pos (by simp [hvar]),List.foldl_cons,
        List.foldl_cons,String.toList_ofList,hvalue]
      exact ih _

theorem expandPath_eq (h : tildeExpansion env.homeDir pathStr = .ok expanded) :
    expandPath w env pathStr =
      if !(references w (replaceCaptures (captures w env expanded) expanded)).isEmpty then
        .error "Some environment variables were not set."
      else .ok (replaceCaptures (captures w env expanded) expanded) := by
  rw [expandPath,h]

/-- A reference to a variable that is not set stays to the end. -/
theorem expandPath_unset (h : tildeExpansion env.homeDir pathStr = .ok expanded) {name : String}
    (hname : name ∈ references w expanded) (hunset : env.var name = none) :
    expandPath w env pathStr = .error "Some environment variables were not set." := by
  have hleft : name ∈ references w (replaceCaptures (captures w env expanded) expanded) := by
    rw [mem_references_iff,replaceCaptures,String.toList_ofList,foldl_captures]
    refine Delimiters.mem_names_foldl _ _ (mem_references_iff.mp hname) fun other hother => ?_
    obtain ⟨hmem,hset⟩ := List.mem_filter.mp hother
    refine ⟨(Delimiters.mem_names_iff.mp hmem).1,?_⟩
    rintro rfl
    rw [String.ofList_toList,hunset] at hset
    exact absurd hset Bool.false_ne_true
  rw [expandPath_eq h,if_pos]
  rw [Bool.not_eq_true',List.isEmpty_eq_false_iff]
  exact List.ne_nil_of_mem hleft

theorem expandPath_set (h : tildeExpansion env.homeDir pathStr = .ok expanded)
    (hset : ∀ name ∈ references w expanded, (env.var name).isSome)
    (hclean : references w (substituted w env expanded) = []) :
    expandPath w env pathStr = .ok (substituted w env expanded) := by
  have hnames : w.variables.names (w.variables.substitute (valueOf env) expanded.toList) = [] := by
    rw [references,substituted,String.toList_ofList,List.map_eq_nil_iff] at hclean
    exact hclean
  have hall : ((w.variables.names expanded.toList).filter fun name => (env.var (String.ofList name)).isSome) =
      w.variables.names expanded.toList := List.filter_eq_self.mpr fun name hname =>
    hset _ (List.mem_map_of_mem hname)
  have hreplaced : replaceCaptures (captures w env expanded) expanded = substituted w env expanded := by
    rw [replaceCaptures,foldl_captures,hall,Delimiters.foldl_replaceFirst hnames,substituted]
  rw [expandPath_eq h,hreplaced,hclean]
  rfl

theorem references_of_ok {result : String} (h : expandPath w env pathStr = .ok result) : references w result = [] := by
  cases htilde : tildeExpansion env.homeDir pathStr with
  | error e =>
    rw [expandPath,htilde] at h
    exact absurd h nofun
  | ok expanded =>
    rw [expandPath_eq htilde] at h
    split at h
    · exact absurd h nofun
    · next hclean =>
      obtain rfl := Except.ok.inj h
      simpa using hclean

variable (w env)

/-- The loop is right exactly when a variable is not set, or no reference is in what it has to return. -/
theorem expands_iff (pathStr : String) : Expands w env pathStr ↔
    ∀ expanded, tildeExpansion env.homeDir pathStr = .ok expanded →
      (∃ name ∈ references w expanded, env.var name = none) ∨ references w (substituted w env expanded) = [] := by
  refine forall_congr' fun expanded => forall_congr' fun htilde => ?_
  constructor
  · rintro ⟨hset,-⟩
    by_cases hall : ∀ name ∈ references w expanded, (env.var name).isSome
    · exact .inr (references_of_ok (hset hall))
    · push Not at hall
      obtain ⟨name,hname,hunset⟩ := hall
      exact .inl ⟨name,hname,by simpa using hunset⟩
  · intro h
    refine ⟨fun hset => ?_,fun ⟨name,hname,hunset⟩ => ⟨_,expandPath_unset htilde hname hunset⟩⟩
    rcases h with ⟨name,hname,hunset⟩ | hclean
    · have hsome := hset name hname
      rw [hunset] at hsome
      exact absurd hsome Bool.false_ne_true
    · exact expandPath_set htilde hset hclean

/-- The part of `\w` that is ASCII. -/
def asciiWords : WordClass where
  isWord c := c.isAlphanum || c = '_'
  dollar := by decide
  brace := by decide

/-- The value of `A` looks like a reference. -/
def nested (b : Option String) : Environment where
  homeDir := none
  var := fun name => if name = "A" then some "${B}" else if name = "B" then b else none

theorem references_nested : references asciiWords "${A}" = ["A"] := by decide

/-- `${A}` has to become `${B}`, and that is rejected. -/
theorem expands_fails : ¬∀ (w : WordClass) (env : Environment) (pathStr : String), Expands w env pathStr := by
  intro h
  have hexpands := (h asciiWords (nested none) "${A}" "${A}" rfl).1
  have hresult := hexpands (by rw [references_nested]; decide)
  have hclean := references_of_ok hresult
  exact absurd hclean (by decide)

/-- Only the variables that the path itself refers to are looked up. -/
theorem expandPath_congr (env' : Environment) (pathStr : String) (hhome : env.homeDir = env'.homeDir)
    (hagree : ∀ expanded, tildeExpansion env.homeDir pathStr = .ok expanded →
      ∀ name ∈ references w expanded, env.var name = env'.var name) :
    expandPath w env pathStr = expandPath w env' pathStr := by
  cases htilde : tildeExpansion env.homeDir pathStr with
  | error e => rw [expandPath,expandPath,← hhome,htilde]
  | ok expanded =>
    have hcaptures : captures w env expanded = captures w env' expanded :=
      List.filterMap_congr fun name hname => by rw [hagree expanded htilde name hname]
    rw [expandPath_eq htilde,expandPath_eq (hhome ▸ htilde),hcaptures]

theorem expandPath_congr_nested : expandPath asciiWords (nested none) "${A}" =
    expandPath asciiWords (nested (some "b")) "${A}" := by
  refine expandPath_congr asciiWords (nested none) (nested (some "b")) "${A}" rfl fun expanded h name hname => ?_
  obtain rfl : "${A}" = expanded := Except.ok.inj h
  rw [references_nested,List.mem_singleton] at hname
  rw [hname]
  rfl

end Path
end NodeRustPty
