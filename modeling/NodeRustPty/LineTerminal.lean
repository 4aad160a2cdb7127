import Mathlib

/-! A terminal of one row with a cursor, which keeps the rows that were ended. A printed cell
overwrites the one at the cursor; the variant that only ever appends shows the same
as long as nothing is printed over. -/
namespace NodeRustPty
namespace LineTerminal

inductive Key (α : Type)
  | print (cell : α)
  | carriageReturn
  | lineFeed
  deriving DecidableEq

@[ext] structure Row (α : Type) where
  cells : List α
  cursor : ℕ
  inBounds : cursor ≤ cells.length

@[ext] structure Screen (α : Type) where
  lines : List (List α)
  row : Row α

variable {α : Type}

namespace Row

def empty : Row α := ⟨[],0,le_rfl⟩

def home (row : Row α) : Row α := ⟨row.cells,0,Nat.zero_le _⟩

/-- The cell at the cursor is overwritten, or the row grows at its end. -/
def put (row : Row α) (cell : α) : Row α where
  cells := if row.cursor < row.cells.length then row.cells.set row.cursor cell else row.cells ++ [cell]
  cursor := row.cursor+1
  inBounds := by
    have := row.inBounds
    split <;> simp <;> omega

/-- The row grows wherever the cursor is. -/
def append (row : Row α) (cell : α) : Row α where
  cells := row.cells ++ [cell]
  cursor := row.cursor+1
  inBounds := by
    have := row.inBounds
    simp
    omega

theorem put_cursor (row : Row α) (cell : α) : (row.put cell).cells[row.cursor]? = some cell := by
  have := row.inBounds
  rw [put]
  split
  · next h => simp [h]
  · next h =>
    have hend : row.cursor = row.cells.length := by omega
    simp [hend]

theorem put_eq_append {row : Row α} (h : row.cursor = row.cells.length) (cell : α) : row.put cell = row.append cell := by
  simp [put,append,h]

theorem length_put {row : Row α} (h : row.cursor < row.cells.length) (cell : α) :
    (row.put cell).cells.length = row.cells.length := by
  simp [put,h]

theorem length_put_le (row : Row α) (cell : α) : (row.put cell).cells.length ≤ row.cells.length+1 := by
  rw [put]
  split <;> simp

end Row

namespace Screen

def blank : Screen α := ⟨[],Row.empty⟩

/-- The effect of a key, for either way to print. -/
def press (print : Row α → α → Row α) (s : Screen α) : Key α → Screen α
  | .print cell => ⟨s.lines,print s.row cell⟩
  | .carriageReturn => ⟨s.lines,s.row.home⟩
  | .lineFeed => ⟨if s.row.cells.isEmpty then s.lines else s.lines ++ [s.row.cells],Row.empty⟩

/-- What the terminal shows after these keys. -/
def shown (keys : List (Key α)) : Screen α := keys.foldl (press Row.put) blank

def appended (keys : List (Key α)) : Screen α := keys.foldl (press Row.append) blank

/-- All cells, in the row and above it. -/
def size (s : Screen α) : ℕ := (s.lines.map List.length).sum+s.row.cells.length

theorem shown_snoc (keys : List (Key α)) (key : Key α) : shown (keys ++ [key]) = press Row.put (shown keys) key := by
  simp [shown]

theorem appended_snoc (keys : List (Key α)) (key : Key α) :
    appended (keys ++ [key]) = press Row.append (appended keys) key := by
  simp [appended]

theorem size_lineFeed (print : Row α → α → Row α) (s : Screen α) : (press print s .lineFeed).size = s.size := by
  cases hcells : s.row.cells with
  | nil => simp [press,size,Row.empty,hcells]
  | cons cell cells => simp [press,size,Row.empty,hcells]

end Screen

/-! ### Lines of keys -/

section Lines

variable {key : Key α} {line : List (Key α)} {cell : α}

def Printed (line : List (Key α)) : Prop := ∃ cell, Key.print cell ∈ line

/-- The cursor came back over something printed. -/
def Returned (line : List (Key α)) : Prop := ∃ cell, [Key.print cell,.carriageReturn].Sublist line

/-- Something was printed after that. -/
def PrintsOver (line : List (Key α)) : Prop :=
  ∃ first second, [Key.print first,.carriageReturn,.print second].Sublist line

theorem sublist_snoc {β : Type} (short long : List β) (x y : β) :
    (short ++ [x]).Sublist (long ++ [y]) ↔ (short ++ [x]).Sublist long ∨ x = y ∧ short.Sublist long := by
  rw [← List.reverse_sublist,List.reverse_append,List.reverse_append,List.reverse_singleton,List.reverse_singleton,
    List.singleton_append,List.singleton_append,List.sublist_cons_iff]
  constructor
  · rintro (h | ⟨rest,hrest,h⟩)
    · left
      rw [← List.reverse_sublist,List.reverse_append,List.reverse_singleton,List.singleton_append]
      exact h
    · obtain ⟨rfl,rfl⟩ := List.cons.inj hrest
      exact .inr ⟨rfl,List.reverse_sublist.mp h⟩
  · rintro (h | ⟨rfl,h⟩)
    · left
      rw [← List.reverse_sublist,List.reverse_append,List.reverse_singleton,List.singleton_append] at h
      exact h
    · exact .inr ⟨_,rfl,List.reverse_sublist.mpr h⟩

theorem Returned.printed (h : Returned line) : Printed line := by
  obtain ⟨cell,h⟩ := h
  exact ⟨cell,h.subset List.mem_cons_self⟩

theorem PrintsOver.returned (h : PrintsOver line) : Returned line := by
  obtain ⟨first,second,h⟩ := h
  exact ⟨first,(List.sublist_append_left [Key.print first,.carriageReturn] [.print second]).trans h⟩

theorem printed_print : Printed (line ++ [.print cell]) := ⟨cell,by simp⟩

theorem printed_return : Printed (line ++ [.carriageReturn]) ↔ Printed line := by simp [Printed]

theorem returned_print : Returned (line ++ [.print cell]) ↔ Returned line := by
  refine exists_congr fun first => ?_
  have hsnoc := sublist_snoc [Key.print first] line .carriageReturn (.print cell)
  simpa using hsnoc

theorem returned_return : Returned (line ++ [.carriageReturn]) ↔ Printed line := by
  have hsnoc (first : α) : [Key.print first,.carriageReturn].Sublist (line ++ [.carriageReturn]) ↔
      [Key.print first,.carriageReturn].Sublist line ∨ Key.print first ∈ line := by
    have h := sublist_snoc [Key.print first] line .carriageReturn .carriageReturn
    simpa using h
  constructor
  · rintro ⟨first,h⟩
    rcases (hsnoc first).mp h with h | h
    · exact Returned.printed ⟨first,h⟩
    · exact ⟨first,h⟩
  · rintro ⟨first,h⟩
    exact ⟨first,(hsnoc first).mpr (.inr h)⟩

theorem printsOver_print : PrintsOver (line ++ [.print cell]) ↔ Returned line := by
  have hsnoc (first second : α) : [Key.print first,.carriageReturn,.print second].Sublist (line ++ [.print cell]) ↔
      [Key.print first,.carriageReturn,.print second].Sublist line ∨
        second = cell ∧ [Key.print first,.carriageReturn].Sublist line := by
    have h := sublist_snoc [Key.print first,.carriageReturn] line (.print second) (.print cell)
    simpa using h
  constructor
  · rintro ⟨first,second,h⟩
    rcases (hsnoc first second).mp h with h | ⟨-,h⟩
    · exact PrintsOver.returned ⟨first,second,h⟩
    · exact ⟨first,h⟩
  · rintro ⟨first,h⟩
    exact ⟨first,cell,(hsnoc first cell).mpr (.inr ⟨rfl,h⟩)⟩

theorem printsOver_return : PrintsOver (line ++ [.carriageReturn]) ↔ PrintsOver line := by
  refine exists_congr fun first => exists_congr fun second => ?_
  have hsnoc := sublist_snoc [Key.print first,.carriageReturn] line (.print second) .carriageReturn
  simpa using hsnoc

end Lines

/-! ### When appending is enough -/

section Compare

variable [DecidableEq α] {keys : List (Key α)}

/-- A key ends the last line or lengthens it. -/
theorem splitOn_snoc {front : List (List (Key α))} {last : List (Key α)} {key : Key α}
    (h : keys.splitOn .lineFeed = front ++ [last]) (hkey : key ≠ .lineFeed) :
    (keys ++ [key]).splitOn .lineFeed = front ++ [last ++ [key]] := by
  induction keys generalizing front last with
  | nil =>
    rw [List.splitOn_nil] at h
    have hsplit : [] ++ [[]] = front ++ [last] := h
    obtain ⟨rfl,hlast⟩ := List.append_inj' hsplit rfl
    obtain rfl : [] = last := by simpa using hlast
    exact List.splitOn_eq_singleton (by simpa using Ne.symm hkey)
  | cons first keys ih =>
    rw [List.splitOn_cons_eq_if_modifyHead] at h
    rw [List.cons_append,List.splitOn_cons_eq_if_modifyHead]
    split
    · next hfirst =>
      rw [if_pos hfirst] at h
      cases front with
      | nil => exact absurd (List.cons.inj h).2 (List.splitOn_ne_nil _ _)
      | cons line front =>
        obtain ⟨rfl,hrest⟩ := List.cons.inj h
        rw [ih hrest]
        rfl
    · next hfirst =>
      rw [if_neg hfirst] at h
      cases hkeys : keys.splitOn .lineFeed with
      | nil => exact absurd hkeys (List.splitOn_ne_nil _ _)
      | cons head tail =>
        rw [hkeys,List.modifyHead_cons] at h
        cases front with
        | nil =>
          obtain ⟨rfl,rfl⟩ := List.cons.inj h
          have hsnoc := ih (show keys.splitOn .lineFeed = [] ++ [head] from hkeys)
          rw [hsnoc]
          rfl
        | cons line front =>
          obtain ⟨rfl,rfl⟩ := List.cons.inj h
          have hsnoc := ih (show keys.splitOn .lineFeed = (head::front) ++ [last] from hkeys)
          rw [hsnoc]
          rfl

theorem splitOn_lineFeed (keys : List (Key α)) :
    (keys ++ [Key.lineFeed]).splitOn Key.lineFeed = keys.splitOn Key.lineFeed ++ [[]] := by
  rw [List.splitOn_append_cons_self,List.splitOn_nil]

/-- What the appended row says about the keys of its line, and how the two screens compare. -/
structure Comparison (keys : List (Key α)) (front : List (List (Key α))) (last : List (Key α)) : Prop where
  lines : keys.splitOn .lineFeed = front ++ [last]
  printed : Printed last ↔ 0 < (Screen.appended keys).row.cells.length
  returned : Returned last ↔ (Screen.appended keys).row.cursor < (Screen.appended keys).row.cells.length
  same : (∀ line ∈ front ++ [last], ¬PrintsOver line) → Screen.shown keys = Screen.appended keys
  smaller : (∃ line ∈ front ++ [last], PrintsOver line) → (Screen.shown keys).size < (Screen.appended keys).size

variable {front : List (List (Key α))} {last : List (Key α)}

theorem Comparison.lineFeed (h : Comparison keys front last) :
    Comparison (keys ++ [.lineFeed]) (front ++ [last]) [] where
  lines := by rw [splitOn_lineFeed,h.lines]
  printed := by simp [Printed,Screen.appended_snoc,Screen.press,Row.empty]
  returned := by simp [Returned,Screen.appended_snoc,Screen.press,Row.empty]
  same hclean := by
    have hsame := h.same fun line hline => hclean line (List.mem_append_left _ hline)
    rw [Screen.shown_snoc,Screen.appended_snoc,hsame]
    rfl
  smaller hover := by
    obtain ⟨line,hline,hover⟩ := hover
    have hline : line ∈ front ++ [last] := by
      rcases List.mem_append.mp hline with hline | hline
      · exact hline
      · obtain rfl := List.mem_singleton.mp hline
        simp [PrintsOver] at hover
    rw [Screen.shown_snoc,Screen.appended_snoc,Screen.size_lineFeed,Screen.size_lineFeed]
    exact h.smaller ⟨line,hline,hover⟩

theorem Comparison.carriageReturn (h : Comparison keys front last) :
    Comparison (keys ++ [.carriageReturn]) front (last ++ [.carriageReturn]) where
  lines := splitOn_snoc h.lines (by simp)
  printed := by
    rw [printed_return,h.printed,Screen.appended_snoc]
    rfl
  returned := by
    rw [returned_return,h.printed,Screen.appended_snoc]
    rfl
  same hclean := by
    have hsame := h.same fun line hline => ?_
    · rw [Screen.shown_snoc,Screen.appended_snoc,hsame]
      rfl
    · rcases List.mem_append.mp hline with hfront | hlast
      · exact hclean line (List.mem_append_left _ hfront)
      · obtain rfl := List.mem_singleton.mp hlast
        rw [← printsOver_return]
        exact hclean _ (by simp)
  smaller hover := by
    obtain ⟨line,hline,hover⟩ := hover
    rw [Screen.shown_snoc,Screen.appended_snoc]
    refine h.smaller ?_
    rcases List.mem_append.mp hline with hfront | hlast
    · exact ⟨line,List.mem_append_left _ hfront,hover⟩
    · obtain rfl := List.mem_singleton.mp hlast
      exact ⟨last,by simp,printsOver_return.mp hover⟩

theorem Comparison.print (h : Comparison keys front last) (cell : α) :
    Comparison (keys ++ [.print cell]) front (last ++ [.print cell]) where
  lines := splitOn_snoc h.lines (by simp)
  printed := by simp [printed_print,Screen.appended_snoc,Screen.press,Row.append]
  returned := by
    rw [returned_print,h.returned,Screen.appended_snoc]
    simp [Screen.press,Row.append]
  same hclean := by
    have hlast : ¬Returned last := fun hreturned =>
      hclean (last ++ [.print cell]) (by simp) (printsOver_print.mpr hreturned)
    have hsame := h.same fun line hline => ?_
    · have hend : (Screen.appended keys).row.cursor = (Screen.appended keys).row.cells.length := by
        have := (Screen.appended keys).row.inBounds
        rw [h.returned] at hlast
        omega
      rw [Screen.shown_snoc,Screen.appended_snoc,hsame,Screen.press,Row.put_eq_append hend]
      rfl
    · rcases List.mem_append.mp hline |>.imp_right List.mem_singleton.mp with hfront | rfl
      · exact hclean line (List.mem_append_left _ hfront)
      · exact fun hover => hlast hover.returned
  smaller hover := by
    have happended : (Screen.appended (keys ++ [.print cell])).size = (Screen.appended keys).size+1 := by
      simp [Screen.appended_snoc,Screen.press,Screen.size,Row.append,Nat.add_assoc]
    have hshown : (Screen.shown (keys ++ [.print cell])).size ≤ (Screen.shown keys).size+1 := by
      have hput := Row.length_put_le (Screen.shown keys).row cell
      rw [Screen.shown_snoc,Screen.press,Screen.size,Screen.size]
      dsimp only
      omega
    by_cases hbefore : ∃ line ∈ front ++ [last], PrintsOver line
    · have hsmaller := h.smaller hbefore
      omega
    · -- the screens agreed until now, and this cell was printed over another
      have hsame := h.same fun line hline hover => hbefore ⟨line,hline,hover⟩
      have hlast : Returned last := by
        obtain ⟨line,hline,hover⟩ := hover
        rcases List.mem_append.mp hline |>.imp_right List.mem_singleton.mp with hfront | rfl
        · exact absurd ⟨line,List.mem_append_left _ hfront,hover⟩ hbefore
        · exact printsOver_print.mp hover
      have hput := Row.length_put (h.returned.mp hlast) cell
      have hequal : (Screen.shown (keys ++ [.print cell])).size = (Screen.appended keys).size := by
        rw [Screen.shown_snoc,hsame,Screen.press,Screen.size,Screen.size]
        dsimp only
        omega
      omega

theorem comparison (keys : List (Key α)) : ∃ front last, Comparison keys front last := by
  induction keys using List.reverseRecOn with
  | nil =>
    refine ⟨[],[],List.splitOn_nil _,?_,?_,fun _ => rfl,?_⟩
    · simp [Printed,Screen.appended,Screen.blank,Row.empty]
    · simp [Returned,Screen.appended,Screen.blank,Row.empty]
    · simp [PrintsOver]
  | append_singleton keys key ih =>
    obtain ⟨front,last,h⟩ := ih
    cases key with
    | print cell => exact ⟨_,_,h.print cell⟩
    | carriageReturn => exact ⟨_,_,h.carriageReturn⟩
    | lineFeed => exact ⟨_,_,h.lineFeed⟩

/-- Once something was printed over, the screens differ for good. -/
theorem shown_eq_appended_iff (keys : List (Key α)) :
    Screen.shown keys = Screen.appended keys ↔ ∀ line ∈ keys.splitOn .lineFeed, ¬PrintsOver line := by
  obtain ⟨front,last,h⟩ := comparison keys
  rw [h.lines]
  refine ⟨fun hsame line hline hover => ?_,h.same⟩
  have hsmaller := h.smaller ⟨line,hline,hover⟩
  rw [hsame] at hsmaller
  exact lt_irrefl _ hsmaller

end Compare

end LineTerminal
end NodeRustPty
