import Mathlib

/-! `str::parse` of the standard library for `u32` and `i32`: an optional sign, then
decimal digits whose value fits. -/
namespace NodeRustPty
namespace StrParse

/-- The value of a nonempty text of decimal digits. -/
def digits (text : List Char) : Option ℕ :=
  if text ≠ [] ∧ text.all Char.isDigit then some (Nat.ofDigitChars 10 text 0) else none

def unsigned (bound : ℕ) (text : List Char) : Option ℕ :=
  (digits text).filter (· < bound)

def parseU32 (text : String) : Option UInt32 :=
  (match text.toList with
    | '+'::rest => unsigned (2^32) rest
    | chars => unsigned (2^32) chars).map UInt32.ofNat

def parseI32 (text : String) : Option Int32 :=
  match text.toList with
  | '-'::rest => (unsigned (2^31+1) rest).map fun value : ℕ => Int32.ofInt (-value)
  | '+'::rest => (unsigned (2^31) rest).map fun value : ℕ => Int32.ofInt value
  | chars => (unsigned (2^31) chars).map fun value : ℕ => Int32.ofInt value

theorem digits_repr (n : ℕ) : digits n.repr.toList = some n := by
  have hall : (Nat.toDigits 10 n).all Char.isDigit = true := by
    rw [List.all_eq_true]
    exact fun c hc => Nat.isDigit_of_mem_toDigits (by norm_num) (by norm_num) hc
  rw [Nat.toList_repr,digits,if_pos ⟨Nat.toDigits_ne_nil,hall⟩,Nat.ofDigitChars_ten_toDigits]

theorem unsigned_repr {n bound : ℕ} (h : n < bound) : unsigned bound n.repr.toList = some n := by
  rw [unsigned,digits_repr]
  simp [h]

theorem parseI32_repr {n : ℕ} (h : n < 2^31) : parseI32 n.repr = some (Int32.ofInt n) := by
  have hdigit : ∀ c ∈ n.repr.toList, c.isDigit := fun c hc =>
    Nat.isDigit_of_mem_toDigits (by norm_num) (by norm_num) (Nat.toList_repr ▸ hc)
  unfold parseI32
  split
  · next heq =>
    have := hdigit '-' (by simp [heq])
    simp [Char.isDigit] at this
  · next heq =>
    have := hdigit '+' (by simp [heq])
    simp [Char.isDigit] at this
  · rw [unsigned_repr h,Option.map_some]

theorem parseI32_neg_repr {n : ℕ} (h : n < 2^31+1) :
    parseI32 ("-" ++ n.repr) = some (Int32.ofInt (-n)) := by
  have htext : ("-" ++ n.repr).toList = '-'::n.repr.toList := by simp
  rw [parseI32,htext]
  simp only [unsigned_repr h,Option.map_some]

/-- Parsing undoes printing. -/
theorem parseI32_toString (n : Int32) : parseI32 (toString n.toInt) = some n := by
  have hlow := n.le_toInt
  have hhigh := n.toInt_lt
  cases hn : n.toInt with
  | ofNat k =>
    have hk : k < 2^31 := by simp at *; omega
    have htext : toString (Int.ofNat k) = k.repr := rfl
    rw [htext,parseI32_repr hk,← Int.ofNat_eq_natCast,← hn,Int32.ofInt_toInt]
  | negSucc k =>
    have hk : k+1 < 2^31+1 := by simp at *; omega
    have htext : toString (Int.negSucc k) = "-" ++ (k+1).repr := rfl
    have hneg : -((k+1 : ℕ) : ℤ) = n.toInt := by rw [hn]; rfl
    rw [htext,parseI32_neg_repr hk,hneg,Int32.ofInt_toInt]

theorem parseU32_of_head {text : String} (c : Char) (hc : c.isDigit = false) (hplus : c ≠ '+')
    (h : text.toList.head? = some c) : parseU32 text = none := by
  obtain ⟨rest,hrest⟩ : ∃ rest, text.toList = c::rest := by
    cases htext : text.toList with
    | nil => simp [htext] at h
    | cons d rest =>
      rw [htext,List.head?_cons,Option.some.injEq] at h
      exact ⟨rest,by rw [h]⟩
  have hdigits : unsigned (2^32) (c::rest) = none := by simp [unsigned,digits,hc]
  unfold parseU32
  rw [hrest]
  split
  · next heq => exact absurd (List.cons.inj heq).1 hplus
  · rw [hdigits,Option.map_none]

end StrParse
end NodeRustPty
