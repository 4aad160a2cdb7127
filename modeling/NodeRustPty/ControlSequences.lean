import Mathlib

/-! Control sequences of ECMA-48: ESC and an introducer, a private marker, parameters cut
into subparameters, intermediates and a final byte. -/
namespace NodeRustPty
namespace ControlSequences

def isParameter (byte : UInt8) : Bool := 0x30 ≤ byte && byte ≤ 0x3B

def isMarker (byte : UInt8) : Bool := 0x3C ≤ byte && byte ≤ 0x3F

def isIntermediate (byte : UInt8) : Bool := 0x20 ≤ byte && byte ≤ 0x2F

def isFinal (byte : UInt8) : Bool := 0x40 ≤ byte && byte ≤ 0x7E

structure Sequence where
  params : List (List UInt16)
  marker : Option UInt8
  intermediates : List UInt8
  final : UInt8
  deriving DecidableEq

/-- A sequence whose bytes stand where the grammar lets them stand. -/
structure Dispatched extends Sequence where
  params_nonempty : ∀ param ∈ params, param ≠ []
  marker_range : ∀ byte ∈ marker, isMarker byte = true
  intermediates_range : ∀ byte ∈ intermediates, isIntermediate byte = true
  final_range : isFinal final = true

/-! ### Decoding -/

/-- Digits add up to a value that stays at its maximum. -/
def addDigit (value : ℕ) (digit : UInt8) : ℕ := min 65535 (10*value+(digit.toNat-48))

/-- No digit at all is the value zero. -/
def parseValue (digits : List UInt8) : UInt16 := UInt16.ofNat (digits.foldl addDigit 0)

/-- Semicolons part the parameters, and colons the subparameters of one. -/
def parseParams (body : List UInt8) : List (List UInt16) :=
  (body.splitOn 0x3B).map fun param => (param.splitOn 0x3A).map parseValue

def decodeAfterMarker (marker : Option UInt8) (bytes : List UInt8) : Option Sequence :=
  let rest := bytes.dropWhile isParameter
  match rest.dropWhile isIntermediate with
  | [final] =>
    if isFinal final then
      some ⟨parseParams (bytes.takeWhile isParameter),marker,rest.takeWhile isIntermediate,final⟩
    else none
  | _ => none

def decode (introducer : UInt8) : List UInt8 → Option Sequence
  | 0x1B::second::bytes =>
    if second ≠ introducer then none
    else match bytes with
      | [] => none
      | byte::rest =>
        if isMarker byte then decodeAfterMarker (some byte) rest else decodeAfterMarker none bytes
  | _ => none

/-! ### Encoding -/

def decimal (n : ℕ) : List UInt8 := (Nat.toDigits 10 n).map fun c => UInt8.ofNat c.toNat

def renderParams (params : List (List UInt16)) : List UInt8 :=
  [0x3B].intercalate (params.map fun param => [0x3A].intercalate (param.map fun p => decimal p.toNat))

def encode (introducer : UInt8) (s : Sequence) : List UInt8 :=
  [0x1B,introducer] ++ s.marker.toList ++ renderParams s.params ++ s.intermediates ++ [s.final]

/-! ### Classes of bytes -/

theorem isParameter_iff {byte : UInt8} : isParameter byte = true ↔ 0x30 ≤ byte.toNat ∧ byte.toNat ≤ 0x3B := by
  simp [isParameter,UInt8.le_iff_toNat_le]

theorem isMarker_iff {byte : UInt8} : isMarker byte = true ↔ 0x3C ≤ byte.toNat ∧ byte.toNat ≤ 0x3F := by
  simp [isMarker,UInt8.le_iff_toNat_le]

theorem isIntermediate_iff {byte : UInt8} :
    isIntermediate byte = true ↔ 0x20 ≤ byte.toNat ∧ byte.toNat ≤ 0x2F := by
  simp [isIntermediate,UInt8.le_iff_toNat_le]

theorem isFinal_iff {byte : UInt8} : isFinal byte = true ↔ 0x40 ≤ byte.toNat ∧ byte.toNat ≤ 0x7E := by
  simp [isFinal,UInt8.le_iff_toNat_le]

/-- The byte after the parameters is none of them, nor a marker. -/
theorem not_isParameter_of_tail {intermediates : List UInt8} {final : UInt8}
    (hintermediates : ∀ byte ∈ intermediates, isIntermediate byte = true) (hfinal : isFinal final = true) :
    ∃ byte rest, intermediates ++ [final] = byte::rest ∧ isParameter byte = false ∧ isMarker byte = false := by
  cases intermediates with
  | nil =>
    have hrange := isFinal_iff.mp hfinal
    refine ⟨final,[],rfl,?_,?_⟩
    · rw [Bool.eq_false_iff,Ne,isParameter_iff]
      omega
    · rw [Bool.eq_false_iff,Ne,isMarker_iff]
      omega
  | cons byte rest =>
    have hrange := isIntermediate_iff.mp (hintermediates byte List.mem_cons_self)
    refine ⟨byte,rest ++ [final],rfl,?_,?_⟩
    · rw [Bool.eq_false_iff,Ne,isParameter_iff]
      omega
    · rw [Bool.eq_false_iff,Ne,isMarker_iff]
      omega

theorem not_isParameter_of_marker {byte : UInt8} (h : isMarker byte = true) : isParameter byte = false := by
  have hrange := isMarker_iff.mp h
  rw [Bool.eq_false_iff,Ne,isParameter_iff]
  omega

theorem not_isIntermediate_of_marker {byte : UInt8} (h : isMarker byte = true) : isIntermediate byte = false := by
  have hrange := isMarker_iff.mp h
  rw [Bool.eq_false_iff,Ne,isIntermediate_iff]
  omega

theorem not_isFinal_of_marker {byte : UInt8} (h : isMarker byte = true) : isFinal byte = false := by
  have hrange := isMarker_iff.mp h
  rw [Bool.eq_false_iff,Ne,isFinal_iff]
  omega

theorem not_isMarker_of_parameter {byte : UInt8} (h : isParameter byte = true) : isMarker byte = false := by
  rw [Bool.eq_false_iff]
  intro hmarker
  rw [not_isParameter_of_marker hmarker] at h
  exact Bool.false_ne_true h

theorem not_isIntermediate_of_final {byte : UInt8} (h : isFinal byte = true) : isIntermediate byte = false := by
  have hrange := isFinal_iff.mp h
  rw [Bool.eq_false_iff,Ne,isIntermediate_iff]
  omega

/-! ### What a sequence of the grammar decodes to -/

section Decode

variable {body intermediates : List UInt8} {marker : Option UInt8} {final : UInt8} (introducer : UInt8)

theorem takeWhile_append_stop {p : UInt8 → Bool} {front : List UInt8} {stop : UInt8} (back : List UInt8)
    (hfront : ∀ byte ∈ front, p byte = true) (hstop : p stop = false) :
    (front ++ stop::back).takeWhile p = front ∧ (front ++ stop::back).dropWhile p = stop::back := by
  constructor
  · rw [List.takeWhile_append_of_pos hfront,List.takeWhile_cons_of_neg (by simp [hstop]),List.append_nil]
  · rw [List.dropWhile_append_of_pos hfront,List.dropWhile_cons_of_neg (by simp [hstop])]

theorem decodeAfterMarker_sequence (hbody : ∀ byte ∈ body, isParameter byte = true)
    (hintermediates : ∀ byte ∈ intermediates, isIntermediate byte = true) (hfinal : isFinal final = true) :
    decodeAfterMarker marker (body ++ intermediates ++ [final]) =
      some ⟨parseParams body,marker,intermediates,final⟩ := by
  obtain ⟨byte,rest,htail,hbyte,-⟩ := not_isParameter_of_tail hintermediates hfinal
  obtain ⟨htake,hdrop⟩ := takeWhile_append_stop rest hbody hbyte
  obtain ⟨htake',hdrop'⟩ := takeWhile_append_stop [] hintermediates (not_isIntermediate_of_final hfinal)
  rw [List.append_assoc,decodeAfterMarker]
  simp only [htail,htake,hdrop]
  simp only [← htail,htake',hdrop',hfinal,if_true]

/-- A marker after the parameters is out of place. -/
theorem decodeAfterMarker_of_marker {byte : UInt8} {rest : List UInt8} (hbody : ∀ byte ∈ body, isParameter byte = true)
    (hbyte : isMarker byte = true) : decodeAfterMarker marker (body ++ byte::rest) = none := by
  obtain ⟨-,hdrop⟩ := takeWhile_append_stop rest hbody (not_isParameter_of_marker hbyte)
  have hrest : (byte::rest).dropWhile isIntermediate = byte::rest :=
    List.dropWhile_cons_of_neg (by simp [not_isIntermediate_of_marker hbyte])
  rw [decodeAfterMarker]
  simp only [hdrop,hrest]
  cases rest with
  | nil => simp [not_isFinal_of_marker hbyte]
  | cons _ _ => rfl

theorem decode_marked {byte : UInt8} {bytes : List UInt8} (h : isMarker byte = true) :
    decode introducer (0x1B::introducer::byte::bytes) = decodeAfterMarker (some byte) bytes := by
  simp [decode,h]

theorem decode_unmarked {byte : UInt8} {bytes : List UInt8} (h : isMarker byte = false) :
    decode introducer (0x1B::introducer::byte::bytes) = decodeAfterMarker none (byte::bytes) := by
  simp [decode,h]

theorem decode_sequence (marker : Option UInt8) (body : List UInt8) (hmarker : ∀ byte ∈ marker, isMarker byte = true)
    (hbody : ∀ byte ∈ body, isParameter byte = true)
    (hintermediates : ∀ byte ∈ intermediates, isIntermediate byte = true) (hfinal : isFinal final = true) :
    decode introducer (0x1B::introducer::(marker.toList ++ body ++ intermediates ++ [final])) =
      some ⟨parseParams body,marker,intermediates,final⟩ := by
  rw [← decodeAfterMarker_sequence hbody hintermediates hfinal]
  cases marker with
  | some byte => exact decode_marked introducer (hmarker byte rfl)
  | none =>
    -- the first byte that follows is a parameter or what stands after them
    rw [Option.toList_none,List.nil_append]
    cases body with
    | nil =>
      obtain ⟨byte,rest,htail,-,hbyte⟩ := not_isParameter_of_tail hintermediates hfinal
      rw [List.nil_append,htail]
      exact decode_unmarked introducer hbyte
    | cons byte rest => exact decode_unmarked introducer (not_isMarker_of_parameter (hbody byte List.mem_cons_self))

end Decode

/-! ### Decimal values -/

theorem toNat_digit {c : Char} (h : c.isDigit = true) :
    (UInt8.ofNat c.toNat).toNat = c.toNat ∧ 0x30 ≤ c.toNat ∧ c.toNat ≤ 0x39 := by
  simp only [Char.isDigit,Bool.and_eq_true,decide_eq_true_eq,UInt32.le_iff_toNat_le] at h
  have hlow : 48 ≤ c.toNat := h.1
  have hhigh : c.toNat ≤ 57 := h.2
  have hsize : c.toNat < 256 := by omega
  exact ⟨UInt8.toNat_ofNat_of_lt' hsize,hlow,hhigh⟩

theorem mem_decimal {n : ℕ} {byte : UInt8} (h : byte ∈ decimal n) : 0x30 ≤ byte.toNat ∧ byte.toNat ≤ 0x39 := by
  obtain ⟨c,hc,rfl⟩ := List.mem_map.mp h
  obtain ⟨hbyte,hrange⟩ := toNat_digit (Nat.isDigit_of_mem_toDigits (by norm_num) (by norm_num) hc)
  rw [hbyte]
  exact hrange

theorem decimal_ne_nil (n : ℕ) : decimal n ≠ [] := by simp [decimal,Nat.toDigits_ne_nil]

/-- The maximum is reached by the last step or by none. -/
theorem foldl_addDigit (digits : List Char) (hdigits : ∀ c ∈ digits, c.isDigit = true) (value : ℕ) :
    (digits.map fun c => UInt8.ofNat c.toNat).foldl addDigit (min 65535 value) =
      min 65535 (Nat.ofDigitChars 10 digits value) := by
  induction digits generalizing value with
  | nil => rfl
  | cons c digits ih =>
    obtain ⟨hbyte,-,-⟩ := toNat_digit (hdigits c List.mem_cons_self)
    have hstep : addDigit (min 65535 value) (UInt8.ofNat c.toNat) = min 65535 (10*value+(c.toNat-48)) := by
      rw [addDigit,hbyte]
      omega
    rw [List.map_cons,List.foldl_cons,hstep,ih fun c hc => hdigits c (List.mem_cons_of_mem _ hc),
      Nat.ofDigitChars_cons]
    rfl

theorem parseValue_decimal (n : UInt16) : parseValue (decimal n.toNat) = n := by
  have hdigits : ∀ c ∈ Nat.toDigits 10 n.toNat, c.isDigit = true := fun c hc =>
    Nat.isDigit_of_mem_toDigits (by norm_num) (by norm_num) hc
  have hfold := foldl_addDigit _ hdigits 0
  rw [Nat.ofDigitChars_ten_toDigits] at hfold
  have hn : n.toNat < 65536 := n.toNat_lt
  have hmin : min 65535 n.toNat = n.toNat := by omega
  rw [parseValue,decimal,show (0 : ℕ) = min 65535 0 from rfl,hfold,hmin,UInt16.ofNat_toNat]

/-! ### Decoding undoes encoding -/

theorem parseParams_intercalate {params : List (List UInt8)} (hne : params ≠ [])
    (hparams : ∀ param ∈ params, (0x3B : UInt8) ∉ param) :
    parseParams ([0x3B].intercalate params) = params.map fun param => (param.splitOn 0x3A).map parseValue := by
  rw [parseParams,List.splitOn_intercalate _ hparams hne]

theorem mem_intercalate {separator : UInt8} {pieces : List (List UInt8)} {byte : UInt8}
    (h : byte ∈ [separator].intercalate pieces) : byte = separator ∨ ∃ piece ∈ pieces, byte ∈ piece := by
  induction pieces with
  | nil => simp at h
  | cons piece pieces ih =>
    cases pieces with
    | nil =>
      rw [List.intercalate_singleton] at h
      exact .inr ⟨piece,List.mem_cons_self,h⟩
    | cons next pieces =>
      rw [List.intercalate_cons_cons,List.mem_append,List.mem_append,List.mem_singleton] at h
      rcases h with (hpiece | rfl) | hrest
      · exact .inr ⟨piece,List.mem_cons_self,hpiece⟩
      · exact .inl rfl
      · rcases ih hrest with rfl | ⟨other,hother,hbyte⟩
        · exact .inl rfl
        · exact .inr ⟨other,List.mem_cons_of_mem _ hother,hbyte⟩

/-- The text of one parameter: digits and colons. -/
theorem mem_renderParam {param : List UInt16} {byte : UInt8}
    (h : byte ∈ [0x3A].intercalate (param.map fun p => decimal p.toNat)) :
    0x30 ≤ byte.toNat ∧ byte.toNat ≤ 0x3A := by
  rcases mem_intercalate h with rfl | ⟨piece,hpiece,hbyte⟩
  · decide
  · obtain ⟨p,-,rfl⟩ := List.mem_map.mp hpiece
    have hrange := mem_decimal hbyte
    omega

theorem isParameter_of_mem_renderParams {params : List (List UInt16)} {byte : UInt8}
    (h : byte ∈ renderParams params) : isParameter byte = true := by
  rcases mem_intercalate h with rfl | ⟨piece,hpiece,hbyte⟩
  · decide
  · obtain ⟨param,-,rfl⟩ := List.mem_map.mp hpiece
    have hrange := mem_renderParam hbyte
    exact isParameter_iff.mpr (by omega)

theorem parseParams_renderParams {params : List (List UInt16)} (hne : params ≠ [])
    (hparams : ∀ param ∈ params, param ≠ []) : parseParams (renderParams params) = params := by
  rw [renderParams,parseParams_intercalate (by simpa using hne),List.map_map]
  · refine (List.map_congr_left fun param hparam => ?_).trans (List.map_id _)
    have hdecimals : ∀ piece ∈ param.map fun p => decimal p.toNat, (0x3A : UInt8) ∉ piece := by
      intro piece hpiece hbyte
      obtain ⟨p,-,rfl⟩ := List.mem_map.mp hpiece
      have hrange := mem_decimal hbyte
      exact absurd hrange (by decide)
    rw [Function.comp_apply,List.splitOn_intercalate _ hdecimals (by simpa using hparams param hparam),List.map_map]
    exact (List.map_congr_left fun p _ => parseValue_decimal p).trans (List.map_id _)
  · intro piece hpiece hbyte
    obtain ⟨param,-,rfl⟩ := List.mem_map.mp hpiece
    exact absurd (mem_renderParam hbyte) (by decide)

/-- A sequence with a parameter is read back as it was written. -/
theorem decode_encode (introducer : UInt8) (d : Dispatched) (hne : d.params ≠ []) :
    decode introducer (encode introducer d.toSequence) = some d.toSequence := by
  have h := decode_sequence introducer d.marker (renderParams d.params) d.marker_range
    (fun _ hbyte => isParameter_of_mem_renderParams hbyte) d.intermediates_range d.final_range
  rw [parseParams_renderParams hne d.params_nonempty] at h
  exact h

/-- Without any text of parameters there is one, with the value zero. -/
theorem parseParams_nil : parseParams [] = [[0]] := by decide

end ControlSequences
end NodeRustPty
