import NodeRustPty.Utf8

/-! The encoding that `from_utf8_lossy` decodes, and what cutting an encoded text into
pieces does to it: every piece decodes to at least one character for each first byte, and to more
when it starts inside a character. -/
namespace NodeRustPty
namespace Utf8

/-- The bytes of a text. -/
def encode (text : List Char) : Bytes := text.flatMap String.utf8EncodeChar

@[simp] theorem encode_nil : encode [] = [] := rfl

theorem encode_cons (c : Char) (text : List Char) : encode (c::text) = String.utf8EncodeChar c ++ encode text := rfl

theorem encode_append (first second : List Char) : encode (first ++ second) = encode first ++ encode second :=
  List.flatMap_append

theorem toList_loop (data : ByteArray) (i : ℕ) (done : List UInt8) :
    ByteArray.toList.loop data i done = done.reverse ++ data.data.toList.drop i := by
  generalize hn : data.size-i = n
  induction n generalizing i done with
  | zero =>
    have hi : data.data.toList.length ≤ i := by
      rw [Array.length_toList]
      exact Nat.sub_eq_zero_iff_le.mp hn
    rw [ByteArray.toList.loop,if_neg (by omega),List.drop_eq_nil_of_le hi,List.append_nil]
  | succ n ih =>
    have hi : i < data.size := by omega
    have hi' : i < data.data.toList.length := by
      rw [Array.length_toList]
      exact hi
    have hget : data.get! i = data.data.toList[i] := getElem!_pos data.data i hi
    rw [ByteArray.toList.loop,if_pos hi,ih _ _ (by omega),List.drop_eq_getElem_cons hi',List.reverse_cons,
      List.append_assoc,List.singleton_append,hget]

theorem toUTF8_toList (text : String) : text.toUTF8.toList = encode text.toList := by
  have hloop := toList_loop text.toUTF8 0 []
  have hbytes : text.toList.utf8Encode.data.toList = encode text.toList := List.toList_data_toByteArray
  rw [String.utf8Encode_toList] at hbytes
  exact hloop.trans hbytes

/-! ### One character -/

theorem continuation_iff (byte : UInt8) : continuation byte = true ↔ 128 ≤ byte.toNat ∧ byte.toNat ≤ 191 := by
  simp [continuation,UInt8.le_iff_toNat_le]

theorem toNat_ofNat {n : ℕ} (h : n < 256) : (UInt8.ofNat n).toNat = n := UInt8.toNat_ofNat_of_lt' h

/-- A character of ASCII is its own byte. -/
theorem encodeChar_ascii {c : Char} (h : c.toNat < 128) : String.utf8EncodeChar c = [UInt8.ofNat c.toNat] := by
  have hle : c.toNat ≤ 127 := by omega
  have hsize : c.utf8Size = 1 := Char.utf8Size_eq_one_iff.mpr (UInt32.le_iff_toNat_le.mpr hle)
  exact String.utf8EncodeChar_eq_singleton hsize

theorem length_encodeChar_pos (c : Char) : 0 < (String.utf8EncodeChar c).length := by
  rw [String.length_utf8EncodeChar]
  exact c.utf8Size_pos

theorem toNat_lt_of_length_eq_one {c : Char} (h : (String.utf8EncodeChar c).length = 1) : c.toNat < 128 := by
  rw [String.length_utf8EncodeChar,Char.utf8Size_eq_one_iff,UInt32.le_iff_toNat_le] at h
  exact Nat.lt_succ_of_le h

/-- One byte for each character is enough for ASCII only. -/
theorem map_ofNat_eq_encode_iff (text : List Char) :
    (text.map fun c => UInt8.ofNat c.toNat) = encode text ↔ ∀ c ∈ text, c.toNat < 128 := by
  have hlength (text : List Char) : text.length ≤ (encode text).length := by
    induction text with
    | nil => exact le_rfl
    | cons c text ih =>
      have hpos := length_encodeChar_pos c
      rw [encode_cons,List.length_append,List.length_cons]
      omega
  induction text with
  | nil => simp
  | cons c text ih =>
    rw [List.forall_mem_cons]
    refine Iff.trans ?_ (and_congr_right fun _ => ih)
    constructor
    · intro h
      have hsize := congrArg List.length h
      have hrest := hlength text
      have hpos := length_encodeChar_pos c
      rw [encode_cons,List.length_append,List.length_map,List.length_cons] at hsize
      have hc := toNat_lt_of_length_eq_one (c := c) (by omega)
      rw [encode_cons,encodeChar_ascii hc] at h
      exact ⟨hc,List.tail_eq_of_cons_eq h⟩
    · rintro ⟨hc,htext⟩
      rw [List.map_cons,htext,encode_cons,encodeChar_ascii hc,List.singleton_append]

variable {first second third fourth : UInt8} {rest : Bytes}

theorem decodeFirst_one (h : first.toNat < 128) : decodeFirst first rest = (Char.ofNat first.toNat,0) := by
  unfold decodeFirst
  exact if_pos (UInt8.lt_iff_toNat_lt.mpr h)

theorem decodeFirst_two (hlow : 194 ≤ first.toNat) (hhigh : first.toNat ≤ 223) (hsecond : continuation second = true) :
    decodeFirst first (second::rest) = (Char.ofNat (bits first 32 6+bits second 64 0),1) := by
  unfold decodeFirst
  rw [if_neg (by rw [UInt8.lt_iff_toNat_lt]; simp; omega),
    if_pos (by simp [UInt8.le_iff_toNat_le]; omega)]
  simp [hsecond]

theorem decodeFirst_three (hlow : 224 ≤ first.toNat) (hhigh : first.toNat ≤ 239)
    (hsecond : secondOfThree first second = true) (hthird : continuation third = true) :
    decodeFirst first (second::third::rest) =
      (Char.ofNat (bits first 16 12+bits second 64 6+bits third 64 0),2) := by
  unfold decodeFirst
  rw [if_neg (by rw [UInt8.lt_iff_toNat_lt]; simp; omega),
    if_neg (by simp [UInt8.le_iff_toNat_le]; omega),if_pos (by simp [UInt8.le_iff_toNat_le]; omega)]
  simp [hsecond,hthird]

theorem decodeFirst_four (hlow : 240 ≤ first.toNat) (hhigh : first.toNat ≤ 244)
    (hsecond : secondOfFour first second = true) (hthird : continuation third = true)
    (hfourth : continuation fourth = true) :
    decodeFirst first (second::third::fourth::rest) =
      (Char.ofNat (bits first 8 18+bits second 64 12+bits third 64 6+bits fourth 64 0),3) := by
  unfold decodeFirst
  rw [if_neg (by rw [UInt8.lt_iff_toNat_lt]; simp; omega),
    if_neg (by simp [UInt8.le_iff_toNat_le]; omega),if_neg (by simp [UInt8.le_iff_toNat_le]; omega),
    if_pos (by simp [UInt8.le_iff_toNat_le]; omega)]
  simp [hsecond,hthird,hfourth]

theorem continuation_ofNat (v : ℕ) : continuation (UInt8.ofNat (v%64+128)) = true := by
  rw [continuation_iff,toNat_ofNat (by omega)]
  omega

theorem bits_ofNat (v : ℕ) : bits (UInt8.ofNat (v%64+128)) 64 0 = v%64 := by
  rw [bits,toNat_ofNat (by omega)]
  omega

theorem secondOfThree_of (hsecond : continuation second = true) (hlow : first.toNat = 224 → 160 ≤ second.toNat)
    (hhigh : first.toNat = 237 → second.toNat ≤ 159) : secondOfThree first second = true := by
  rw [continuation_iff] at hsecond
  unfold secondOfThree
  split
  · next h =>
    subst h
    simpa [UInt8.le_iff_toNat_le] using ⟨hlow rfl,hsecond.2⟩
  split
  · next h =>
    subst h
    simpa [UInt8.le_iff_toNat_le] using ⟨hsecond.1,hhigh rfl⟩
  · exact (continuation_iff second).mpr hsecond

theorem secondOfFour_of (hsecond : continuation second = true) (hlow : first.toNat = 240 → 144 ≤ second.toNat)
    (hhigh : first.toNat = 244 → second.toNat ≤ 143) : secondOfFour first second = true := by
  rw [continuation_iff] at hsecond
  unfold secondOfFour
  split
  · next h =>
    subst h
    simpa [UInt8.le_iff_toNat_le] using ⟨hlow rfl,hsecond.2⟩
  split
  · next h =>
    subst h
    simpa [UInt8.le_iff_toNat_le] using ⟨hsecond.1,hhigh rfl⟩
  · exact (continuation_iff second).mpr hsecond

/-- What the encoding of a character starts with is decoded to it. -/
theorem decodeFirst_encode (c : Char) (rest : Bytes) : ∃ first tail, String.utf8EncodeChar c = first::tail ∧
    decodeFirst first (tail ++ rest) = (c,tail.length) := by
  have hc : Char.ofNat c.toNat = c := Char.ofNat_toNat c
  have hvalid : c.toNat < 0xD800 ∨ 0xDFFF < c.toNat ∧ c.toNat < 0x110000 := c.valid
  have hv : c.val.toNat = c.toNat := rfl
  unfold String.utf8EncodeChar
  rw [hv]
  generalize c.toNat = v at hc hvalid
  subst hc
  by_cases h1 : v ≤ 0x7f
  · refine ⟨_,_,if_pos h1,?_⟩
    rw [decodeFirst_one (by rw [toNat_ofNat (by omega)]; omega),toNat_ofNat (by omega)]
    rfl
  by_cases h2 : v ≤ 0x7ff
  · refine ⟨_,_,(if_neg h1).trans (if_pos h2),?_⟩
    have hfirst : (UInt8.ofNat (v/64%0x20+0xc0)).toNat = v/64+192 := by rw [toNat_ofNat (by omega)]; omega
    rw [List.cons_append,decodeFirst_two (by omega) (by omega) (continuation_ofNat v),bits_ofNat]
    have hbits : bits (UInt8.ofNat (v/64%0x20+0xc0)) 32 6 = v/64*64 := by rw [bits,hfirst]; omega
    rw [hbits,Nat.div_add_mod']
    rfl
  by_cases h3 : v ≤ 0xffff
  · refine ⟨_,_,(if_neg h1).trans ((if_neg h2).trans (if_pos h3)),?_⟩
    have hfirst : (UInt8.ofNat (v/4096%0x10+0xe0)).toNat = v/4096+224 := by rw [toNat_ofNat (by omega)]; omega
    have hsecond : (UInt8.ofNat (v/64%0x40+0x80)).toNat = v/64%64+128 := toNat_ofNat (by omega)
    have hthree : secondOfThree (UInt8.ofNat (v/4096%0x10+0xe0)) (UInt8.ofNat (v/64%0x40+0x80)) = true :=
      secondOfThree_of (continuation_ofNat (v/64)) (by rw [hfirst,hsecond]; omega) (by rw [hfirst,hsecond]; omega)
    rw [List.cons_append,List.cons_append,decodeFirst_three (by omega) (by omega) hthree (continuation_ofNat v),
      bits_ofNat]
    have hbits1 : bits (UInt8.ofNat (v/4096%0x10+0xe0)) 16 12 = v/4096*4096 := by rw [bits,hfirst]; omega
    have hbits2 : bits (UInt8.ofNat (v/64%0x40+0x80)) 64 6 = v/64%64*64 := by rw [bits,hsecond]; omega
    have hsum : v/4096*4096+v/64%64*64+v%64 = v := by omega
    rw [hbits1,hbits2,hsum]
    rfl
  · refine ⟨_,_,(if_neg h1).trans ((if_neg h2).trans (if_neg h3)),?_⟩
    have hfirst : (UInt8.ofNat (v/262144%0x08+0xf0)).toNat = v/262144+240 := by rw [toNat_ofNat (by omega)]; omega
    have hsecond : (UInt8.ofNat (v/4096%0x40+0x80)).toNat = v/4096%64+128 := toNat_ofNat (by omega)
    have hthird : (UInt8.ofNat (v/64%0x40+0x80)).toNat = v/64%64+128 := toNat_ofNat (by omega)
    have hfour : secondOfFour (UInt8.ofNat (v/262144%0x08+0xf0)) (UInt8.ofNat (v/4096%0x40+0x80)) = true :=
      secondOfFour_of (continuation_ofNat (v/4096)) (by rw [hfirst,hsecond]; omega) (by rw [hfirst,hsecond]; omega)
    rw [List.cons_append,List.cons_append,List.cons_append,decodeFirst_four (by omega) (by omega) hfour
      (continuation_ofNat (v/64)) (continuation_ofNat v),bits_ofNat]
    have hbits1 : bits (UInt8.ofNat (v/262144%0x08+0xf0)) 8 18 = v/262144*262144 := by rw [bits,hfirst]; omega
    have hbits2 : bits (UInt8.ofNat (v/4096%0x40+0x80)) 64 12 = v/4096%64*4096 := by rw [bits,hsecond]; omega
    have hbits3 : bits (UInt8.ofNat (v/64%0x40+0x80)) 64 6 = v/64%64*64 := by rw [bits,hthird]; omega
    have hsum : v/262144*262144+v/4096%64*4096+v/64%64*64+v%64 = v := by omega
    rw [hbits1,hbits2,hbits3,hsum]
    rfl

/-! ### Texts -/

theorem decodeFrom_eq_drop (skip : ℕ) (data : Bytes) : decodeFrom skip data = decodeFrom 0 (data.drop skip) := by
  induction data generalizing skip with
  | nil => cases skip <;> rfl
  | cons byte data ih =>
    cases skip with
    | zero => rfl
    | succ skip => exact ih skip

theorem decodeFrom_cons (first : UInt8) (rest : Bytes) : decodeFrom 0 (first::rest) =
    (decodeFirst first rest).1::decodeFrom 0 (rest.drop (decodeFirst first rest).2) := by
  rw [decodeFrom,decodeFrom_eq_drop]

theorem decodeFrom_encode_append (text : List Char) (rest : Bytes) :
    decodeFrom 0 (encode text ++ rest) = text ++ decodeFrom 0 rest := by
  induction text with
  | nil => rfl
  | cons c text ih =>
    obtain ⟨first,tail,hbytes,hdecode⟩ := decodeFirst_encode c (encode text ++ rest)
    rw [encode_cons,hbytes,List.append_assoc,List.cons_append,decodeFrom_cons,hdecode,List.drop_left,ih,
      List.cons_append]

theorem decodeFrom_encode (text : List Char) : decodeFrom 0 (encode text) = text := by
  have h := decodeFrom_encode_append text []
  rw [List.append_nil] at h
  exact h.trans (List.append_nil text)

/-! ### Pieces of a text -/

theorem continuation_of_secondOfThree (h : secondOfThree first second = true) : continuation second = true := by
  rw [continuation_iff]
  unfold secondOfThree at h
  split at h
  · simp [UInt8.le_iff_toNat_le] at h
    omega
  split at h
  · simp [UInt8.le_iff_toNat_le] at h
    omega
  · exact (continuation_iff second).mp h

theorem continuation_of_secondOfFour (h : secondOfFour first second = true) : continuation second = true := by
  rw [continuation_iff]
  unfold secondOfFour at h
  split at h
  · simp [UInt8.le_iff_toNat_le] at h
    omega
  split at h
  · simp [UInt8.le_iff_toNat_le] at h
    omega
  · exact (continuation_iff second).mp h

/-- The bytes that belong to a character after its first one are continuation bytes. -/
theorem continuation_of_mem_take (first : UInt8) (rest : Bytes) :
    ∀ byte ∈ rest.take (decodeFirst first rest).2, continuation byte = true := by
  unfold decodeFirst
  split
  · simp
  split
  · cases rest with
    | nil => simp
    | cons second rest =>
      by_cases h : continuation second = true
      · simp [h]
      · simp [h]
  split
  · cases rest with
    | nil => simp
    | cons second rest =>
      by_cases hsecond : secondOfThree first second = true
      · have hcont := continuation_of_secondOfThree hsecond
        cases rest with
        | nil => simp [hsecond,hcont]
        | cons third rest =>
          by_cases hthird : continuation third = true
          · simp [hsecond,hcont,hthird]
          · simp [hsecond,hcont,hthird]
      · simp [hsecond]
  split
  · cases rest with
    | nil => simp
    | cons second rest =>
      by_cases hsecond : secondOfFour first second = true
      · have hcont := continuation_of_secondOfFour hsecond
        cases rest with
        | nil => simp [hsecond,hcont]
        | cons third rest =>
          by_cases hthird : continuation third = true
          · cases rest with
            | nil => simp [hsecond,hcont,hthird]
            | cons fourth rest =>
              by_cases hfourth : continuation fourth = true
              · simp [hsecond,hcont,hthird,hfourth]
              · simp [hsecond,hcont,hthird,hfourth]
          · simp [hsecond,hcont,hthird]
      · simp [hsecond]
  · simp

theorem decodeFirst_continuation (h : continuation first = true) (rest : Bytes) :
    decodeFirst first rest = (replacement,0) := by
  rw [continuation_iff] at h
  unfold decodeFirst
  rw [if_neg (by rw [UInt8.lt_iff_toNat_lt]; simp; omega),
    if_neg (by simp [UInt8.le_iff_toNat_le]; omega),if_neg (by simp [UInt8.le_iff_toNat_le]; omega),
    if_neg (by simp [UInt8.le_iff_toNat_le]; omega)]

/-- An encoded character is a first byte and continuation bytes. -/
theorem encodeChar_shape (c : Char) : ∃ first tail, String.utf8EncodeChar c = first::tail ∧
    continuation first = false ∧ ∀ byte ∈ tail, continuation byte = true := by
  obtain ⟨first,tail,hbytes,hdecode⟩ := decodeFirst_encode c []
  rw [List.append_nil] at hdecode
  have htail := continuation_of_mem_take first tail
  rw [hdecode,List.take_length] at htail
  refine ⟨first,tail,hbytes,?_,htail⟩
  by_contra hfirst
  rw [Bool.not_eq_false] at hfirst
  rw [decodeFirst_continuation hfirst] at hdecode
  obtain ⟨rfl,hlength⟩ := Prod.mk.inj hdecode
  have hthree : (String.utf8EncodeChar replacement).length = 3 := by decide
  rw [hbytes,List.length_cons,← hlength] at hthree
  exact absurd hthree (by decide)

/-- How many characters start in a piece. -/
def starts (data : Bytes) : ℕ := data.countP fun byte => !continuation byte

theorem starts_append (first second : Bytes) : starts (first ++ second) = starts first+starts second :=
  List.countP_append

theorem starts_eq_zero {data : Bytes} (h : ∀ byte ∈ data, continuation byte = true) : starts data = 0 := by
  rw [starts,List.countP_eq_zero]
  intro byte hbyte
  simp [h byte hbyte]

theorem starts_encode (text : List Char) : starts (encode text) = text.length := by
  induction text with
  | nil => rfl
  | cons c text ih =>
    obtain ⟨first,tail,hbytes,hfirst,htail⟩ := encodeChar_shape c
    have hone : starts (first::tail) = 1 := by
      have h := starts_eq_zero htail
      rw [starts] at h
      rw [starts,List.countP_cons,h]
      simp [hfirst]
    rw [encode_cons,hbytes,starts_append,hone,ih,List.length_cons]
    omega

/-- A piece starts inside a character. -/
def startsInside (data : Bytes) : Bool := data.head?.any continuation

/-- Every piece decodes to a character for each one that starts in it, and to one more at least
when it starts inside a character. -/
theorem starts_le_decodeFrom (data : Bytes) :
    starts data+(startsInside data).toNat ≤ (decodeFrom 0 data).length := by
  generalize hn : data.length = n
  induction n using Nat.strongRecOn generalizing data with
  | ind n ih =>
    cases data with
    | nil => simp [starts,startsInside]
    | cons first rest =>
      rw [decodeFrom_cons,List.length_cons]
      have hrest := ih _ (by rw [← hn]; simp) (rest.drop (decodeFirst first rest).2) rfl
      have hsplit := starts_append (rest.take (decodeFirst first rest).2) (rest.drop (decodeFirst first rest).2)
      rw [List.take_append_drop,starts_eq_zero (continuation_of_mem_take first rest)] at hsplit
      have hfirst : starts (first::rest)+(startsInside (first::rest)).toNat = starts rest+1 := by
        rw [starts,List.countP_cons,startsInside]
        cases h : continuation first <;> simp [h,starts]
      omega

theorem startsInside_append {piece : Bytes} (h : piece ≠ []) (rest : Bytes) :
    startsInside (piece ++ rest) = startsInside piece := by
  cases piece with
  | nil => exact absurd rfl h
  | cons byte piece => rfl

theorem startsInside_flatten {pieces : List Bytes} (h : ∀ piece ∈ pieces, startsInside piece = false) :
    startsInside pieces.flatten = false := by
  induction pieces with
  | nil => rfl
  | cons piece pieces ih =>
    have hrest := ih fun other hother => h other (List.mem_cons_of_mem _ hother)
    by_cases hp : piece = []
    · rw [hp,List.flatten_cons,List.nil_append]
      exact hrest
    · rw [List.flatten_cons,startsInside_append hp]
      exact h piece List.mem_cons_self

theorem startsInside_encode (text : List Char) : startsInside (encode text) = false := by
  cases text with
  | nil => rfl
  | cons c text =>
    obtain ⟨first,tail,hbytes,hfirst,-⟩ := encodeChar_shape c
    rw [encode_cons,hbytes]
    simp [startsInside,hfirst]

/-- A cut that is not inside a character cuts the text. -/
theorem exists_of_encode_eq_append {text : List Char} {piece rest : Bytes} (h : encode text = piece ++ rest)
    (hrest : startsInside rest = false) : ∃ first second, text = first ++ second ∧ piece = encode first ∧
      rest = encode second := by
  induction text generalizing piece with
  | nil =>
    obtain ⟨rfl,rfl⟩ := List.append_eq_nil_iff.mp h.symm
    exact ⟨[],[],rfl,rfl,rfl⟩
  | cons c text ih =>
    rw [encode_cons] at h
    rcases List.append_eq_append_iff.mp h with ⟨more,hpiece,htext⟩ | ⟨more,hchar,hrest'⟩
    · obtain ⟨first,second,rfl,rfl,rfl⟩ := ih htext
      exact ⟨c::first,second,rfl,hpiece,rfl⟩
    · obtain ⟨byte,tail,hbytes,-,htail⟩ := encodeChar_shape c
      cases more with
      | nil =>
        rw [List.append_nil] at hchar
        exact ⟨[c],text,rfl,by rw [← hchar]; simp [encode],hrest'⟩
      | cons inner more =>
        cases piece with
        | nil => exact ⟨[],c::text,rfl,rfl,by rw [hrest',encode_cons,hchar]; rfl⟩
        | cons outer piece =>
          rw [hbytes,List.cons_append] at hchar
          have hinner : inner ∈ tail := by
            rw [(List.cons.inj hchar).2]
            simp
          rw [hrest'] at hrest
          simp [startsInside,htail inner hinner] at hrest

theorem exists_of_encode_eq_encode_append {text first : List Char} {rest : Bytes}
    (h : encode text = encode first ++ rest) : ∃ second, rest = encode second := by
  have htext := congrArg (decodeFrom 0) h
  rw [decodeFrom_encode,decodeFrom_encode_append] at htext
  rw [htext,encode_append] at h
  exact ⟨_,(List.append_cancel_left h).symm⟩

section Pieces

variable {text : List Char} {pieces : List Bytes}

theorem starts_le_flatMap (pieces : List Bytes) :
    starts pieces.flatten+pieces.countP startsInside ≤ (pieces.flatMap (decodeFrom 0)).length := by
  induction pieces with
  | nil => simp [starts]
  | cons piece pieces ih =>
    have hpiece := starts_le_decodeFrom piece
    rw [List.flatten_cons,starts_append,List.flatMap_cons,List.length_append,List.countP_cons]
    have hinside : (if startsInside piece = true then 1 else 0) = (startsInside piece).toNat := by
      cases startsInside piece <;> rfl
    omega

/-- Decoding a text piece by piece gives the text exactly when no piece starts inside a
character. -/
theorem flatMap_decodeFrom_iff (h : pieces.flatten = encode text) :
    pieces.flatMap (decodeFrom 0) = text ↔ ∀ piece ∈ pieces, startsInside piece = false := by
  constructor
  · intro hall piece hpiece
    have hle := starts_le_flatMap pieces
    rw [hall,h,starts_encode] at hle
    have hnone : pieces.countP startsInside = 0 := by omega
    exact Bool.not_eq_true _ ▸ List.countP_eq_zero.mp hnone piece hpiece
  · intro hall
    induction pieces generalizing text with
    | nil =>
      have htext := congrArg (decodeFrom 0) h
      rw [decodeFrom_encode] at htext
      exact htext
    | cons piece pieces ih =>
      have hrest (other : Bytes) (hother : other ∈ pieces) : startsInside other = false :=
        hall other (List.mem_cons_of_mem _ hother)
      rw [List.flatten_cons] at h
      obtain ⟨first,second,rfl,rfl,hsecond⟩ := exists_of_encode_eq_append h.symm (startsInside_flatten hrest)
      rw [List.flatMap_cons,decodeFrom_encode,ih hsecond hrest]

/-- No piece starts inside a character exactly when every cut is at the end of a text. -/
theorem forall_startsInside_iff (h : pieces.flatten = encode text) :
    (∀ piece ∈ pieces, startsInside piece = false) ↔
      ∀ before after, pieces = before ++ after → ∃ first, before.flatten = encode first := by
  constructor
  · rintro hall before after rfl
    rw [List.flatten_append] at h
    have hafter : startsInside after.flatten = false :=
      startsInside_flatten fun piece hpiece => hall piece (List.mem_append_right _ hpiece)
    obtain ⟨first,second,-,hfirst,-⟩ := exists_of_encode_eq_append h.symm hafter
    exact ⟨first,hfirst⟩
  · intro hall piece hpiece
    obtain ⟨before,after,rfl⟩ := List.append_of_mem hpiece
    obtain ⟨first,hfirst⟩ := hall before (piece::after) rfl
    rw [List.flatten_append,hfirst,List.flatten_cons] at h
    obtain ⟨second,hsecond⟩ := exists_of_encode_eq_encode_append h.symm
    by_cases hp : piece = []
    · rw [hp]
      rfl
    · rw [← startsInside_append hp,hsecond,startsInside_encode]

end Pieces

end Utf8
end NodeRustPty
