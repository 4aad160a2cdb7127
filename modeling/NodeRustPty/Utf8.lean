import NodeRustPty.Multiplexer

/-! `String::from_utf8_lossy` of the standard library: every maximal prefix of an
ill-formed sequence becomes one replacement character. -/
namespace NodeRustPty
namespace Utf8

def replacement : Char := '\uFFFD'

def continuation (byte : UInt8) : Bool := 0x80 ≤ byte && byte ≤ 0xBF

/-- The second bytes that can follow the first byte of three. -/
def secondOfThree (first second : UInt8) : Bool :=
  if first = 0xE0 then 0xA0 ≤ second && second ≤ 0xBF
  else if first = 0xED then 0x80 ≤ second && second ≤ 0x9F
  else continuation second

/-- The second bytes that can follow the first byte of four. -/
def secondOfFour (first second : UInt8) : Bool :=
  if first = 0xF0 then 0x90 ≤ second && second ≤ 0xBF
  else if first = 0xF4 then 0x80 ≤ second && second ≤ 0x8F
  else continuation second

/-- The low bits of a byte, shifted to their place in a character. -/
def bits (byte : UInt8) (modulus shift : ℕ) : ℕ := (byte.toNat%modulus)*2^shift

/-- The character that starts with `first`, and how many of the bytes after it belong to it. -/
def decodeFirst (first : UInt8) (rest : Bytes) : Char × ℕ :=
  if first < 0x80 then (Char.ofNat first.toNat,0)
  else if 0xC2 ≤ first && first ≤ 0xDF then
    match rest with
    | second::_ =>
      if continuation second then (Char.ofNat (bits first 32 6+bits second 64 0),1)
      else (replacement,0)
    | [] => (replacement,0)
  else if 0xE0 ≤ first && first ≤ 0xEF then
    match rest with
    | second::rest =>
      if secondOfThree first second then
        match rest with
        | third::_ =>
          if continuation third then
            (Char.ofNat (bits first 16 12+bits second 64 6+bits third 64 0),2)
          else (replacement,1)
        | [] => (replacement,1)
      else (replacement,0)
    | [] => (replacement,0)
  else if 0xF0 ≤ first && first ≤ 0xF4 then
    match rest with
    | second::rest =>
      if secondOfFour first second then
        match rest with
        | third::rest =>
          if continuation third then
            match rest with
            | fourth::_ =>
              if continuation fourth then
                (Char.ofNat (bits first 8 18+bits second 64 12+bits third 64 6+bits fourth 64 0),3)
              else (replacement,2)
            | [] => (replacement,2)
          else (replacement,1)
        | [] => (replacement,1)
      else (replacement,0)
    | [] => (replacement,0)
  else (replacement,0)

/-- The characters of a byte sequence, after skipping the bytes of the last one. -/
def decodeFrom : ℕ → Bytes → List Char
  | _, [] => []
  | skip+1, _::rest => decodeFrom skip rest
  | 0, first::rest => (decodeFirst first rest).1::decodeFrom (decodeFirst first rest).2 rest

def fromUtf8Lossy (data : Bytes) : String := String.ofList (decodeFrom 0 data)

end Utf8
end NodeRustPty
