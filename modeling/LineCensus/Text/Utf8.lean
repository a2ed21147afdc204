/-!
# Reading UTF-8

Bytes are cut into units: the bytes of one character, or a longest run of bytes that
begins a character but does not finish it. A run that is no character reads as the
replacement character, or refuses the text, as the reader chooses.
-/
namespace LineCensus.Text.Utf8

/-- A character of which some bytes have been read. -/
structure Pending where
  /-- The bits read so far. -/
  bits : Nat
  /-- How many bytes after the next one are missing. -/
  missing : Nat
  /-- The least value the next byte may have. -/
  low : Nat
  /-- The greatest value the next byte may have. -/
  high : Nat
deriving DecidableEq, Repr

/-- What a first byte begins. The bounds on the second byte keep out overlong forms,
surrogates and everything beyond the last character. -/
def begins? (b : Nat) : Option Pending :=
  if 0xC2 ≤ b && b ≤ 0xDF then some ⟨b - 0xC0, 0, 0x80, 0xBF⟩
  else if b == 0xE0 then some ⟨0, 1, 0xA0, 0xBF⟩
  else if b == 0xED then some ⟨0xD, 1, 0x80, 0x9F⟩
  else if 0xE1 ≤ b && b ≤ 0xEF then some ⟨b - 0xE0, 1, 0x80, 0xBF⟩
  else if b == 0xF0 then some ⟨0, 2, 0x90, 0xBF⟩
  else if 0xF1 ≤ b && b ≤ 0xF3 then some ⟨b - 0xF0, 2, 0x80, 0xBF⟩
  else if b == 0xF4 then some ⟨4, 2, 0x80, 0x8F⟩
  else none

/-- The units read so far, the last one first; `none` is a run that is no character. -/
structure Reader where
  pending : Option Pending := none
  units : List (Option Char) := []
deriving DecidableEq, Repr

namespace Reader

/-- Reads a byte at the start of a unit. -/
def first (units : List (Option Char)) (b : Nat) : Reader :=
  if b < 0x80 then ⟨none, some (Char.ofNat b) :: units⟩
  else match begins? b with
    | some p => ⟨some p, units⟩
    | none => ⟨none, none :: units⟩

def read (r : Reader) (byte : UInt8) : Reader :=
  let b := byte.toNat
  match r.pending with
  | none => first r.units b
  | some p =>
    if p.low ≤ b && b ≤ p.high then
      let bits := p.bits * 64 + (b - 0x80)
      match p.missing with
      | 0 => ⟨none, some (Char.ofNat bits) :: r.units⟩
      | missing + 1 => ⟨some ⟨bits, missing, 0x80, 0xBF⟩, r.units⟩
    else first (none :: r.units) b

/-- A character that the bytes end in is no character. -/
def finish (r : Reader) : List (Option Char) :=
  (match r.pending with
    | none => r.units
    | some _ => none :: r.units).reverse

end Reader

def units (bytes : List UInt8) : List (Option Char) := (bytes.foldl Reader.read {}).finish

/-- One replacement character for every run that is no character. -/
def decodeLossy (bytes : List UInt8) : List Char :=
  (units bytes).map fun u => u.getD '\uFFFD'

/-- The text, if all of the bytes are characters. -/
def decode? (bytes : List UInt8) : Option (List Char) :=
  let us := units bytes
  if us.all Option.isSome then some (us.map fun u => u.getD '\uFFFD') else none

@[simp] theorem decodeLossy_nil : decodeLossy [] = [] := rfl

/-- The bytes of a text. -/
def encode (s : List Char) : List UInt8 := s.flatMap String.utf8EncodeChar

theorem encode_append (s t : List Char) : encode (s ++ t) = encode s ++ encode t :=
  List.flatMap_append

end LineCensus.Text.Utf8
