/-!
# Decoding UTF-8

A text is encoded as a sequence of bytes, one to four for each character. The lead byte of a
character fixes the number of bytes that continue it and, together with the bounds on the byte
after it, excludes overlong forms, surrogates and values above U+10FFFF. `Utf8.decode` stops at the
first byte sequence that encodes nothing; it says where that is, and how many bytes could have
started a character, or that the input ends before the character does.
-/

set_option autoImplicit false

namespace RegisterMapping.Utf8

/-- A place where no character is encoded: the offset of its first byte, and the number of bytes
to leave out, unless the input merely ends too early. -/
structure DecodeError where
  index : Nat
  invalidLength : Option Nat
  deriving DecidableEq, Repr

/-- What is said about bytes that encode no text. -/
def DecodeError.message (e : DecodeError) : String :=
  match e.invalidLength with
  | some length => s!"invalid utf-8 sequence of {length} bytes from index {e.index}"
  | none => s!"incomplete utf-8 byte sequence from index {e.index}"

/-- The number of bytes that continue a character with this lead byte, and the bits of the
character in the lead byte itself. -/
def lead? (byte : Nat) : Option (Nat × Nat) :=
  if byte < 0x80 then some (0, byte)
  else if 0xC2 ≤ byte ∧ byte ≤ 0xDF then some (1, byte - 0xC0)
  else if 0xE0 ≤ byte ∧ byte ≤ 0xEF then some (2, byte - 0xE0)
  else if 0xF0 ≤ byte ∧ byte ≤ 0xF4 then some (3, byte - 0xF0)
  else none

/-- The least and the greatest byte that may follow a lead byte. -/
def secondBounds (byte : Nat) : Nat × Nat :=
  if byte = 0xE0 then (0xA0, 0xBF)
  else if byte = 0xED then (0x80, 0x9F)
  else if byte = 0xF0 then (0x90, 0xBF)
  else if byte = 0xF4 then (0x80, 0x8F)
  else (0x80, 0xBF)

/-- Add the continuing bytes of a character to its value. `taken` bytes of it have been read; if
the next one is out of bounds they are what is invalid. -/
def continued (bounds : Nat × Nat) (taken value : Nat) :
    Nat → List UInt8 → Except (Option Nat) Nat
  | 0, _ => .ok value
  | _ + 1, [] => .error none
  | missing + 1, byte :: rest =>
    if bounds.1 ≤ byte.toNat ∧ byte.toNat ≤ bounds.2 then
      continued (0x80, 0xBF) (taken + 1) (value * 64 + byte.toNat % 64) missing rest
    else
      .error (some taken)

/-- The character that the bytes `byte :: rest` start with, and the number of bytes that it takes
from `rest`; or the number of invalid bytes. -/
def firstChar (byte : UInt8) (rest : List UInt8) : Except (Option Nat) (Char × Nat) :=
  match lead? byte.toNat with
  | none => .error (some 1)
  | some (missing, bits) =>
    (continued (secondBounds byte.toNat) 1 bits missing rest).map fun value =>
      (Char.ofNat value, missing)

/-- Decode bytes that stand at offset `index`. -/
def decodeFrom (index : Nat) : List UInt8 → Except DecodeError (List Char)
  | [] => .ok []
  | byte :: rest =>
    match firstChar byte rest with
    | .error length => .error ⟨index, length⟩
    | .ok (char, length) =>
      (decodeFrom (index + 1 + length) (rest.drop length)).map fun text => char :: text
  termination_by bytes => bytes.length
  decreasing_by
    simp only [List.length_drop, List.length_cons]
    omega

/-- Decode bytes. -/
def decode (bytes : List UInt8) : Except DecodeError String :=
  (decodeFrom 0 bytes).map String.ofList

end RegisterMapping.Utf8
