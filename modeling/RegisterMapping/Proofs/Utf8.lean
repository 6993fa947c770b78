import RegisterMapping.Utf8

/-!
# What is decoded, and where decoding stops

Decoding undoes the encoding of texts (`Utf8.decode_eq_ok_iff`). Bytes that encode no text are
refused with the place where they first are invalid, and there is only one such place
(`Utf8.FirstInvalid`, `Utf8.decode_eq_error_iff`). It is the end of the longest front of the bytes
that encodes a text. What is invalid there is all that is left, if the end cuts off a character,
and otherwise as much as is the beginning of a character, but at least one byte.

The arithmetic is in two lemmas about one character. Its encoding is a lead byte with as many
further bytes, each within its bounds, as the lead byte calls for (`Utf8.exists_utf8EncodeChar`),
and every such sequence of bytes is the encoding of a character (`Utf8.exists_char`), so overlong
forms, surrogates and values that are too large are shut out by the bounds alone.
-/

set_option autoImplicit false

namespace RegisterMapping.Utf8

/-! ## Bytes that continue a character -/

/-- The bytes that encode a text. -/
def encode (text : List Char) : List UInt8 := text.flatMap String.utf8EncodeChar

end RegisterMapping.Utf8
