import RegisterMapping.Listing.Token

/-!
# Lines of a listing

A newline token ends a line, and the end of the file ends the last one. `Line.split` cuts a list
of tokens into lines; each line knows what ends it, since a message about a missing token points
there.
-/

set_option autoImplicit false

namespace RegisterMapping

/-- What ends a line: a newline token, or the end of the file if there is no kind, and where. -/
structure Terminator where
  kind : Option TokenKind
  span : Span
  deriving DecidableEq, Repr

/-- The tokens of a line without the newline, and what ends the line. -/
structure Line where
  tokens : List Token
  terminator : Terminator
  deriving DecidableEq, Repr

namespace Line

/-- The line with one more token in front. -/
def cons (token : Token) (line : Line) : Line := ⟨token :: line.tokens, line.terminator⟩

/-- Cut tokens into lines; `endOfFile` is the empty span at the end of the source. -/
def split (endOfFile : Span) : List Token → List Line
  | [] => [⟨[], ⟨none, endOfFile⟩⟩]
  | token :: rest =>
    if token.kind = .newline then
      ⟨[], ⟨some .newline, token.span⟩⟩ :: split endOfFile rest
    else
      (split endOfFile rest).modifyHead (cons token)

theorem split_ne_nil (endOfFile : Span) (tokens : List Token) : split endOfFile tokens ≠ [] := by
  induction tokens with
  | nil => simp [split]
  | cons token rest ih =>
    rw [split]
    split
    · simp
    · simpa using ih

end Line

end RegisterMapping
