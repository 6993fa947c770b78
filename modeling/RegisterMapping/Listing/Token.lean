import RegisterMapping.Span

/-!
# Tokens of a listing

A listing is cut into tokens from left to right. At each place the longest token that fits is
taken; blanks and comments are passed over, and a character at which no token starts makes an
invalid token of its own. `Lexeme.first` is one such step, and `Token.scan` repeats it. Each token
knows its text and where it stands, in bytes.
-/

set_option autoImplicit false

namespace RegisterMapping

/-- The kinds of tokens. -/
inductive TokenKind where
  | comma
  | leftBracket
  | rightBracket
  | plus
  | minus
  | arrow
  | register
  | name
  | number
  | newline
  | invalid
  deriving DecidableEq, Repr

/-- How a kind of token is called in a message. -/
def TokenKind.text : TokenKind → String
  | .comma => "`,`"
  | .leftBracket => "`[`"
  | .rightBracket => "`]`"
  | .plus => "`+`"
  | .minus => "`-`"
  | .arrow => "`->`"
  | .register => "a register"
  | .name => "a name"
  | .number => "a number"
  | .newline => "the end of the line"
  | .invalid => "an invalid character"

/-- A token: its kind, its characters and its place. -/
structure Token where
  kind : TokenKind
  text : List Char
  span : Span
  deriving DecidableEq, Repr

/-! ## Characters -/

/-- Blanks separate tokens and are otherwise passed over. -/
def isBlank (c : Char) : Bool := c = ' ' || c = '\t' || c = '\x0c'

/-- Letters, digits and underscores continue a name or a register. -/
def isWordChar (c : Char) : Bool := c.isAlphanum || c = '_'

/-- Digits and underscores continue a number. -/
def isNumberChar (c : Char) : Bool := c.isDigit || c = '_'

/-- A comment ends before the first of these. -/
def isLineBreak (c : Char) : Bool := c = '\r' || c = '\n'

/-- The number of characters at the front of a text that satisfy a condition. -/
def frontLength (p : Char → Bool) (text : List Char) : Nat := (text.takeWhile p).length

/-- The number of bytes of a text. -/
def byteLength : List Char → Nat
  | [] => 0
  | c :: rest => c.utf8Size + byteLength rest

/-! ## One step -/

/-- What a text starts with: a token, or something to pass over if there is no kind, and the
number of characters that it has after its first. -/
structure Lexeme where
  kind : Option TokenKind
  extra : Nat
  deriving DecidableEq, Repr

namespace Lexeme

/-- A token with so many characters after its first. -/
def token (kind : TokenKind) (extra : Nat) : Lexeme := ⟨some kind, extra⟩

/-- Something to pass over with so many characters after its first. -/
def skipped (extra : Nat) : Lexeme := ⟨none, extra⟩

/-- What the text `c :: rest` starts with. -/
def first (c : Char) (rest : List Char) : Lexeme :=
  if isBlank c then skipped (frontLength isBlank rest)
  else if c = '#' then skipped (frontLength (fun d => !isLineBreak d) rest)
  else if c = '%' then token .register (frontLength isWordChar rest)
  else if c.isAlpha then token .name (frontLength isWordChar rest)
  else if c.isDigit then token .number (frontLength isNumberChar rest)
  else if c = '-' then
    if rest.head? = some '>' then token .arrow 1 else token .minus 0
  else if c = '\r' then
    if rest.head? = some '\n' then token .newline 1 else token .invalid 0
  else if c = '\n' then token .newline 0
  else if c = ',' then token .comma 0
  else if c = '[' then token .leftBracket 0
  else if c = ']' then token .rightBracket 0
  else if c = '+' then token .plus 0
  else token .invalid 0

end Lexeme

/-! ## The whole text -/

namespace Token

/-- Cut a text that stands at byte `offset` of a file into tokens. -/
def scan (file offset : Nat) : List Char → List Token
  | [] => []
  | c :: rest =>
    let lexeme := Lexeme.first c rest
    let text := c :: rest.take lexeme.extra
    let stop := offset + byteLength text
    let later := scan file stop (rest.drop lexeme.extra)
    match lexeme.kind with
    | some kind => ⟨kind, text, ⟨file, offset, stop⟩⟩ :: later
    | none => later
  termination_by text => text.length
  decreasing_by
    simp only [List.length_drop, List.length_cons]
    omega

end Token

end RegisterMapping
