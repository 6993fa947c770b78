import RegisterMapping.Bank
import RegisterMapping.Instr.Basic
import RegisterMapping.Listing.Diagnostic
import RegisterMapping.Listing.Line
import RegisterMapping.Listing.Number

/-!
# Reading a line

A `LineReader` takes tokens from the front of a line. It may report diagnostics, and it may give
up; the diagnostics that were reported before stay. The readers follow the form of a line: an
assignment is a register, an arrow and a register, and an instruction is a mnemonic followed by
its operands. A fault in the form of a line ends the reading, whereas a register that the bank
lacks or that has the wrong class is only reported.
-/

set_option autoImplicit false

namespace RegisterMapping

/-- What a line says. -/
inductive Item where
  | instr (inst : Instr)
  | assignment (virt real : Register)
  deriving DecidableEq

/-- What a reader knows about its line: the bank, if there is one, and what ends the line. -/
structure LineContext where
  bank? : Option Bank
  terminator : Terminator

/-- A place in a line: the span of the token taken last, and the tokens that are left. -/
structure Cursor where
  last : Span
  rest : List Token
  deriving DecidableEq

/-- The outcome of a reader: the diagnostics in order, and the value with the new place unless the
reader gave up. -/
structure Reading (α : Type) where
  diagnostics : List Diagnostic
  value : Option (α × Cursor)

/-- A reader of the tokens of a line. -/
def LineReader (α : Type) : Type := LineContext → Cursor → Reading α

namespace LineReader

variable {α β : Type}

/-- Take no token and give `a`. -/
protected def pure (a : α) : LineReader α := fun _ cursor => ⟨[], some (a, cursor)⟩

/-- Read one thing and then another. -/
protected def bind (reader : LineReader α) (next : α → LineReader β) : LineReader β :=
  fun context cursor =>
    let first := reader context cursor
    match first.value with
    | none => ⟨first.diagnostics, none⟩
    | some (a, place) =>
      let second := next a context place
      ⟨first.diagnostics ++ second.diagnostics, second.value⟩

instance : Monad LineReader where
  pure := LineReader.pure
  bind := LineReader.bind

/-- Report a fault and go on. -/
def report (fault : Fault) (span : Span) : LineReader Unit :=
  fun _ cursor => ⟨[⟨fault, span⟩], some ((), cursor)⟩

/-- Report a fault and give up. -/
def fail (fault : Fault) (span : Span) : LineReader α := fun _ _ => ⟨[⟨fault, span⟩], none⟩

/-- The bank that real registers have to be in. -/
def bank? : LineReader (Option Bank) := fun context cursor => ⟨[], some (context.bank?, cursor)⟩

/-! ## Tokens -/

/-- Take a token of the given kind. If another token comes, or the line ends, that is reported. -/
def take (kind : TokenKind) : LineReader Token := fun context cursor =>
  match cursor.rest with
  | token :: rest =>
    if token.kind = kind then ⟨[], some (token, ⟨token.span, rest⟩)⟩
    else ⟨[⟨.expected kind (some token.kind), token.span⟩], none⟩
  | [] => ⟨[⟨.expected kind context.terminator.kind, context.terminator.span⟩], none⟩

/-- Take a token of the given kind if it comes next. -/
def takeIf (kind : TokenKind) : LineReader Bool := fun _ cursor =>
  match cursor.rest with
  | token :: rest =>
    if token.kind = kind then ⟨[], some (true, ⟨token.span, rest⟩)⟩
    else ⟨[], some (false, cursor)⟩
  | [] => ⟨[], some (false, cursor)⟩

/-! ## Operands -/

/-- Report a real register that the bank does not contain. -/
def checkBank (r : Register) (span : Span) : LineReader Unit := do
  match ← bank? with
  | some bank =>
    if r.isReal && !bank.contains r then report (.notInBank bank.arch r) span else pure ()
  | none => pure ()

/-- Read a register. -/
def register : LineReader (Register × Span) := do
  let token ← take .register
  match Register.parse token.text with
  | .ok r => do
    checkBank r token.span
    return (r, token.span)
  | .error cause => fail (.malformedRegister cause) token.span

/-- Read a register that has to be of an integer class. -/
def integerRegister : LineReader Register := do
  let (r, span) ← register
  if !r.cls.isInteger then
    report (.notInteger r) span
  return r

/-- Read the text of a number whose sign has been read. -/
def number (negative : Bool) : LineReader Int64 := do
  let token ← take .number
  match constant? negative token.text with
  | some value => return value
  | none => fail (.numberTooLarge token.text) token.span

/-- Read a number that may have a minus sign. -/
def signedNumber : LineReader Int64 := do
  let negative ← takeIf .minus
  number negative

/-- Read two registers separated by a comma, which have to be of one class. -/
def pair : LineReader (Register × Register) := do
  let (left, leftSpan) ← register
  let _ ← take .comma
  let (right, rightSpan) ← register
  if left.cls ≠ right.cls then
    report (.operandClasses left right) (leftSpan.cover rightSpan)
  return (left, right)

/-- Read the distance of a memory operand from its base; it is zero if none is written. -/
def offset : LineReader Int64 := do
  if ← takeIf .plus then
    number false
  else if ← takeIf .minus then
    number true
  else
    return 0

/-- Read a memory operand. -/
def address : LineReader Address := do
  let _ ← take .leftBracket
  let base ← integerRegister
  let distance ← offset
  let _ ← take .rightBracket
  return ⟨.reg base, distance⟩

/-! ## Items -/

/-- Read the operands that go with a mnemonic. -/
def operands : Mnemonic → LineReader Instr
  | .li => do
    let dst ← integerRegister
    let _ ← take .comma
    let imm ← signedNumber
    return .li (.reg dst) imm
  | .mov => do
    let (dst, src) ← pair
    return .mov (.reg dst) (.reg src)
  | .alu op => do
    let (dst, src) ← pair
    return .alu op (.reg dst) (.reg src)
  | .neg => do
    let (dst, _) ← register
    return .neg (.reg dst)
  | .ld => do
    let (dst, _) ← register
    let _ ← take .comma
    let source ← address
    return .ld (.reg dst) source
  | .st => do
    let (src, _) ← register
    let _ ← take .comma
    let target ← address
    return .st (.reg src) target
  | .fma => do
    let (dst, dstSpan) ← register
    let _ ← take .comma
    let (a, b) ← pair
    if a.cls = b.cls ∧ dst.cls ≠ a.cls then
      report (.operandClasses dst a) dstSpan
    return .fma (.reg dst) (.reg a) (.reg b)
  | .cmp => do
    let (left, right) ← pair
    return .cmp (.reg left) (.reg right)
  | .ret => do
    let (src, _) ← register
    return .ret (.reg src)

/-- Read an instruction. -/
def instruction : LineReader Instr := do
  let token ← take .name
  match Mnemonic.ofText? token.text with
  | some mnemonic => operands mnemonic
  | none => fail (.unknownInstruction token.text) token.span

/-- What is wrong with an assignment: the left register has to be virtual, the right one real, and
the two of one class. -/
def assignmentFault? (virt real : Register) (virtSpan realSpan : Span) : Option Diagnostic :=
  if virt.isReal then some ⟨.assignsReal virt, virtSpan⟩
  else if real.isVirtual then some ⟨.assignsToVirtual real, realSpan⟩
  else if virt.cls ≠ real.cls then
    some ⟨.assignmentClasses virt real, virtSpan.cover realSpan⟩
  else none

/-- Read an assignment. A faulty one is reported and gives nothing. -/
def assignment : LineReader (Option Item) := do
  let (virt, virtSpan) ← register
  let _ ← take .arrow
  let (real, realSpan) ← register
  match assignmentFault? virt real virtSpan realSpan with
  | some diagnostic => do
    report diagnostic.fault diagnostic.span
    return none
  | none => return some (.assignment virt real)

/-- Read a line that starts with the given token. -/
def item (first : Token) : LineReader (Option Item) :=
  match first.kind with
  | .register => assignment
  | .name => do
    let inst ← instruction
    return some (.instr inst)
  | _ => fail .expectedLine first.span

end LineReader

/-! ## Whole lines -/

/-- What was read from a line: the diagnostics up to its item, the item with its span, and the
diagnostics about what follows it. -/
structure LineReading where
  diagnostics : List Diagnostic
  item? : Option (Item × Span)
  trailing : List Diagnostic
  deriving DecidableEq

namespace Line

/-- The tokens of a line at which no token starts. -/
def invalidTokens (line : Line) : List Token := line.tokens.filter fun t => t.kind = .invalid

/-- Tokens after the item of a line are reported together. -/
def trailing : List Token → List Diagnostic
  | [] => []
  | token :: rest =>
    [⟨.expectedLineEnd, token.span.cover ((token :: rest).getLast (List.cons_ne_nil _ _)).span⟩]

/-- Read a line. If it has invalid characters, these are reported and nothing is read. -/
def read (bank? : Option Bank) (line : Line) : LineReading :=
  match line.invalidTokens with
  | [] =>
    match line.tokens with
    | [] => ⟨[], none, []⟩
    | first :: rest =>
      let reading :=
        LineReader.item first ⟨bank?, line.terminator⟩ ⟨first.span, first :: rest⟩
      match reading.value with
      | none => ⟨reading.diagnostics, none, []⟩
      | some (item?, cursor) =>
        ⟨reading.diagnostics, item?.map fun item => (item, first.span.cover cursor.last),
          trailing cursor.rest⟩
  | invalid => ⟨invalid.map fun token => ⟨.invalidCharacter, token.span⟩, none, []⟩

end Line

end RegisterMapping
