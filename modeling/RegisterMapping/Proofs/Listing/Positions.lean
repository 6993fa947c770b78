import RegisterMapping.Listing.Parse

/-!
# Parsing by position

The parse of a listing once more, as one pass with a position into the tokens of the whole file.
This form has everything that can fail at run time: a token is looked up by its index, a line is a
slice, spans are joined only within a file, and a register is asked for an attribute through its
handle, which may hold none. A `ParserFailure` names what went wrong; it ends the pass, whereas a
fault in a line is reported and ends that line alone. That no source text leads to a failure is
`parseByPosition_eq_parse` in the module on agreement.
-/

set_option autoImplicit false

namespace RegisterMapping

/-- What would end the pass over the tokens. -/
inductive ParserFailure where
  | noToken (position : Nat)
  | nothingBefore
  | noSlice (start stop : Nat)
  | foreignSpan (a b : Span)
  | missing (cause : MissingAttribute)
  deriving DecidableEq, Repr

/-- What stays the same during the pass. -/
structure ParserInput where
  tokens : List Token
  endOfFile : Span
  bank? : Option Bank

namespace ParserInput

/-- The position of the newline that ends the line of a position, or the number of tokens. -/
def lineEnd (input : ParserInput) (start : Nat) : Nat :=
  start + ((input.tokens.drop start).takeWhile fun token => token.kind ≠ .newline).length

/-- A line that starts with a token other than a newline ends behind its start. -/
theorem lt_lineEnd (input : ParserInput) {start : Nat} {token : Token}
    (h : input.tokens[start]? = some token) (hkind : token.kind ≠ .newline) :
    start < input.lineEnd start := by
  obtain ⟨hlt, rfl⟩ := List.getElem?_eq_some_iff.1 h
  rw [lineEnd, List.drop_eq_getElem_cons hlt, List.takeWhile_cons_of_pos (by simpa using hkind),
    List.length_cons]
  omega

end ParserInput

/-- What changes: the position of the next token, where registers were assigned, and what was
found so far. -/
structure ParserState where
  position : Nat
  assigned : List (Handle × Span)
  listing : Listing
  diagnostics : List Diagnostic

/-- A part of the pass. Without a value it has given up on its line. -/
def PositionParser (α : Type) : Type :=
  ParserInput → ParserState → Except ParserFailure (Option α × ParserState)

namespace PositionParser

variable {α β : Type}

/-- Change nothing and give `a`. -/
protected def pure (a : α) : PositionParser α := fun _ state => .ok (some a, state)

/-- One part after another. The state stays changed if the line is given up. -/
protected def bind (parser : PositionParser α) (next : α → PositionParser β) : PositionParser β :=
  fun input state =>
    match parser input state with
    | .error failure => .error failure
    | .ok (none, state) => .ok (none, state)
    | .ok (some a, state) => next a input state

instance : Monad PositionParser where
  pure := PositionParser.pure
  bind := PositionParser.bind

/-! ## Steps that can fail -/

/-- End the pass. -/
def failWith (failure : ParserFailure) : PositionParser α := fun _ _ => .error failure

/-- The token at a position, which has to exist. -/
def tokenAt (position : Nat) : PositionParser Token := fun input state =>
  match input.tokens[position]? with
  | some token => .ok (some token, state)
  | none => .error (.noToken position)

/-- The token before a position, which must not be the first. -/
def tokenBefore : Nat → PositionParser Token
  | 0 => fun _ _ => .error .nothingBefore
  | before + 1 => tokenAt before

/-- The tokens from one position up to another, which have to lie in this order. -/
def slice (start stop : Nat) : PositionParser (List Token) := fun input state =>
  if start ≤ stop ∧ stop ≤ input.tokens.length then
    .ok (some ((input.tokens.drop start).take (stop - start)), state)
  else
    .error (.noSlice start stop)

/-- The span of two spans together, which have to be of one file. -/
def joined (a b : Span) : PositionParser Span :=
  match a.join? b with
  | some span => pure span
  | none => failWith (.foreignSpan a b)

/-- The register of a handle that is asked for an attribute. -/
def asked (requested : Attribute) (h : Handle) : PositionParser Register :=
  match h.project requested id with
  | .ok r => pure r
  | .error cause => failWith (.missing cause)

/-! ## Steps that cannot fail -/

/-- What stays the same. -/
def input : PositionParser ParserInput := fun input state => .ok (some input, state)

/-- The position of the next token. -/
def position : PositionParser Nat := fun _ state => .ok (some state.position, state)

/-- The next token, if there is one. -/
def peek : PositionParser (Option Token) := fun input state =>
  .ok (some input.tokens[state.position]?, state)

/-- Go past a token. -/
def advance : PositionParser Unit := fun _ state =>
  .ok (some (), { state with position := state.position + 1 })

/-- Report a fault and go on. -/
def report (fault : Fault) (span : Span) : PositionParser Unit := fun _ state =>
  .ok (some (), { state with diagnostics := state.diagnostics ++ [⟨fault, span⟩] })

/-- Give up on the line. -/
def giveUp : PositionParser α := fun _ state => .ok (none, state)

/-- Whether a part came to its end. -/
def succeeds (parser : PositionParser α) : PositionParser Bool := fun input state =>
  match parser input state with
  | .error failure => .error failure
  | .ok (value?, state) => .ok (some value?.isSome, state)

/-- Add an instruction to the listing. -/
def addInstr (inst : Instr) (span : Span) : PositionParser Unit := fun _ state =>
  .ok (some (), { state with
    listing := ⟨state.listing.insts ++ [(inst, span)], state.listing.assignments⟩ })

/-- Where a register was assigned before. -/
def assignedAt (virt : Handle) : PositionParser (Option Span) := fun _ state =>
  .ok (some ((state.assigned.find? fun entry => entry.1 = virt).map Prod.snd), state)

/-- Add an assignment to the listing, and remember its place. -/
def addAssignment (virt real : Handle) (span : Span) : PositionParser Unit := fun _ state =>
  .ok (some (), { state with
    assigned := state.assigned ++ [(virt, span)]
    listing := ⟨state.listing.insts, state.listing.assignments ++ [⟨virt, real, span⟩]⟩ })

/-! ## Tokens -/

/-- Report what was found instead of a token, and give up. -/
def expected (what : TokenKind) : Option Token → PositionParser α
  | some token => do
    report (.expected what (some token.kind)) token.span
    giveUp
  | none => do
    let input ← input
    report (.expected what none) input.endOfFile
    giveUp

/-- Take a token of the given kind. -/
def expect (kind : TokenKind) : PositionParser Token := do
  match ← peek with
  | some token =>
    if token.kind = kind then do
      advance
      return token
    else
      expected kind (some token)
  | none => expected kind none

/-- Take a token of the given kind if it comes next. -/
def expectIf (kind : TokenKind) : PositionParser Bool := do
  match ← peek with
  | some token =>
    if token.kind = kind then do
      advance
      return true
    else
      return false
  | none => return false

/-! ## Operands -/

/-- Whether the bank contains what a handle holds; nothing is asked of a handle that holds no
register. -/
def contained (bank : Bank) (h : Handle) : PositionParser Bool :=
  if h.isValid then do
    let flagged ← asked .virtualFlag h
    if flagged.isReal then do
      let numbered ← asked .index h
      let classed ← asked .cls h
      return numbered.index < bank.count classed.cls
    else
      return false
  else
    return false

/-- Report a real register that the bank does not contain. -/
def checkBank (h : Handle) (span : Span) : PositionParser Unit := do
  let input ← input
  match input.bank? with
  | some bank => do
    let flagged ← asked .virtualFlag h
    if flagged.isReal then do
      let known ← contained bank h
      if !known then do
        let _ ← asked .cls h
        let named ← asked .index h
        report (.notInBank bank.arch named) span
      else
        pure ()
    else
      pure ()
  | none => pure ()

/-- Read a register. -/
def register : PositionParser (Handle × Span) := do
  let token ← expect .register
  match Register.parse token.text with
  | .ok r => do
    checkBank (.reg r) token.span
    return (.reg r, token.span)
  | .error cause => do
    report (.malformedRegister cause) token.span
    giveUp

/-- Read a register that has to be of an integer class. -/
def integerRegister : PositionParser Handle := do
  let (h, span) ← register
  let r ← asked .cls h
  if !r.cls.isInteger then
    report (.notInteger r) span
  return h

/-- Read the text of a number whose sign has been read. -/
def number (negative : Bool) : PositionParser Int64 := do
  let token ← expect .number
  match constant? negative token.text with
  | some value => return value
  | none => do
    report (.numberTooLarge token.text) token.span
    giveUp

/-- Read a number that may have a minus sign. -/
def signedNumber : PositionParser Int64 := do
  let negative ← expectIf .minus
  number negative

/-- Read two registers separated by a comma, which have to be of one class. -/
def pair : PositionParser (Handle × Handle) := do
  let (left, leftSpan) ← register
  let _ ← expect .comma
  let (right, rightSpan) ← register
  let a ← asked .cls left
  let b ← asked .cls right
  if a.cls ≠ b.cls then do
    let span ← joined leftSpan rightSpan
    report (.operandClasses a b) span
  return (left, right)

/-- Read the distance of a memory operand from its base; it is zero if none is written. -/
def offset : PositionParser Int64 := do
  if ← expectIf .plus then
    number false
  else if ← expectIf .minus then
    number true
  else
    return 0

/-- Read a memory operand. -/
def address : PositionParser Address := do
  let _ ← expect .leftBracket
  let base ← integerRegister
  let distance ← offset
  let _ ← expect .rightBracket
  return ⟨base, distance⟩

/-! ## Lines -/

/-- Read the operands that go with a mnemonic. -/
def operands : Mnemonic → PositionParser Instr
  | .li => do
    let dst ← integerRegister
    let _ ← expect .comma
    let imm ← signedNumber
    return .li dst imm
  | .mov => do
    let (dst, src) ← pair
    return .mov dst src
  | .alu op => do
    let (dst, src) ← pair
    return .alu op dst src
  | .neg => do
    let (dst, _) ← register
    return .neg dst
  | .ld => do
    let (dst, _) ← register
    let _ ← expect .comma
    let source ← address
    return .ld dst source
  | .st => do
    let (src, _) ← register
    let _ ← expect .comma
    let target ← address
    return .st src target
  | .fma => do
    let (dst, dstSpan) ← register
    let _ ← expect .comma
    let (a, b) ← pair
    let first ← asked .cls a
    let second ← asked .cls b
    if first.cls = second.cls then do
      let result ← asked .cls dst
      if result.cls ≠ first.cls then
        report (.operandClasses result first) dstSpan
    return .fma dst a b
  | .cmp => do
    let (left, right) ← pair
    return .cmp left right
  | .ret => do
    let (src, _) ← register
    return .ret src

/-- Read the mnemonic that comes next and its operands. -/
def mnemonic (first : Token) : PositionParser Instr := do
  advance
  match Mnemonic.ofText? first.text with
  | some mnemonic => operands mnemonic
  | none => do
    report (.unknownInstruction first.text) first.span
    giveUp

/-- Read an instruction. Its span ends with the token before the next one. -/
def instruction (first : Token) : PositionParser Unit := do
  let inst ← mnemonic first
  let next ← position
  let last ← tokenBefore next
  let span ← joined first.span last.span
  addInstr inst span

/-- Add the assignment of one handle to another, unless something is wrong with it. -/
def assign (virt real : Handle × Span) : PositionParser Unit := do
  let span ← joined virt.2 real.2
  let v ← asked .virtualFlag virt.1
  if !v.isVirtual then
    report (.assignsReal v) virt.2
  else do
    let r ← asked .virtualFlag real.1
    if !r.isReal then
      report (.assignsToVirtual r) real.2
    else do
      let v ← asked .cls virt.1
      let r ← asked .cls real.1
      if v.cls ≠ r.cls then
        report (.assignmentClasses v r) span
      else do
        match ← assignedAt virt.1 with
        | some previous => report (.assignedTwice v previous) span
        | none => addAssignment virt.1 real.1 span

/-- Read an assignment. -/
def assignment : PositionParser Unit := do
  let virt ← register
  let _ ← expect .arrow
  let real ← register
  assign virt real

/-- Read what a line says, by its first token. -/
def item : PositionParser Unit := do
  match ← peek with
  | some first =>
    match first.kind with
    | .register => assignment
    | .name => instruction first
    | _ => do
      report .expectedLine first.span
      giveUp
  | none => giveUp

/-- Report tokens at which no token starts. -/
def reportInvalid : List Token → PositionParser Unit
  | [] => pure ()
  | token :: rest => do
    report .invalidCharacter token.span
    reportInvalid rest

/-- Report tokens that are left before the end of the line. -/
def reportTrailing (stop : Nat) : PositionParser Unit := do
  let next ← position
  if next < stop then do
    let first ← tokenAt next
    let last ← tokenBefore stop
    let span ← joined first.span last.span
    report .expectedLineEnd span
  else
    pure ()

/-- Read a line up to the position of its end. -/
def line : PositionParser Unit := do
  let input ← input
  let start ← position
  let _ ← slice start input.tokens.length
  let stop := input.lineEnd start
  let tokens ← slice start stop
  match tokens.filter fun token => token.kind = .invalid with
  | [] => do
    if ← succeeds item then
      reportTrailing stop
  | invalid => reportInvalid invalid

end PositionParser

/-! ## The whole file -/

/-- Read lines up to the end of the tokens. Whatever becomes of a line, its end comes next. -/
def parseFrom (input : ParserInput) (state : ParserState) : Except ParserFailure ParserState :=
  match _found : input.tokens[state.position]? with
  | none => .ok state
  | some token =>
    if _kind : token.kind = .newline then
      parseFrom input { state with position := state.position + 1 }
    else
      match PositionParser.line input state with
      | .error failure => .error failure
      | .ok (_, next) => parseFrom input { next with position := input.lineEnd state.position }
  termination_by input.tokens.length - state.position
  decreasing_by
    · have hlt := (List.getElem?_eq_some_iff.1 _found).1
      show input.tokens.length - (state.position + 1) < _
      omega
    · have hlt := (List.getElem?_eq_some_iff.1 _found).1
      have hend := input.lt_lineEnd _found _kind
      show input.tokens.length - input.lineEnd state.position < _
      omega

section Equations

variable {input : ParserInput} {state : ParserState}

theorem parseFrom_of_end (h : input.tokens[state.position]? = none) :
    parseFrom input state = .ok state := by
  rw [parseFrom.eq_def]
  split
  · rfl
  · next token hfound =>
    rw [h] at hfound
    cases hfound

theorem parseFrom_of_newline {token : Token} (h : input.tokens[state.position]? = some token)
    (hkind : token.kind = .newline) :
    parseFrom input state = parseFrom input { state with position := state.position + 1 } := by
  rw [parseFrom.eq_def]
  split
  · next hend =>
    rw [h] at hend
    cases hend
  · next other hother =>
    obtain rfl := Option.some.inj (h.symm.trans hother)
    rw [dif_pos hkind]

/-- Behind an item the parse goes on at the end of the line, wherever the reading stopped. -/
theorem parseFrom_of_line {token : Token} {value : Option Unit} {next : ParserState}
    (h : input.tokens[state.position]? = some token) (hkind : token.kind ≠ .newline)
    (hline : PositionParser.line input state = .ok (value, next)) :
    parseFrom input state =
      parseFrom input { next with position := input.lineEnd state.position } := by
  rw [parseFrom.eq_def]
  split
  · next hend =>
    rw [h] at hend
    cases hend
  · next other hother =>
    obtain rfl := Option.some.inj (h.symm.trans hother)
    rw [dif_neg hkind, hline]

end Equations

/-- Parse a source text by position. -/
def Listing.parseByPosition (source : String) (file : Nat) (bank? : Option Bank) :
    Except ParserFailure ParsedListing :=
  let text := source.toList
  let endOfFile : Span := ⟨file, byteLength text, byteLength text⟩
  (parseFrom ⟨Token.scan file 0 text, endOfFile, bank?⟩ ⟨0, [], Listing.empty, []⟩).map
    fun state => ⟨state.listing, state.diagnostics⟩

end RegisterMapping
