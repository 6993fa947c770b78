import RegisterMapping.Architecture
import RegisterMapping.Listing.Token
import RegisterMapping.Register.Text

/-!
# Diagnostics of a listing

A `Diagnostic` is a fault and the span at which it was found. The fault determines everything
that is said about it: a code, a message, the labels that point into the source, and notes. Codes
starting with `EL` belong to the form of a line, with `EA` to assignments, with `EB` to the bank
and with `ET` to the classes of operands.
-/

set_option autoImplicit false

namespace RegisterMapping

/-- What can be wrong in a listing. -/
inductive Fault where
  | invalidCharacter
  | expectedLine
  | unknownInstruction (name : List Char)
  | expected (what : TokenKind) (found : Option TokenKind)
  | malformedRegister (cause : RegisterSyntaxError)
  | numberTooLarge (text : List Char)
  | expectedLineEnd
  | assignsReal (r : Register)
  | assignsToVirtual (r : Register)
  | assignmentClasses (virt real : Register)
  | assignedTwice (virt : Register) (first : Span)
  | notInBank (arch : Architecture) (r : Register)
  | operandClasses (left right : Register)
  | notInteger (r : Register)
  deriving DecidableEq, Repr

namespace Fault

/-- The code of a fault. -/
def code : Fault → String
  | invalidCharacter => "EL00"
  | expectedLine => "EL01"
  | unknownInstruction _ => "EL02"
  | expected _ _ => "EL03"
  | malformedRegister _ => "EL04"
  | numberTooLarge _ => "EL05"
  | expectedLineEnd => "EL06"
  | assignsReal _ => "EA00"
  | assignsToVirtual _ => "EA01"
  | assignmentClasses _ _ => "EA02"
  | assignedTwice _ _ => "EA03"
  | notInBank _ _ => "EB00"
  | operandClasses _ _ => "ET00"
  | notInteger _ => "ET01"

/-- How the thing found in place of a token is called; no kind stands for the end of the file. -/
def foundText : Option TokenKind → String
  | some kind => kind.text
  | none => "the end of the file"

/-- What is said about a fault. -/
def message : Fault → String
  | invalidCharacter => "invalid character"
  | expectedLine => "expected an instruction or an assignment"
  | unknownInstruction name => s!"unknown instruction `{String.ofList name}`"
  | expected what found => s!"expected {what.text}, found {foundText found}"
  | malformedRegister _ => "malformed register"
  | numberTooLarge text => s!"`{String.ofList text}` does not fit in 64 bits"
  | expectedLineEnd => "expected the end of the line"
  | assignsReal r => s!"only virtual registers are assigned, but {r.text} is real"
  | assignsToVirtual r => s!"{r.text} is virtual and cannot be the target of an assignment"
  | assignmentClasses virt real =>
    s!"cannot assign the {virt.cls.text} register {virt.text} to the {real.cls.text} register " ++
      real.text
  | assignedTwice virt _ => s!"{virt.text} is assigned twice"
  | notInBank arch r => s!"{arch.text} has no {r.cls.text} register number {r.index}"
  | operandClasses left right =>
    s!"operands {left.text} and {right.text} have different classes " ++
      s!"({left.cls.text} and {right.cls.text})"
  | notInteger r => s!"expected an integer register, found the {r.cls.text} register {r.text}"

/-- What is said at the place of the fault itself. -/
def labelText : Fault → String
  | malformedRegister cause => cause.message
  | _ => ""

/-- Hints that go with a fault. -/
def notes : Fault → List String
  | expectedLine => ["a line is either an instruction or an assignment like `%vr0 -> %r3`"]
  | malformedRegister _ =>
    ["registers are written `%` then `v` if virtual, a class letter (r, R, F, D or Q) and a number"]
  | _ => []

end Fault

/-- A fault and where it was found. -/
structure Diagnostic where
  fault : Fault
  span : Span
  deriving DecidableEq, Repr

/-- A pointer into the source with something said about it; the primary one marks the fault. -/
structure Label where
  primary : Bool
  span : Span
  message : String
  deriving DecidableEq, Repr

namespace Diagnostic

/-- The code of the fault. -/
def code (diagnostic : Diagnostic) : String := diagnostic.fault.code

/-- What is said about the fault. -/
def message (diagnostic : Diagnostic) : String := diagnostic.fault.message

/-- Hints that go with the fault. -/
def notes (diagnostic : Diagnostic) : List String := diagnostic.fault.notes

/-- The place of the fault, and for a second assignment the place of the first. -/
def labels (diagnostic : Diagnostic) : List Label :=
  ⟨true, diagnostic.span, diagnostic.fault.labelText⟩ ::
    match diagnostic.fault with
    | .assignedTwice _ first => [⟨false, first, "first assigned here"⟩]
    | _ => []

end Diagnostic

end RegisterMapping
