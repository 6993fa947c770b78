import RegisterMapping.Register.Basic

/-!
# Reading registers

The text form of a register is a percent sign, a `v` if the register is virtual, the letter of
its class and its index in decimal; the index may have leading zeros. `Register.parse` reads this
form and nothing else. Of several faults it reports the leftmost.
-/

set_option autoImplicit false

namespace RegisterMapping

/-- Why a text is not a register. -/
inductive RegisterSyntaxError where
  | missingSigil
  | missingClass
  | unknownClass (letter : Char)
  | badIndex (text : List Char)
  | indexTooLarge (digits : List Char)
  deriving DecidableEq, Repr

/-- What is said about a text that is not a register. -/
def RegisterSyntaxError.message : RegisterSyntaxError → String
  | missingSigil => "registers start with '%'"
  | missingClass => "missing register class"
  | unknownClass letter => s!"unknown register class '{letter}'"
  | badIndex text => s!"'{String.ofList text}' is not a register number"
  | indexTooLarge digits =>
    s!"register number {String.ofList digits} must be below {Register.indexBound}"

/-- The number that a text of decimal digits stands for. -/
def decimalValue (digits : List Char) : Nat := Nat.ofDigitChars 10 digits 0

namespace Register

/-- Read an index: one or more decimal digits whose value is in range. -/
def parseIndex (cls : RegisterClass) (isVirtual : Bool) (text : List Char) :
    Except RegisterSyntaxError Register :=
  if text.isEmpty || !text.all Char.isDigit then
    .error (.badIndex text)
  else if h : decimalValue text < indexBound then
    .ok ⟨cls, isVirtual, decimalValue text, h⟩
  else
    .error (.indexTooLarge text)

/-- Read a class letter and an index. -/
def parseClass (isVirtual : Bool) : List Char → Except RegisterSyntaxError Register
  | [] => .error .missingClass
  | letter :: rest =>
    match RegisterClass.ofLetter? letter with
    | some cls => parseIndex cls isVirtual rest
    | none => .error (.unknownClass letter)

/-- Read the text form of a register. -/
def parse : List Char → Except RegisterSyntaxError Register
  | '%' :: 'v' :: rest => parseClass true rest
  | '%' :: rest => parseClass false rest
  | _ => .error .missingSigil

end Register

end RegisterMapping
