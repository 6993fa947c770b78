/-!
# Register classes

A register class is the kind of physical register that a value occupies: its width, and whether
it holds an integer, a floating point number or a vector. A class has a name, a letter in the
text form of a register and a code in its packed form.
-/

set_option autoImplicit false

namespace RegisterMapping

/-- The kind of physical register that a handle may occupy. -/
inductive RegisterClass where
  | int32
  | int64
  | flt64
  | vec64
  | vec128
  deriving DecidableEq, Repr, Inhabited

namespace RegisterClass

/-- Every class, in the order of their codes. -/
def all : List RegisterClass := [.int32, .int64, .flt64, .vec64, .vec128]

/-- The class field of a packed handle. It is neither 0 nor 15, so a packed handle is never
small, and never the pattern of all ones that stands for no register. -/
def code : RegisterClass → Nat
  | .int32 => 4
  | .int64 => 5
  | .flt64 => 6
  | .vec64 => 7
  | .vec128 => 8

/-- The letter of the class in the text form of a register. -/
def letter : RegisterClass → Char
  | .int32 => 'r'
  | .int64 => 'R'
  | .flt64 => 'F'
  | .vec64 => 'D'
  | .vec128 => 'Q'

/-- The name of the class. -/
def text : RegisterClass → String
  | .int32 => "int32"
  | .int64 => "int64"
  | .flt64 => "flt64"
  | .vec64 => "vec64"
  | .vec128 => "vec128"

/-- The class with the given code. -/
def ofCode? (code : Nat) : Option RegisterClass :=
  all.find? fun cls => cls.code = code

/-- The class with the given letter. -/
def ofLetter? (letter : Char) : Option RegisterClass :=
  all.find? fun cls => cls.letter = letter

/-- Values of an integer class serve as addresses and take immediates. -/
def isInteger : RegisterClass → Bool
  | .int32 | .int64 => true
  | .flt64 | .vec64 | .vec128 => false

theorem mem_all (cls : RegisterClass) : cls ∈ all := by cases cls <;> decide

@[simp]
theorem ofCode?_code (cls : RegisterClass) : ofCode? cls.code = some cls := by
  cases cls <;> rfl

@[simp]
theorem ofLetter?_letter (cls : RegisterClass) : ofLetter? cls.letter = some cls := by
  cases cls <;> rfl

theorem code_eq_of_ofCode? {code : Nat} {cls : RegisterClass} (h : ofCode? code = some cls) :
    cls.code = code := by
  simpa using List.find?_some h

theorem letter_eq_of_ofLetter? {letter : Char} {cls : RegisterClass}
    (h : ofLetter? letter = some cls) : cls.letter = letter := by
  simpa using List.find?_some h

theorem code_injective {a b : RegisterClass} (h : a.code = b.code) : a = b := by
  cases a <;> cases b <;> simp_all [code]

end RegisterClass

end RegisterMapping
