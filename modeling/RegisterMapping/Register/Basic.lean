import RegisterMapping.Register.Class

/-!
# Registers and handles

A `Register` is a virtual or a real register of some class; its index is below 2^23 by
construction. A `Handle` is a register or the mark `Handle.invalid` for no register at all. Zero
is an index like any other, so absence has a constructor of its own, and asking a handle for an
attribute of its register fails if there is none.
-/

set_option autoImplicit false

namespace RegisterMapping

/-- The number of bits of a register index. -/
def Register.indexBits : Nat := 23

/-- Register indices lie strictly below this bound, the first number that needs more bits. -/
def Register.indexBound : Nat := 1 <<< Register.indexBits

/-- A register: its class, whether it is virtual, and its index among those of its kind. -/
structure Register where
  cls : RegisterClass
  isVirtual : Bool
  index : Nat
  index_lt : index < Register.indexBound
  deriving DecidableEq, Repr

/-- An index that no register has. -/
structure IndexError where
  index : Nat
  cls : RegisterClass
  deriving DecidableEq, Repr

/-- What is said about an index that is out of range. -/
def IndexError.message (e : IndexError) : String :=
  s!"register index {e.index} of class {e.cls.text} does not fit in {Register.indexBits} bits"

namespace Register

/-- A register is real if it is not virtual. -/
def isReal (r : Register) : Bool := !r.isVirtual

theorem isReal_iff {r : Register} : r.isReal = true ↔ r.isVirtual = false := by
  simp [isReal]

/-- The register with the given parts, if the index is in range. -/
def make (index : Nat) (cls : RegisterClass) (isVirtual : Bool) : Except IndexError Register :=
  if h : index < indexBound then .ok ⟨cls, isVirtual, index, h⟩ else .error ⟨index, cls⟩

/-- The text form: a percent sign, a `v` if virtual, the letter of the class, the index. -/
def text (r : Register) : String :=
  "%" ++ (if r.isVirtual then "v" else "") ++ r.cls.letter.toString ++ toString r.index

theorem ext_iff {a b : Register} :
    a = b ↔ a.cls = b.cls ∧ a.isVirtual = b.isVirtual ∧ a.index = b.index := by
  cases a
  cases b
  simp

end Register

/-- A register, or the mark for no register. -/
inductive Handle where
  | reg (r : Register)
  | invalid
  deriving DecidableEq, Repr

/-- An attribute that a handle has only if it holds a register. -/
inductive Attribute where
  | cls
  | virtualFlag
  | index
  deriving DecidableEq, Repr

/-- The name of an attribute. -/
def Attribute.text : Attribute → String
  | .cls => "class"
  | .virtualFlag => "virtual flag"
  | .index => "index"

/-- An attribute was asked of the handle that holds no register. -/
structure MissingAttribute where
  requested : Attribute
  deriving DecidableEq, Repr

/-- What is said when the invalid register is asked for an attribute. -/
def MissingAttribute.message (e : MissingAttribute) : String :=
  s!"requested the {e.requested.text} of the invalid register"

namespace Handle

/-- The register that the handle holds. -/
def register? : Handle → Option Register
  | reg r => some r
  | invalid => none

/-- A handle is valid if it holds a register. -/
def isValid (h : Handle) : Bool := h.register?.isSome

/-- Read an attribute off the register that the handle holds. -/
def project {α : Type} (requested : Attribute) (f : Register → α) :
    Handle → Except MissingAttribute α
  | reg r => .ok (f r)
  | invalid => .error ⟨requested⟩

/-- The class of the register. -/
def cls : Handle → Except MissingAttribute RegisterClass := project .cls Register.cls

/-- Whether the register is virtual. -/
def isVirtual : Handle → Except MissingAttribute Bool := project .virtualFlag Register.isVirtual

/-- Whether the register is real. It is read off the virtual flag, and fails as that does. -/
def isReal : Handle → Except MissingAttribute Bool := project .virtualFlag Register.isReal

/-- The index of the register. -/
def index : Handle → Except MissingAttribute Nat := project .index Register.index

/-- The handle is known to hold a virtual register. -/
def holdsVirtual : Handle → Bool
  | reg r => r.isVirtual
  | invalid => false

/-- The text form of the register, or of the mark for none. -/
def text : Handle → String
  | reg r => r.text
  | invalid => "%INVALID"

end Handle

end RegisterMapping
