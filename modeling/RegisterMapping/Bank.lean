import RegisterMapping.Architecture
import RegisterMapping.Register.Basic

/-!
# Register banks

A bank holds the real registers of an architecture under their names. Only architectures with a
layout have a bank. The bank contains the register with index `i` of a class exactly if the class
has an `i`-th name, and that is then the name of the register.
-/

set_option autoImplicit false

namespace RegisterMapping

/-- The real registers of an architecture. -/
structure Bank where
  arch : Architecture
  layout : RegisterLayout
  layout_eq : arch.layout? = some layout

namespace Bank

/-- The bank of an architecture, if it has a layout. -/
def ofArchitecture? (arch : Architecture) : Option Bank :=
  match h : arch.layout? with
  | some layout => some ⟨arch, layout, h⟩
  | none => none

/-- The number of real registers of a class. -/
def count (bank : Bank) (cls : RegisterClass) : Nat := (bank.layout cls).length

/-- The register is real and its index is below the number of registers of its class. -/
def contains (bank : Bank) (r : Register) : Bool :=
  r.isReal && decide (r.index < bank.count r.cls)

/-- The name of a real register. -/
def nameOf? (bank : Bank) (r : Register) : Option String :=
  if r.isReal then (bank.layout r.cls)[r.index]? else none

/-- Whether the bank contains what a handle holds. -/
def containsHandle (bank : Bank) (h : Handle) : Bool := h.register?.any bank.contains

/-- The name of what a handle holds. -/
def nameOfHandle? (bank : Bank) (h : Handle) : Option String := h.register?.bind bank.nameOf?

/-- The names of a class, in order of index. -/
def names (bank : Bank) (cls : RegisterClass) : List String := bank.layout cls

/-- No class has more registers than an index can tell apart. -/
theorem count_lt_indexBound (bank : Bank) (cls : RegisterClass) :
    bank.count cls < Register.indexBound := by
  obtain ⟨arch, layout, h⟩ := bank
  cases arch <;> simp only [Architecture.layout?, Option.some.injEq, reduceCtorEq] at h <;>
    subst h <;> cases cls <;>
    simp [count, RegisterLayout.x86, RegisterLayout.arm, RegisterLayout.riscv,
      RegisterLayout.numbered, Register.indexBound, Register.indexBits]

/-- The real register of a class that has the given name. -/
def lookup? (bank : Bank) (cls : RegisterClass) (name : String) : Option Register :=
  if h : (bank.layout cls).idxOf name < bank.count cls then
    some ⟨cls, false, (bank.layout cls).idxOf name,
      Nat.lt_trans h (bank.count_lt_indexBound cls)⟩
  else
    none

/-- How a handle is spelled: by its name in the bank, if there is one, else by its text form. -/
def spell (bank? : Option Bank) (h : Handle) : String :=
  (bank?.bind fun bank => bank.nameOfHandle? h).getD h.text

end Bank

end RegisterMapping
