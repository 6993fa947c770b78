import RegisterMapping.Instr.Basic
import RegisterMapping.Listing.Allocation
import RegisterMapping.Span

/-!
# Listings

A listing holds instructions and assignments of registers to virtual registers, each with the span
of its text. Taken together the assignments are an allocation; where one register is assigned more
than once, the later assignment counts.
-/

set_option autoImplicit false

namespace RegisterMapping

/-- The assignment of a register to a virtual register, and where it is written. -/
structure Assignment where
  virt : Handle
  real : Handle
  span : Span
  deriving DecidableEq

/-- Instructions and assignments, each kind in the order of the text. -/
structure Listing where
  insts : List (Instr × Span)
  assignments : List Assignment
  deriving DecidableEq

namespace Listing

/-- The listing without instructions and assignments. -/
def empty : Listing := ⟨[], []⟩

instance : Inhabited Listing := ⟨empty⟩

/-- The instructions of a listing. -/
def instructions (listing : Listing) : List Instr := listing.insts.map Prod.fst

/-- The assignments of a listing as a map. -/
def allocation (listing : Listing) : Allocation :=
  Allocation.ofPairs (listing.assignments.map fun assignment => (assignment.virt, assignment.real))

end Listing

end RegisterMapping
