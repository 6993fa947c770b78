import RegisterMapping.Instr.Text
import RegisterMapping.Listing.Basic

/-!
# Reports about a listing

A report shows what happens to each instruction of a listing. The usage report attaches its usage
table to each instruction; the substitution report attaches the replacement table that the
assignments of the listing give, and what the instruction becomes. Either report exists only if
every instruction of the listing can be processed.
-/

set_option autoImplicit false

namespace RegisterMapping

/-- An instruction with its usage table. -/
structure UsageEntry where
  inst : Instr
  usage : Usage
  deriving DecidableEq

/-- An instruction, its replacement table, and what it becomes. -/
structure SubstitutionEntry where
  before : Instr
  remap : Remap
  after : Instr
  deriving DecidableEq

/-- The usage of every instruction of a listing, in order. -/
structure UsageReport where
  entries : List UsageEntry
  deriving DecidableEq

/-- The substitution in every instruction of a listing, in order. -/
structure SubstitutionReport where
  entries : List SubstitutionEntry
  deriving DecidableEq

namespace UsageReport

/-- The entries of the instructions from position `index` on. -/
def entriesFrom (index : Nat) : List Instr → Traced (ProgramFailure UsageError) (List UsageEntry)
  | [] => pure []
  | inst :: rest => do
    let usage ← inst.usage.mapError fun cause => ⟨index, .usage cause⟩
    let later ← entriesFrom (index + 1) rest
    return ⟨inst, usage⟩ :: later

end UsageReport

namespace SubstitutionEntry

/-- After the substitution the instruction copies a register to itself. -/
def isRedundantMove (entry : SubstitutionEntry) : Bool :=
  match entry.after.move? with
  | some (src, dst) => src = dst
  | none => false

end SubstitutionEntry

namespace SubstitutionReport

/-- The entries of the instructions from position `index` on. -/
def entriesFrom (assign : AssignmentFunction) (index : Nat) :
    List Instr → Traced (ProgramFailure UsageError) (List SubstitutionEntry)
  | [] => pure []
  | inst :: rest => do
    let remap ← (remapFor inst assign).mapError fun cause => ⟨index, cause⟩
    let after := TargetInstruction.substitute remap inst
    Traced.record .trace s!"{index}: rewritten to {after.text}"
    let later ← entriesFrom assign (index + 1) rest
    return ⟨inst, remap, after⟩ :: later

/-- The instructions that the report ends with. -/
def insts (report : SubstitutionReport) : List Instr := report.entries.map SubstitutionEntry.after

/-- The number of instructions that still mention a virtual register. -/
def virtualCount (report : SubstitutionReport) : Nat :=
  report.entries.countP fun entry => entry.after.mentionsVirtual

end SubstitutionReport

namespace Listing

/-- The usage report of a listing. -/
def usageReport (listing : Listing) : Traced (ProgramFailure UsageError) UsageReport := do
  Traced.record .info s!"reporting usage of {listing.insts.length} instructions"
  let entries ← UsageReport.entriesFrom 0 listing.instructions
  return ⟨entries⟩

/-- The substitution report of a listing, under the assignments that it makes itself. -/
def substitutionReport (listing : Listing) :
    Traced (ProgramFailure UsageError) SubstitutionReport := do
  Traced.record .info s!"reporting rewrite of {listing.insts.length} instructions"
  let entries ← SubstitutionReport.entriesFrom listing.allocation.lookup? 0 listing.instructions
  return ⟨entries⟩

end Listing

end RegisterMapping
