import RegisterMapping.Usage
import RegisterMapping.Remap

/-!
# Substitution in a program

A register allocator sees an instruction of a target through three operations: the registers it
uses, the replacement of its registers, and whether it only copies one register to another. Given
an assignment of registers to virtual registers, `remapFor` builds the replacement table of one
instruction, and `substituteAll` replaces the registers of a whole program, one instruction after
the other. It stops at the first instruction whose table cannot be built; the instructions before
that have their registers replaced, and the others are as they were.
-/

set_option autoImplicit false

namespace RegisterMapping

/-- An instruction of some target, as a register allocator sees it. That its usage cannot be told
is an error of the target, which may be another one than that of a usage table. -/
class TargetInstruction (ι : Type) (ε : outParam Type) where
  /-- The registers that the instruction reads, writes and modifies. -/
  usage : ι → Traced ε Usage
  /-- The instruction with its registers replaced; others stay as they are. -/
  substitute : Remap → ι → ι
  /-- Source and destination, if the instruction only copies one register to another. -/
  move? : ι → Option (Handle × Handle) := fun _ => none

/-- Instructions of two kinds, side by side. -/
instance {ι κ ε : Type} [TargetInstruction ι ε] [TargetInstruction κ ε] :
    TargetInstruction (ι ⊕ κ) ε where
  usage := Sum.elim TargetInstruction.usage TargetInstruction.usage
  substitute remap :=
    Sum.map (TargetInstruction.substitute remap) (TargetInstruction.substitute remap)
  move? := Sum.elim TargetInstruction.move? TargetInstruction.move?

/-- A choice of registers for virtual registers; some may have none. -/
abbrev AssignmentFunction := Handle → Option Handle

/-- Why an instruction cannot be processed: its usage cannot be told, or its replacement table
cannot be built. -/
inductive InstructionError (ε : Type) where
  | usage (cause : ε)
  | remap (cause : RemapError)
  deriving DecidableEq

/-- What is said about an instruction that cannot be processed. -/
def InstructionError.message : InstructionError UsageError → String
  | usage cause => cause.message
  | remap cause => cause.message

/-- Extend a replacement table by the assignments of some virtual registers, in order. A register
without an assignment is reported and stays virtual. -/
def Remap.addAssigned (assign : AssignmentFunction) (remap : Remap) :
    List Register → Traced RemapError Remap
  | [] => pure remap
  | r :: rest =>
    match assign (.reg r) with
    | some replacement => do
      let next ← remap.add (.reg r) replacement
      next.addAssigned assign rest
    | none => do
      Traced.record .warn s!"{r.text} has no assignment and stays virtual"
      remap.addAssigned assign rest

section Programs

variable {ι ε : Type} [TargetInstruction ι ε]

/-- The replacement table of an instruction: its virtual registers that have an assignment, in the
order of its usage table. -/
def remapFor (inst : ι) (assign : AssignmentFunction) : Traced (InstructionError ε) Remap := do
  let usage ← (TargetInstruction.usage inst).mapError InstructionError.usage
  (Remap.empty.addAssigned assign (Usage.virtuals usage)).mapError InstructionError.remap

/-- The instruction at which a pass over a program stopped, and why. -/
structure ProgramFailure (ε : Type) where
  index : Nat
  cause : InstructionError ε
  deriving DecidableEq

/-- A program after a pass of substitution: its instructions, the failure that stopped the pass,
if any, and the records made. -/
structure SubstitutionRun (ι ε : Type) where
  insts : List ι
  failure : Option (ProgramFailure ε)
  log : List LogRecord

/-- Replace the registers of the instructions from position `index` on. -/
def substituteFrom (assign : AssignmentFunction) (index : Nat) : List ι → SubstitutionRun ι ε
  | [] => ⟨[], none, [⟨.trace, "done rewriting"⟩]⟩
  | inst :: rest =>
    let step := remapFor inst assign
    match step.outcome with
    | .error cause => ⟨inst :: rest, some ⟨index, cause⟩, step.log⟩
    | .ok remap =>
      let run := substituteFrom assign (index + 1) rest
      ⟨TargetInstruction.substitute remap inst :: run.insts, run.failure,
        step.log ++ ⟨.trace, s!"{index}: {remap.text}"⟩ :: run.log⟩

/-- Replace every virtual register of a program that has an assignment by what it is assigned. -/
def substituteAll (insts : List ι) (assign : AssignmentFunction) : SubstitutionRun ι ε :=
  let run := substituteFrom assign 0 insts
  { run with log := ⟨.info, s!"rewriting {insts.length} instructions"⟩ :: run.log }

end Programs

end RegisterMapping
