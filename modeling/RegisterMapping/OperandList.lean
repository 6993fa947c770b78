import RegisterMapping.Substitution

/-!
# Instructions given by their operands

The least that an instruction can be is the list of its operands, each with its access. Such
instructions use their operands in order, and a replacement acts on each operand; none of them is
a plain copy.
-/

set_option autoImplicit false

namespace RegisterMapping

/-- An instruction given by its operands and their accesses. -/
structure OperandList where
  operands : List (Handle × Access)
  deriving DecidableEq

namespace OperandList

/-- The operands with a function applied to each handle. -/
def mapOperands (f : Handle → Handle) (inst : OperandList) : OperandList :=
  ⟨inst.operands.map fun operand => (f operand.1, operand.2)⟩

/-- The text form: each operand with its access, separated by commas. -/
def text (inst : OperandList) : String :=
  ", ".intercalate (inst.operands.map fun operand => operand.1.text ++ ": " ++ operand.2.text)

instance : TargetInstruction OperandList UsageError where
  usage inst := Usage.ofAccesses inst.operands
  substitute remap := mapOperands remap.apply

end OperandList

end RegisterMapping
