import RegisterMapping.Bank
import RegisterMapping.Instr.Basic

/-!
# Writing instructions

An instruction is written as its mnemonic, a space and its operands, separated by commas. A
memory operand stands in brackets; a distance other than zero follows the base with its sign set
apart. Handles are spelled by a function that is given, so the same rules serve for the plain
text and for the text with the names of a bank.
-/

set_option autoImplicit false

namespace RegisterMapping

/-- A memory operand, with its base spelled by `spell`. -/
def Address.textWith (spell : Handle → String) (address : Address) : String :=
  let base := spell address.base
  let offset := address.offset.toInt
  if offset = 0 then
    "[" ++ base ++ "]"
  else if offset < 0 then
    "[" ++ base ++ " - " ++ toString offset.natAbs ++ "]"
  else
    "[" ++ base ++ " + " ++ toString offset.natAbs ++ "]"

namespace Instr

/-- The written operands of an instruction, constants and memory operands included. -/
def writtenOperands (spell : Handle → String) : Instr → List String
  | .li dst imm => [spell dst, toString imm.toInt]
  | .mov dst src => [spell dst, spell src]
  | .alu _ dst src => [spell dst, spell src]
  | .neg dst => [spell dst]
  | .ld dst address => [spell dst, address.textWith spell]
  | .st src address => [spell src, address.textWith spell]
  | .fma dst a b => [spell dst, spell a, spell b]
  | .cmp left right => [spell left, spell right]
  | .ret src => [spell src]

/-- The text of an instruction, with its handles spelled by `spell`. -/
def textWith (spell : Handle → String) (inst : Instr) : String :=
  inst.mnemonic.text ++ " " ++ ", ".intercalate (inst.writtenOperands spell)

/-- The text of an instruction, real registers being named after a bank if one is given. -/
def textIn (bank? : Option Bank) (inst : Instr) : String := inst.textWith (Bank.spell bank?)

/-- The plain text of an instruction. -/
def text (inst : Instr) : String := inst.textIn none

end Instr

end RegisterMapping
