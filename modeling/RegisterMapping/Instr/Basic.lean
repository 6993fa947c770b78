import RegisterMapping.Substitution

/-!
# Two-address instructions

The instructions of a small two-address machine: an arithmetic instruction combines its
destination with its source, so the destination is read and written. Operands are handles of any
class. An instruction shows its operands in the order in which they are written
(`Instr.operands`), and its accesses in the order in which they happen, reads before writes
(`Instr.accesses`).
-/

set_option autoImplicit false

namespace RegisterMapping

/-- The arithmetic of `dst = dst op src`. -/
inductive AluOp where
  | add
  | sub
  | mul
  deriving DecidableEq, Repr

/-- A memory operand: a base register and a constant distance from it. -/
structure Address where
  base : Handle
  offset : Int64
  deriving DecidableEq

/-- A two-address instruction. `li` loads a constant, `mov` copies, `alu` and `neg` modify their
destination, `ld` and `st` move between register and memory, `fma` adds a product to its
destination, `cmp` compares and `ret` returns a value. -/
inductive Instr where
  | li (dst : Handle) (imm : Int64)
  | mov (dst src : Handle)
  | alu (op : AluOp) (dst src : Handle)
  | neg (dst : Handle)
  | ld (dst : Handle) (address : Address)
  | st (src : Handle) (address : Address)
  | fma (dst a b : Handle)
  | cmp (left right : Handle)
  | ret (src : Handle)
  deriving DecidableEq

/-- The names of instructions. -/
inductive Mnemonic where
  | li
  | mov
  | alu (op : AluOp)
  | neg
  | ld
  | st
  | fma
  | cmp
  | ret
  deriving DecidableEq, Repr

namespace Mnemonic

/-- Every mnemonic. -/
def all : List Mnemonic :=
  [.li, .mov, .alu .add, .alu .sub, .alu .mul, .neg, .ld, .st, .fma, .cmp, .ret]

/-- How a mnemonic is written. -/
def text : Mnemonic → String
  | .li => "li"
  | .mov => "mov"
  | .alu .add => "add"
  | .alu .sub => "sub"
  | .alu .mul => "mul"
  | .neg => "neg"
  | .ld => "ld"
  | .st => "st"
  | .fma => "fma"
  | .cmp => "cmp"
  | .ret => "ret"

/-- The mnemonic that is written so. -/
def ofText? (name : List Char) : Option Mnemonic :=
  all.find? fun mnemonic => mnemonic.text.toList = name

theorem mem_all (mnemonic : Mnemonic) : mnemonic ∈ all := by
  rcases mnemonic with _ | _ | (_ | _ | _) | _ | _ | _ | _ | _ | _ <;> decide

@[simp]
theorem ofText?_text (mnemonic : Mnemonic) : ofText? mnemonic.text.toList = some mnemonic := by
  rcases mnemonic with _ | _ | (_ | _ | _) | _ | _ | _ | _ | _ | _ <;> decide +kernel

theorem text_eq_of_ofText? {name : List Char} {mnemonic : Mnemonic}
    (h : ofText? name = some mnemonic) : mnemonic.text.toList = name := by
  simpa using List.find?_some h

end Mnemonic

namespace Instr

/-- The name of an instruction. -/
def mnemonic : Instr → Mnemonic
  | .li _ _ => .li
  | .mov _ _ => .mov
  | .alu op _ _ => .alu op
  | .neg _ => .neg
  | .ld _ _ => .ld
  | .st _ _ => .st
  | .fma _ _ _ => .fma
  | .cmp _ _ => .cmp
  | .ret _ => .ret

/-- Every register operand, in the order in which the operands are written. -/
def operands : Instr → List Handle
  | .li dst _ => [dst]
  | .mov dst src => [dst, src]
  | .alu _ dst src => [dst, src]
  | .neg dst => [dst]
  | .ld dst address => [dst, address.base]
  | .st src address => [src, address.base]
  | .fma dst a b => [dst, a, b]
  | .cmp left right => [left, right]
  | .ret src => [src]

/-- Every operand with its access, in the order in which the accesses happen. -/
def accesses : Instr → List (Handle × Access)
  | .li dst _ => [(dst, .write)]
  | .mov dst src => [(src, .read), (dst, .write)]
  | .alu _ dst src => [(src, .read), (dst, .modify)]
  | .neg dst => [(dst, .modify)]
  | .ld dst address => [(address.base, .read), (dst, .write)]
  | .st src address => [(src, .read), (address.base, .read)]
  | .fma dst a b => [(a, .read), (b, .read), (dst, .modify)]
  | .cmp left right => [(left, .read), (right, .read)]
  | .ret src => [(src, .read)]

/-- The instruction with a function applied to every operand; all else stays. -/
def mapOperands (f : Handle → Handle) : Instr → Instr
  | .li dst imm => .li (f dst) imm
  | .mov dst src => .mov (f dst) (f src)
  | .alu op dst src => .alu op (f dst) (f src)
  | .neg dst => .neg (f dst)
  | .ld dst address => .ld (f dst) ⟨f address.base, address.offset⟩
  | .st src address => .st (f src) ⟨f address.base, address.offset⟩
  | .fma dst a b => .fma (f dst) (f a) (f b)
  | .cmp left right => .cmp (f left) (f right)
  | .ret src => .ret (f src)

/-- Source and destination of a copy. -/
def move? : Instr → Option (Handle × Handle)
  | .mov dst src => some (src, dst)
  | _ => none

/-- The usage table of an instruction. -/
def usage (inst : Instr) : Traced UsageError Usage := Usage.ofAccesses inst.accesses

instance : TargetInstruction Instr UsageError where
  usage := Instr.usage
  substitute remap := mapOperands remap.apply
  move? := Instr.move?

/-- Some operand is a virtual register. -/
def mentionsVirtual (inst : Instr) : Bool := inst.operands.any Handle.holdsVirtual

@[simp]
theorem operands_mapOperands (f : Handle → Handle) (inst : Instr) :
    (inst.mapOperands f).operands = inst.operands.map f := by
  cases inst <;> rfl

@[simp]
theorem mnemonic_mapOperands (f : Handle → Handle) (inst : Instr) :
    (inst.mapOperands f).mnemonic = inst.mnemonic := by
  cases inst <;> rfl

theorem accesses_mapOperands (f : Handle → Handle) (inst : Instr) :
    (inst.mapOperands f).accesses = inst.accesses.map fun access => (f access.1, access.2) := by
  cases inst <;> rfl

end Instr

end RegisterMapping
