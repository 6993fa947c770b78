import RegisterMapping.Register.Class

/-!
# Architectures

An architecture has a name, and some of those that are known come with a layout: for each class of
registers the names of the real registers, the register with index `i` having the `i`-th name. All
64-bit Arm architectures share a layout, and so do all 64-bit RISC-V ones.
-/

set_option autoImplicit false

namespace RegisterMapping

/-- The architectures that are known, and any other one under its name. -/
inductive Architecture where
  | x86_64
  | aarch64
  | aarch64_be
  | riscv64
  | riscv64gc
  | riscv64imac
  | x86_64h
  | i686
  | arm
  | armv7
  | riscv32
  | riscv32gc
  | wasm32
  | wasm64
  | powerpc64
  | mips64
  | s390x
  | unknown
  | other (name : String)
  deriving DecidableEq, Repr

/-- The names of the real registers of a class, by index. -/
abbrev RegisterLayout := RegisterClass → List String

namespace RegisterLayout

/-- The names `stem0`, `stem1` and so on, with something after the number. -/
def numbered (stem : String) (count : Nat) (ending : String) : List String :=
  (List.range count).map fun index => stem ++ toString index ++ ending

/-- The layout of 64-bit x86. The 64-bit and the 128-bit registers of `xmm` are the same ones. -/
def x86 : RegisterLayout
  | .int32 => ["eax", "ecx", "edx", "ebx", "esp", "ebp", "esi", "edi", "r8d", "r9d", "r10d",
      "r11d", "r12d", "r13d", "r14d", "r15d"]
  | .int64 => ["rax", "rcx", "rdx", "rbx", "rsp", "rbp", "rsi", "rdi", "r8", "r9", "r10", "r11",
      "r12", "r13", "r14", "r15"]
  | .flt64 => numbered "xmm" 16 ""
  | .vec64 => numbered "mm" 8 ""
  | .vec128 => numbered "xmm" 16 ""

/-- The layout of 64-bit Arm. -/
def arm : RegisterLayout
  | .int32 => numbered "w" 31 ""
  | .int64 => numbered "x" 31 ""
  | .flt64 => numbered "d" 32 ""
  | .vec64 => numbered "v" 32 ".8b"
  | .vec128 => numbered "v" 32 ".16b"

/-- The layout of 64-bit RISC-V, which has no narrow integer and no short vector registers. -/
def riscv : RegisterLayout
  | .int32 => []
  | .int64 => numbered "x" 32 ""
  | .flt64 => numbered "f" 32 ""
  | .vec64 => []
  | .vec128 => numbered "v" 32 ""

end RegisterLayout

namespace Architecture

/-- Every architecture that is known. -/
def all : List Architecture :=
  [.x86_64, .aarch64, .aarch64_be, .riscv64, .riscv64gc, .riscv64imac, .x86_64h, .i686, .arm,
    .armv7, .riscv32, .riscv32gc, .wasm32, .wasm64, .powerpc64, .mips64, .s390x, .unknown]

/-- The name of an architecture. -/
def text : Architecture → String
  | .x86_64 => "x86_64"
  | .aarch64 => "aarch64"
  | .aarch64_be => "aarch64_be"
  | .riscv64 => "riscv64"
  | .riscv64gc => "riscv64gc"
  | .riscv64imac => "riscv64imac"
  | .x86_64h => "x86_64h"
  | .i686 => "i686"
  | .arm => "arm"
  | .armv7 => "armv7"
  | .riscv32 => "riscv32"
  | .riscv32gc => "riscv32gc"
  | .wasm32 => "wasm32"
  | .wasm64 => "wasm64"
  | .powerpc64 => "powerpc64"
  | .mips64 => "mips64"
  | .s390x => "s390x"
  | .unknown => "unknown"
  | .other name => name

/-- The known architecture with the given name; `arm64` is another name of `aarch64`. -/
def ofText? (name : String) : Option Architecture :=
  if name = "arm64" then some .aarch64 else all.find? fun arch => arch.text = name

/-- The layout of the real registers, for the architectures that have one. -/
def layout? : Architecture → Option RegisterLayout
  | .x86_64 => some .x86
  | .aarch64 | .aarch64_be => some .arm
  | .riscv64 | .riscv64gc | .riscv64imac => some .riscv
  | _ => none

end Architecture

end RegisterMapping
