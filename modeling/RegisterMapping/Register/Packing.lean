import RegisterMapping.Register.Basic

/-!
# Packed handles

A handle fits in 32 bits. Bits 31 to 28 hold the code of the class, bits 27 to 24 the virtual
flag, bit 23 is clear and bits 22 to 0 hold the index. The pattern of all ones stands for the
invalid handle. `Handle.ofBits?` reads the fields back and refuses every pattern that no handle
has.
-/

set_option autoImplicit false

namespace RegisterMapping

namespace Register

/-- The place value of the virtual flag in a packed handle. -/
def flagUnit : Nat := 1 <<< 24

/-- The place value of the class code in a packed handle. -/
def codeUnit : Nat := 1 <<< 28

/-- The packed form of a register, as a number. -/
def packed (r : Register) : Nat :=
  r.cls.code * codeUnit + r.isVirtual.toNat * flagUnit + r.index

/-- The virtual flag that a flag field stands for. -/
def flagOfField? : Nat → Option Bool
  | 0 => some false
  | 1 => some true
  | _ => none

/-- Read the fields of a packed register. The class code, the flag field and the clear bit are
checked; the index is what remains. -/
def unpack? (n : Nat) : Option Register := do
  let cls ← RegisterClass.ofCode? (n / codeUnit)
  let isVirtual ← flagOfField? (n / flagUnit % 16)
  if n / indexBound % 2 = 0 then
    some ⟨cls, isVirtual, n % indexBound, Nat.mod_lt n (by decide)⟩
  else
    none

theorem packed_lt (r : Register) : r.packed < 0xFFFFFFFF := by
  have hi := r.index_lt
  have hc : r.cls.code ≤ 8 := by cases r.cls <;> decide
  have hv : r.isVirtual.toNat ≤ 1 := Bool.toNat_le r.isVirtual
  simp only [packed, indexBound, indexBits, codeUnit, flagUnit] at *
  omega

end Register

namespace Handle

/-- The pattern that stands for the invalid handle. -/
def invalidBits : UInt32 := 0xFFFFFFFF

/-- The packed form of a handle. -/
def toBits : Handle → UInt32
  | reg r => UInt32.ofNat r.packed
  | invalid => invalidBits

/-- The handle with the given packed form, if there is one. -/
def ofBits? (bits : UInt32) : Option Handle :=
  if bits = invalidBits then some invalid else (Register.unpack? bits.toNat).map reg

end Handle

end RegisterMapping
