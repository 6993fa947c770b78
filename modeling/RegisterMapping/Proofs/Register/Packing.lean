import Mathlib.Data.Nat.Bitwise
import RegisterMapping.Register.Packing

/-!
# Packing and reading back

The fields of a packed register have room for what they hold, so none carries into the next one and
each can be read off by a division (`Register.unpack?_eq_some_iff`). A word with a bit set that
belongs to no field, or with a field that stands for nothing, is refused; since the code of a class
is neither 0 nor 15, the word for no register is not the packed form of one. Packing and reading
back are therefore inverse to each other (`Handle.packing_inverse`).

On words the fields are put together by shifts and taken apart by shifts and masks
(`Handle.shiftedBits`, `Handle.maskedBits?`). That comes to the same, and the index that is masked
out of a word is always one that a register may have.
-/

set_option autoImplicit false

namespace RegisterMapping

theorem RegisterClass.ofCode?_eq_some_iff {code : Nat} {cls : RegisterClass} :
    ofCode? code = some cls ↔ cls.code = code := by
  refine ⟨code_eq_of_ofCode?, ?_⟩
  rintro rfl
  exact ofCode?_code cls

namespace Register

/-! ## Fields of a packed register -/

theorem indexBound_eq : indexBound = 0x800000 := rfl

theorem flagUnit_eq : flagUnit = 0x1000000 := rfl

theorem codeUnit_eq : codeUnit = 0x10000000 := rfl

/-- Each field holds what was put into it, and the bit between the flag and the index is clear. -/
theorem packed_fields (r : Register) :
    r.packed / codeUnit = r.cls.code ∧ r.packed / flagUnit % 16 = r.isVirtual.toNat ∧
      r.packed / indexBound % 2 = 0 ∧ r.packed % indexBound = r.index := by
  have hindex := r.index_lt
  have hflag : r.isVirtual.toNat ≤ 1 := Bool.toNat_le r.isVirtual
  simp only [packed, indexBound_eq, flagUnit_eq, codeUnit_eq] at *
  refine ⟨?_, ?_, ?_, ?_⟩ <;> omega

/-- The least code of a class is 4, and all other fields only add to it. -/
theorem le_packed (r : Register) : 0x10000000 ≤ r.packed := by
  have hcode : 4 ≤ r.cls.code := by cases r.cls <;> decide
  simp only [packed, codeUnit_eq]
  omega

/-- A number is the sum of its fields. -/
theorem eq_fields_sum (n : Nat) :
    n = n / codeUnit * codeUnit + n / flagUnit % 16 * flagUnit +
      n / indexBound % 2 * indexBound + n % indexBound := by
  simp only [indexBound_eq, flagUnit_eq, codeUnit_eq]
  omega

theorem flagOfField?_eq_some_iff {field : Nat} {flag : Bool} :
    flagOfField? field = some flag ↔ flag.toNat = field := by
  cases flag <;> match field with
    | 0 | 1 | _ + 2 => simp [flagOfField?]

/-- A number unpacks to a register exactly if it is the packed form of the register. -/
theorem unpack?_eq_some_iff {n : Nat} {r : Register} : unpack? n = some r ↔ r.packed = n := by
  rw [unpack?]
  simp only [Option.bind_eq_bind, Option.bind_eq_some_iff,
    RegisterClass.ofCode?_eq_some_iff, flagOfField?_eq_some_iff]
  constructor
  · rintro ⟨cls, hcode, flag, hflag, h⟩
    split at h
    · next hclear =>
      obtain rfl := Option.some.inj h
      have hsum := eq_fields_sum n
      rw [hclear, Nat.zero_mul, Nat.add_zero, ← hcode, ← hflag] at hsum
      exact hsum.symm
    · cases h
  · rintro rfl
    obtain ⟨hcode, hflag, hclear, hindex⟩ := r.packed_fields
    refine ⟨r.cls, hcode.symm, r.isVirtual, hflag.symm, ?_⟩
    rw [if_pos hclear]
    exact congrArg some (ext_iff.2 ⟨rfl, rfl, hindex⟩)

end Register

namespace Handle

theorem toNat_toBits_reg (r : Register) : (toBits (reg r)).toNat = r.packed :=
  UInt32.toNat_ofNat_of_lt' (Nat.lt_trans r.packed_lt (by decide))

theorem toBits_reg_ne_invalidBits (r : Register) : toBits (reg r) ≠ invalidBits := by
  rw [ne_eq, ← UInt32.toNat_inj, toNat_toBits_reg]
  exact Nat.ne_of_lt r.packed_lt

/-- A word is read as a handle exactly if it is the packed form of the handle. -/
theorem ofBits?_eq_some_iff {bits : UInt32} {handle : Handle} :
    ofBits? bits = some handle ↔ toBits handle = bits := by
  rw [ofBits?]
  by_cases hbits : bits = invalidBits
  -- The word for no register is read first, and no register has it.
  · subst hbits
    rw [if_pos rfl]
    cases handle with
    | invalid => exact iff_of_true rfl rfl
    | reg r => exact iff_of_false nofun (toBits_reg_ne_invalidBits r)
  · rw [if_neg hbits, Option.map_eq_some_iff]
    simp only [Register.unpack?_eq_some_iff]
    constructor
    · rintro ⟨r, hpacked, rfl⟩
      rw [← UInt32.toNat_inj, toNat_toBits_reg, hpacked]
    · rintro rfl
      cases handle with
      | invalid => exact absurd rfl hbits
      | reg r => exact ⟨r, (toNat_toBits_reg r).symm, rfl⟩

/-! ## Fields of a word -/

/-- The packed form of a handle, its fields shifted into their places. -/
def shiftedBits : Handle → UInt32
  | reg r => UInt32.ofNat r.cls.code <<< 28 ||| UInt32.ofNat r.isVirtual.toNat <<< 24 |||
      UInt32.ofNat r.index
  | invalid => invalidBits

/-- The handle with the given packed form, its fields shifted out and masked. The register is made
with a check of its index. -/
def maskedBits? (bits : UInt32) : Except IndexError (Option Handle) :=
  if bits = invalidBits then
    .ok (some invalid)
  else
    match RegisterClass.ofCode? (bits >>> 28).toNat with
    | none => .ok none
    | some cls =>
      match Register.flagOfField? ((bits >>> 24) &&& 0xF).toNat with
      | none => .ok none
      | some isVirtual =>
        if bits &&& 0x800000 = 0 then
          (Register.make (bits &&& 0x7FFFFF).toNat cls isVirtual).map fun r => some (reg r)
        else
          .ok none

theorem shiftedBits_eq_toBits (handle : Handle) : shiftedBits handle = toBits handle := by
  cases handle with
  | invalid => rfl
  | reg r =>
    have hindex := r.index_lt
    have hcode : r.cls.code ≤ 8 := by cases r.cls <;> decide
    have hflag : r.isVirtual.toNat ≤ 1 := Bool.toNat_le r.isVirtual
    rw [Register.indexBound_eq] at hindex
    have hword : ∀ n : Nat, n < 0x800000 → (UInt32.ofNat n).toNat = n := fun n hn =>
      UInt32.toNat_ofNat_of_lt' (Nat.lt_trans hn (by decide))
    -- Each field is smaller than the place value of the next one, so the alternative is the sum.
    have hcodeField : r.cls.code <<< 28 < 0x100000000 := by omega
    have hflagField : r.isVirtual.toNat <<< 24 < 0x100000000 := by omega
    have hlower : r.isVirtual.toNat <<< 24 + r.index < 0x10000000 := by omega
    rw [← UInt32.toNat_inj, toNat_toBits_reg, shiftedBits, UInt32.toNat_or, UInt32.toNat_or,
      UInt32.toNat_shiftLeft, UInt32.toNat_shiftLeft, hword _ (by omega), hword _ (by omega),
      hword _ hindex]
    calc r.cls.code <<< 28 % 0x100000000 ||| r.isVirtual.toNat <<< 24 % 0x100000000 ||| r.index
      _ = r.cls.code <<< 28 ||| (r.isVirtual.toNat <<< 24 ||| r.index) := by
        rw [Nat.mod_eq_of_lt hcodeField, Nat.mod_eq_of_lt hflagField, Nat.or_assoc]
      _ = r.cls.code <<< 28 + (r.isVirtual.toNat <<< 24 + r.index) := by
        rw [Nat.shiftLeft_add_eq_or_of_lt hlower,
          Nat.shiftLeft_add_eq_or_of_lt (Nat.lt_trans hindex (by decide))]
      _ = r.packed := by
        simp only [Register.packed, Register.flagUnit_eq, Register.codeUnit_eq]
        omega

/-- Masking the bit below the flag tells whether it is clear. -/
theorem masked_eq_zero_iff (bits : UInt32) :
    bits &&& 0x800000 = 0 ↔ bits.toNat / Register.indexBound % 2 = 0 := by
  have hmask : (bits &&& 0x800000).toNat = (bits.toNat.testBit 23).toNat * 0x800000 := by
    rw [UInt32.toNat_and]
    exact Nat.and_two_pow bits.toNat 23
  have hbit : bits.toNat.testBit 23 = decide (bits.toNat / Register.indexBound % 2 = 1) :=
    Nat.testBit_eq_decide_div_mod_eq
  rw [← UInt32.toNat_inj, hmask, hbit]
  rcases Nat.mod_two_eq_zero_or_one (bits.toNat / Register.indexBound) with heven | hodd
  · simp [heven]
  · simp [hodd]

/-- Shifting and masking read the fields that division reads, and the index that is masked out is
in range. -/
theorem maskedBits?_eq_ofBits? (bits : UInt32) : maskedBits? bits = .ok (ofBits? bits) := by
  have hcode : (bits >>> 28).toNat = bits.toNat / Register.codeUnit := by
    rw [UInt32.toNat_shiftRight, Nat.shiftRight_eq_div_pow]
    rfl
  have hflag : ((bits >>> 24) &&& 0xF).toNat = bits.toNat / Register.flagUnit % 16 := by
    rw [UInt32.toNat_and, UInt32.toNat_shiftRight, Nat.shiftRight_eq_div_pow]
    exact Nat.and_two_pow_sub_one_eq_mod _ 4
  have hindex : (bits &&& 0x7FFFFF).toNat = bits.toNat % Register.indexBound := by
    rw [UInt32.toNat_and]
    exact Nat.and_two_pow_sub_one_eq_mod _ 23
  have hrange : bits.toNat % Register.indexBound < Register.indexBound :=
    Nat.mod_lt _ (by decide)
  rw [maskedBits?, ofBits?, Register.unpack?, hcode, hflag, hindex]
  by_cases hbits : bits = invalidBits
  · rw [if_pos hbits, if_pos hbits]
  · rw [if_neg hbits, if_neg hbits]
    cases RegisterClass.ofCode? (bits.toNat / Register.codeUnit) with
    | none => rfl
    | some cls =>
      cases Register.flagOfField? (bits.toNat / Register.flagUnit % 16) with
      | none => rfl
      | some isVirtual =>
        simp only [masked_eq_zero_iff, Register.make, dif_pos hrange]
        by_cases hclear : bits.toNat / Register.indexBound % 2 = 0
        · simp [hclear, Except.map]
        · simp [hclear]

/-! ## Handles and words -/

/-- Packing and reading back are inverse to each other: a word is read as a handle exactly if it is
the packed form of the handle. So no two handles have one packed form, the words that are refused
are those that no handle has, and to read a word by shifts and masks never meets an index that is
out of range. A register is never packed to a small number, nor to the word for no register. -/
theorem packing_inverse :
    (∀ (bits : UInt32) (handle : Handle), ofBits? bits = some handle ↔ toBits handle = bits) ∧
      Function.Injective toBits ∧
      (∀ bits : UInt32, ofBits? bits = none ↔ ∀ handle, toBits handle ≠ bits) ∧
      (∀ bits : UInt32, maskedBits? bits = .ok (ofBits? bits)) ∧
      (∀ handle : Handle, shiftedBits handle = toBits handle) ∧
      ∀ r : Register, 0x10000000 ≤ (toBits (reg r)).toNat ∧ toBits (reg r) ≠ 0xFFFFFFFF := by
  refine ⟨fun bits handle => ofBits?_eq_some_iff, ?_, ?_, maskedBits?_eq_ofBits?,
    shiftedBits_eq_toBits, ?_⟩
  · intro a b h
    have ha : ofBits? (toBits b) = some a := ofBits?_eq_some_iff.2 h
    have hb : ofBits? (toBits b) = some b := ofBits?_eq_some_iff.2 rfl
    exact Option.some.inj (ha.symm.trans hb)
  · intro bits
    rw [Option.eq_none_iff_forall_ne_some]
    simp only [ne_eq, ofBits?_eq_some_iff]
  · intro r
    rw [toNat_toBits_reg]
    exact ⟨r.le_packed, toBits_reg_ne_invalidBits r⟩

/-- A field that stands for nothing, a bit outside the fields, or the code of no class: each is
enough to refuse a word. -/
example :
    [0x42000005, 0x40800005, 0x30000005, 0xF0000005, 0xFFFFFFFE].map ofBits? =
      [none, none, none, none, none] := by
  decide

end Handle

end RegisterMapping
