import RegisterMapping.Instr.Text
import RegisterMapping.Proofs.Register.Text

/-!
# Spelling with the names of a bank

Whether a bank contains a register is decided by a count, and its name is looked up by position;
the two agree (`Bank.isSome_nameOf?`).

Names, mnemonics and numbers, and what stands between them in the text of an instruction, make use
of few characters (`isInstrChar`). Any other character in the text comes from the spelling of an
operand (`Instr.not_mem_textWith`), and there only the percent sign does, with which the text form
of a register starts (`Bank.not_mem_spell`). So an instruction whose operands are all spelled by
their names is written without a percent sign (`Instr.named_of_contains`).
-/

set_option autoImplicit false

namespace RegisterMapping

/-! ## Texts without a character -/

/-- The characters that stand in names, mnemonics and numbers, and between operands. -/
def isInstrChar (c : Char) : Bool := c.isAlphanum || ['.', ' ', ',', '[', ']', '+', '-'].contains c

variable {c : Char}

theorem isInstrChar_of_isAlphanum (h : c.isAlphanum = true) : isInstrChar c = true := by
  rw [isInstrChar, h]
  rfl

theorem isInstrChar_of_isDigit (h : c.isDigit = true) : isInstrChar c = true :=
  isInstrChar_of_isAlphanum (by simp [Char.isAlphanum, h])

theorem not_mem_toList_append {a b : String} (ha : c ∉ a.toList) (hb : c ∉ b.toList) :
    c ∉ (a ++ b).toList := by
  rw [String.toList_append, List.mem_append]
  exact not_or.2 ⟨ha, hb⟩

/-- A character that is in no part and not in the separator is not in the whole. -/
theorem not_mem_toList_intercalate {separator : String} {parts : List String}
    (hseparator : c ∉ separator.toList) (h : ∀ part ∈ parts, c ∉ part.toList) :
    c ∉ (separator.intercalate parts).toList := by
  induction parts with
  | nil => simp
  | cons first rest ih =>
    obtain ⟨hfirst, hrest⟩ := List.forall_mem_cons.1 h
    cases rest with
    | nil =>
      rw [String.intercalate_singleton]
      exact hfirst
    | cons second later =>
      rw [String.intercalate_cons_cons]
      exact not_mem_toList_append (not_mem_toList_append hfirst hseparator) (ih hrest)

/-- There are digits in the text of a number, and a sign. -/
theorem not_mem_toDigits (hc : isInstrChar c = false) (n : Nat) : c ∉ Nat.toDigits 10 n := by
  intro hmem
  have hdigit := List.all_eq_true.1 (all_isDigit_toDigits n) c hmem
  exact absurd (isInstrChar_of_isDigit hdigit) (by simp [hc])

theorem not_mem_toString_nat (hc : isInstrChar c = false) (n : Nat) : c ∉ (toString n).toList := by
  rw [Nat.toString_eq_repr, Nat.toList_repr]
  exact not_mem_toDigits hc n

theorem not_mem_toString_int (hc : isInstrChar c = false) (value : Int) :
    c ∉ (toString value).toList := by
  rcases Int.lt_or_le value 0 with hneg | hnonneg
  · rw [toList_toString_of_neg hneg, List.mem_cons]
    refine not_or.2 ⟨?_, not_mem_toDigits hc _⟩
    rintro rfl
    cases hc
  · rw [toList_toString_of_nonneg hnonneg]
    exact not_mem_toDigits hc _

/-! ## Names -/

namespace RegisterLayout

/-- Numbered names hold the characters of their stem and ending, and digits. -/
theorem not_mem_numbered (hc : isInstrChar c = false) {stem ending : String}
    (hstem : stem.toList.all isInstrChar = true) (hending : ending.toList.all isInstrChar = true)
    (count : Nat) : ∀ name ∈ numbered stem count ending, c ∉ name.toList := by
  intro name hmem
  obtain ⟨index, -, rfl⟩ := List.mem_map.1 hmem
  refine not_mem_toList_append (not_mem_toList_append ?_ (not_mem_toString_nat hc index)) ?_
  · exact not_mem_of_all hc hstem
  · exact not_mem_of_all hc hending

theorem not_mem_x86 (hc : isInstrChar c = false) (cls : RegisterClass) :
    ∀ name ∈ x86 cls, c ∉ name.toList := by
  cases cls with
  | int32 =>
    have hall : ∀ name ∈ x86 .int32, name.toList.all isInstrChar = true := by decide
    exact fun name hmem => not_mem_of_all hc (hall name hmem)
  | int64 =>
    have hall : ∀ name ∈ x86 .int64, name.toList.all isInstrChar = true := by decide
    exact fun name hmem => not_mem_of_all hc (hall name hmem)
  | flt64 | vec64 | vec128 => exact not_mem_numbered hc (by decide) (by decide) _

theorem not_mem_arm (hc : isInstrChar c = false) (cls : RegisterClass) :
    ∀ name ∈ arm cls, c ∉ name.toList := by
  cases cls <;> exact not_mem_numbered hc (by decide) (by decide) _

theorem not_mem_riscv (hc : isInstrChar c = false) (cls : RegisterClass) :
    ∀ name ∈ riscv cls, c ∉ name.toList := by
  cases cls with
  | int32 | vec64 => exact List.forall_mem_nil _
  | int64 | flt64 | vec128 => exact not_mem_numbered hc (by decide) (by decide) _

end RegisterLayout

namespace Bank

theorem layout_cases (bank : Bank) :
    bank.layout = .x86 ∨ bank.layout = .arm ∨ bank.layout = .riscv := by
  obtain ⟨arch, layout, hlayout⟩ := bank
  cases arch <;> simp only [Architecture.layout?, Option.some.injEq, reduceCtorEq] at hlayout <;>
    subst hlayout <;> simp

/-- The bank contains exactly the registers that it can name. -/
theorem isSome_nameOf? (bank : Bank) (r : Register) :
    (bank.nameOf? r).isSome = bank.contains r := by
  rw [nameOf?, contains, count]
  cases r.isReal with
  | false => rfl
  | true =>
    by_cases hindex : r.index < (bank.layout r.cls).length
    · rw [if_pos rfl, List.getElem?_eq_getElem hindex, decide_eq_true hindex]
      rfl
    · rw [if_pos rfl, List.getElem?_eq_none (Nat.le_of_not_lt hindex), decide_eq_false hindex]
      rfl

/-- The name of a register is among the names of its class. -/
theorem mem_names_of_nameOf? {bank : Bank} {r : Register} {name : String}
    (h : bank.nameOf? r = some name) : name ∈ bank.names r.cls := by
  rw [nameOf?] at h
  split at h
  · exact List.mem_of_getElem? h
  · cases h

/-- No name has another character in it, in particular not the sign that the text form of a
register starts with. -/
theorem not_mem_of_mem_names (hc : isInstrChar c = false) {bank : Bank} {cls : RegisterClass}
    {name : String} (h : name ∈ bank.names cls) : c ∉ name.toList := by
  rw [names] at h
  rcases bank.layout_cases with hlayout | hlayout | hlayout
  · rw [hlayout] at h
    exact RegisterLayout.not_mem_x86 hc cls name h
  · rw [hlayout] at h
    exact RegisterLayout.not_mem_arm hc cls name h
  · rw [hlayout] at h
    exact RegisterLayout.not_mem_riscv hc cls name h

/-- A register with a name is spelled by it. -/
theorem spell_of_name {bank : Bank} {r : Register} {name : String}
    (h : bank.nameOf? r = some name) : spell (some bank) (.reg r) = name := by
  have hhandle : bank.nameOfHandle? (.reg r) = some name := h
  rw [spell, Option.bind_some, hhandle, Option.getD_some]

/-- What the bank contains is spelled by its name. -/
theorem exists_name_of_contains {bank : Bank} {r : Register} (h : bank.contains r = true) :
    ∃ name, bank.nameOfHandle? (.reg r) = some name ∧ spell (some bank) (.reg r) = name ∧
      '%' ∉ name.toList := by
  rw [← isSome_nameOf?] at h
  obtain ⟨name, hname⟩ := Option.isSome_iff_exists.1 h
  exact ⟨name, hname, spell_of_name hname,
    not_mem_of_mem_names (by decide) (mem_names_of_nameOf? hname)⟩

end Bank

theorem Mnemonic.all_isInstrChar_text (mnemonic : Mnemonic) :
    mnemonic.text.toList.all isInstrChar = true := by
  rcases mnemonic with _ | _ | (_ | _ | _) | _ | _ | _ | _ | _ | _ <;> decide

section Spelling

variable {spell : Handle → String} (hc : isInstrChar c = false)

include hc

theorem Address.not_mem_textWith {address : Address} (h : c ∉ (spell address.base).toList) :
    c ∉ (address.textWith spell).toList := by
  have hopen : c ∉ ("[" ++ spell address.base).toList :=
    not_mem_toList_append (not_mem_of_all hc (by decide)) h
  have hclose : c ∉ "]".toList := not_mem_of_all hc (by decide)
  have hsigned : ∀ sign : String, sign.toList.all isInstrChar = true →
      c ∉ ("[" ++ spell address.base ++ sign ++ toString address.offset.toInt.natAbs ++
        "]").toList := by
    intro sign hsign
    refine not_mem_toList_append (not_mem_toList_append (not_mem_toList_append hopen ?_) ?_) hclose
    · exact not_mem_of_all hc hsign
    · exact not_mem_toString_nat hc _
  rw [textWith]
  split
  · exact not_mem_toList_append hopen hclose
  · split
    · exact hsigned " - " (by decide)
    · exact hsigned " + " (by decide)

/-- Another character in the text of an instruction is one in the spelling of an operand. -/
theorem Instr.not_mem_textWith {inst : Instr}
    (h : ∀ operand ∈ inst.operands, c ∉ (spell operand).toList) :
    c ∉ (inst.textWith spell).toList := by
  have hwritten : ∀ part ∈ inst.writtenOperands spell, c ∉ part.toList := by
    cases inst with
    | li dst imm =>
      have himm := not_mem_toString_int hc imm.toInt
      exact List.forall_mem_cons.2 ⟨h dst List.mem_cons_self, List.forall_mem_singleton.2 himm⟩
    | ld dst address =>
      simp_all [writtenOperands, operands, Address.not_mem_textWith]
    | st src address =>
      simp_all [writtenOperands, operands, Address.not_mem_textWith]
    | mov | alu | neg | fma | cmp | ret => simp_all [writtenOperands, operands]
  rw [textWith]
  refine not_mem_toList_append (not_mem_toList_append ?_ ?_) ?_
  · exact not_mem_of_all hc inst.mnemonic.all_isInstrChar_text
  · exact not_mem_of_all hc (by decide)
  · exact not_mem_toList_intercalate (not_mem_of_all hc (by decide)) hwritten

end Spelling

/-- The text of an instruction depends on the spellings of its operands only. -/
theorem Instr.textWith_congr {spell other : Handle → String} {inst : Instr}
    (h : ∀ operand ∈ inst.operands, spell operand = other operand) :
    inst.textWith spell = inst.textWith other := by
  have hwritten : inst.writtenOperands spell = inst.writtenOperands other := by
    cases inst <;> simp_all [writtenOperands, operands, Address.textWith]
  rw [textWith, textWith, hwritten]

/-- An instruction whose registers the bank contains is written with their names. -/
theorem Instr.named_of_contains {bank : Bank} {inst : Instr}
    (h : ∀ operand ∈ inst.operands, ∃ r, operand = .reg r ∧ bank.contains r = true) :
    (∀ operand ∈ inst.operands, ∃ name, bank.nameOfHandle? operand = some name ∧
      Bank.spell (some bank) operand = name) ∧
    inst.textIn (some bank) =
      inst.textWith (fun operand => (bank.nameOfHandle? operand).getD "") ∧
    '%' ∉ (inst.textIn (some bank)).toList := by
  have hnames : ∀ operand ∈ inst.operands, ∃ name, bank.nameOfHandle? operand = some name ∧
      Bank.spell (some bank) operand = name := by
    intro operand hmem
    obtain ⟨r, rfl, hcontained⟩ := h operand hmem
    obtain ⟨name, hname, hspell, -⟩ := Bank.exists_name_of_contains hcontained
    exact ⟨name, hname, hspell⟩
  refine ⟨hnames, textWith_congr fun operand hmem => ?_, ?_⟩
  · obtain ⟨name, hname, hspell⟩ := hnames operand hmem
    rw [hspell, hname, Option.getD_some]
  · refine not_mem_textWith (by decide) fun operand hmem => ?_
    obtain ⟨r, rfl, hcontained⟩ := h operand hmem
    obtain ⟨name, -, hspell, hsigil⟩ := Bank.exists_name_of_contains hcontained
    rw [hspell]
    exact hsigil

end RegisterMapping
