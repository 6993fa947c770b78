import Mathlib.Logic.ExistsUnique
import RegisterMapping.Proofs.Register.Text

/-!
# Texts of registers, and what is wrong with others

A text form of a register is a percent sign, a `v` if the register is virtual, the letter of its
class and its index in decimal, with as many zeros in front as one likes (`Register.Denotes`). A
text that is no text form has a leftmost fault (`Register.Faulty`): the percent sign is missing,
then the letter, the letter is not one of a class, what follows it is not a number, or the number is
too large. Every text is one or the other, and it is read as what it is (`Register.parse_outcomes`).
-/

set_option autoImplicit false

namespace RegisterMapping

namespace Register

/-- The text consists of one or more decimal digits. -/
def IsNumber (text : List Char) : Prop := text ≠ [] ∧ ∀ c ∈ text, c.isDigit = true

/-- The text is a text form of the register. -/
def Denotes (text : List Char) (r : Register) : Prop :=
  ∃ digits : List Char, text = '%' :: (marker r.isVirtual ++ r.cls.letter :: digits) ∧
    IsNumber digits ∧ decimalValue digits = r.index

/-- What is wrong with a text that is not a text form of a register: its leftmost fault. -/
inductive Faulty : List Char → RegisterSyntaxError → Prop
  | missingSigil {text : List Char} :
      text.head? ≠ some '%' → Faulty text .missingSigil
  | missingClass {isVirtual : Bool} :
      Faulty ('%' :: marker isVirtual) .missingClass
  | unknownClass {isVirtual : Bool} {letter : Char} {rest : List Char} :
      (isVirtual = false → letter ≠ 'v') → (∀ cls : RegisterClass, cls.letter ≠ letter) →
      Faulty ('%' :: (marker isVirtual ++ letter :: rest)) (.unknownClass letter)
  | badIndex {isVirtual : Bool} {cls : RegisterClass} {text : List Char} :
      ¬ IsNumber text →
      Faulty ('%' :: (marker isVirtual ++ cls.letter :: text)) (.badIndex text)
  | indexTooLarge {isVirtual : Bool} {cls : RegisterClass} {digits : List Char} :
      IsNumber digits → indexBound ≤ decimalValue digits →
      Faulty ('%' :: (marker isVirtual ++ cls.letter :: digits)) (.indexTooLarge digits)

variable {text : List Char} {r : Register} {e : RegisterSyntaxError}

/-! ## What is read -/

theorem ofLetter?_eq_none {letter : Char} (h : ∀ cls : RegisterClass, cls.letter ≠ letter) :
    RegisterClass.ofLetter? letter = none :=
  List.find?_eq_none.2 fun cls _ => by simpa using h cls

/-- Behind the letter of a class an index is read. -/
theorem parse_letter (isVirtual : Bool) (cls : RegisterClass) (text : List Char) :
    parse ('%' :: (marker isVirtual ++ cls.letter :: text)) = parseIndex cls isVirtual text := by
  rw [parse_marked fun _ => letter_ne_mark cls, parseClass, RegisterClass.ofLetter?_letter]

/-- What is asked before the value of an index is taken. -/
theorem not_isNumber_iff :
    (text.isEmpty || !text.all Char.isDigit) = true ↔ ¬ IsNumber text := by
  simp [IsNumber, ← Decidable.or_iff_not_imp_left]

theorem parse_of_denotes (h : Denotes text r) : parse text = .ok r := by
  obtain ⟨digits, rfl, hnumber, hvalue⟩ := h
  have hlt : decimalValue digits < indexBound := by
    rw [hvalue]
    exact r.index_lt
  rw [parse_letter, parseIndex, if_neg fun h => not_isNumber_iff.1 h hnumber, dif_pos hlt]
  exact congrArg Except.ok (ext_iff.2 ⟨rfl, rfl, hvalue⟩)

theorem parse_of_faulty (h : Faulty text e) : parse text = .error e := by
  cases h with
  | missingSigil hhead =>
    rw [parse]
    · rintro rest rfl
      exact hhead rfl
    · rintro rest rfl
      exact hhead rfl
  | @missingClass isVirtual => cases isVirtual <;> rfl
  | unknownClass hmark hletter =>
    rw [parse_marked hmark, parseClass, ofLetter?_eq_none hletter]
  | badIndex hbad => rw [parse_letter, parseIndex, if_pos (not_isNumber_iff.2 hbad)]
  | indexTooLarge hnumber hlarge =>
    rw [parse_letter, parseIndex, if_neg fun h => not_isNumber_iff.1 h hnumber,
      dif_neg (Nat.not_lt.2 hlarge)]

/-! ## Every text is one or the other -/

/-- What follows the percent sign: nothing but perhaps the mark of a virtual register, or a letter
behind it. -/
theorem exists_marker (tail : List Char) :
    (∃ isVirtual, tail = marker isVirtual) ∨
      ∃ isVirtual letter rest, tail = marker isVirtual ++ letter :: rest ∧
        (isVirtual = false → letter ≠ 'v') := by
  cases tail with
  | nil => exact .inl ⟨false, rfl⟩
  | cons c rest =>
    by_cases hmark : c = 'v'
    · subst hmark
      cases rest with
      | nil => exact .inl ⟨true, rfl⟩
      | cons letter rest => exact .inr ⟨true, letter, rest, rfl, nofun⟩
    · exact .inr ⟨false, c, rest, rfl, fun _ => hmark⟩

theorem denotes_or_faulty (text : List Char) :
    (∃ r, Denotes text r) ∨ ∃ e, Faulty text e := by
  by_cases hhead : text.head? = some '%'
  · obtain ⟨tail, rfl⟩ := List.head?_eq_some_iff.1 hhead
    rcases exists_marker tail with ⟨isVirtual, rfl⟩ | ⟨isVirtual, letter, rest, rfl, hmark⟩
    · exact .inr ⟨_, .missingClass⟩
    · cases hletter : RegisterClass.ofLetter? letter with
      | none =>
        refine .inr ⟨_, .unknownClass hmark fun cls heq => ?_⟩
        rw [← heq, RegisterClass.ofLetter?_letter] at hletter
        cases hletter
      | some cls =>
        obtain rfl := RegisterClass.letter_eq_of_ofLetter? hletter
        by_cases hnumber : IsNumber rest
        · by_cases hlt : decimalValue rest < indexBound
          · exact .inl ⟨⟨cls, isVirtual, decimalValue rest, hlt⟩, rest, rfl, hnumber, rfl⟩
          · exact .inr ⟨_, .indexTooLarge hnumber (Nat.not_lt.1 hlt)⟩
        · exact .inr ⟨_, .badIndex hnumber⟩
  · exact .inr ⟨_, .missingSigil hhead⟩

theorem parse_eq_ok_iff : parse text = .ok r ↔ Denotes text r := by
  refine ⟨fun h => ?_, parse_of_denotes⟩
  rcases denotes_or_faulty text with ⟨s, hs⟩ | ⟨e, he⟩
  · obtain rfl := Except.ok.inj (h.symm.trans (parse_of_denotes hs))
    exact hs
  · exact nomatch h.symm.trans (parse_of_faulty he)

theorem parse_eq_error_iff : parse text = .error e ↔ Faulty text e := by
  refine ⟨fun h => ?_, parse_of_faulty⟩
  rcases denotes_or_faulty text with ⟨r, hr⟩ | ⟨f, hf⟩
  · exact nomatch h.symm.trans (parse_of_denotes hr)
  · obtain rfl := Except.error.inj (h.symm.trans (parse_of_faulty hf))
    exact hf

/-- A text is read as a register exactly if it is a text form of the register, and refused with a
fault exactly if that is its leftmost one; a text that is no text form has one fault and no other.
What is written for a register is read as the register, and what is written for none is refused. -/
theorem parse_outcomes :
    (∀ (text : List Char) (r : Register), parse text = .ok r ↔ Denotes text r) ∧
      (∀ (text : List Char) (e : RegisterSyntaxError), parse text = .error e ↔ Faulty text e) ∧
      (∀ text : List Char, (∀ r, ¬ Denotes text r) → ∃! e, Faulty text e) ∧
      (∀ r : Register, parse r.text.toList = .ok r) ∧
      parse Handle.invalid.text.toList = .error (.unknownClass 'I') := by
  refine ⟨fun _ _ => parse_eq_ok_iff, fun _ _ => parse_eq_error_iff, ?_, parse_text, rfl⟩
  intro text hnone
  obtain ⟨e, he⟩ := (denotes_or_faulty text).resolve_left (by simpa using hnone)
  refine ⟨e, he, fun f hf => ?_⟩
  exact Except.error.inj ((parse_of_faulty hf).symm.trans (parse_of_faulty he))

/-- Zeros in front of an index do not count, and a sign is not part of a number. -/
example :
    parse "%vR0000000007".toList = .ok ⟨.int64, true, 7, by decide⟩ ∧
      parse "%vR+7".toList = .error (.badIndex ['+', '7']) ∧
      parse "%v7".toList = .error (.unknownClass '7') :=
  ⟨rfl, rfl, rfl⟩

end Register

end RegisterMapping
