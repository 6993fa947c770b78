import RegisterMapping.Listing.Number

/-!
# Numbers and registers as they are written

A natural number is written in decimal digits, and `decimalValue` reads the number off them; so
`Register.parse` gives back the register whose text it is given (`Register.parse_text`). A word is
written with its sign in front of the digits of its absolute value, which `signedValue` reads as
the word again, the least word included.
-/

set_option autoImplicit false

namespace RegisterMapping

/-- A character that does not satisfy a condition is not in a text in which all do. -/
theorem not_mem_of_all {p : Char → Bool} {c : Char} {text : List Char} (hc : p c = false)
    (htext : text.all p = true) : c ∉ text := by
  intro hmem
  rw [List.all_eq_true.1 htext c hmem] at hc
  cases hc

/-! ## Digits -/

@[simp]
theorem decimalValue_toDigits (n : Nat) : decimalValue (Nat.toDigits 10 n) = n :=
  Nat.ofDigitChars_ten_toDigits

theorem all_isDigit_toDigits (n : Nat) : (Nat.toDigits 10 n).all Char.isDigit = true :=
  List.all_eq_true.2 fun _ => Nat.isDigit_of_mem_toDigits (by decide) (by decide)

/-- The text of a number starts with a digit. -/
theorem exists_toDigits_eq_cons (n : Nat) :
    ∃ c cs, Nat.toDigits 10 n = c :: cs ∧ c.isDigit = true ∧ cs.all Char.isDigit = true := by
  obtain ⟨c, cs, htext⟩ := List.exists_cons_of_ne_nil (Nat.toDigits_ne_nil (n := n) (b := 10))
  have hdigits := all_isDigit_toDigits n
  rw [htext] at hdigits
  exact ⟨c, cs, htext, Bool.and_eq_true_iff.1 hdigits⟩

/-- No digit is an underscore, so none is dropped. -/
theorem filter_toDigits (n : Nat) :
    ((Nat.toDigits 10 n).filter fun c => c ≠ '_') = Nat.toDigits 10 n := by
  rw [List.filter_eq_self]
  intro c hc
  rw [decide_eq_true_iff]
  rintro rfl
  exact Nat.underscore_not_in_toDigits hc

/-! ## Words -/

theorem signedValue_toDigits (negative : Bool) (n : Nat) :
    signedValue negative (Nat.toDigits 10 n) = if negative then -(n : Int) else n := by
  rw [signedValue, filter_toDigits, decimalValue_toDigits]

/-- A word that is not negative is the value of its digits without a sign. -/
theorem toInt_eq_signedValue_of_nonneg {word : Int64} (h : 0 ≤ word.toInt) :
    word.toInt = signedValue false (Nat.toDigits 10 word.toInt.natAbs) := by
  rw [signedValue_toDigits, if_neg Bool.false_ne_true]
  omega

/-- A negative word is the value of the digits of its absolute value under a minus sign, even
where the absolute value is no word itself. -/
theorem toInt_eq_signedValue_of_neg {word : Int64} (h : word.toInt < 0) :
    word.toInt = signedValue true (Nat.toDigits 10 word.toInt.natAbs) := by
  rw [signedValue_toDigits, if_pos rfl]
  omega

theorem toList_toString_of_nonneg {value : Int} (h : 0 ≤ value) :
    (toString value).toList = Nat.toDigits 10 value.natAbs := by
  have habs : value.toNat = value.natAbs := by omega
  rw [Int.toString_eq_repr, Int.repr_eq_if, if_pos h, habs, Nat.toList_repr]

theorem toList_toString_of_neg {value : Int} (h : value < 0) :
    (toString value).toList = '-' :: Nat.toDigits 10 value.natAbs := by
  have habs : (-value).toNat = value.natAbs := by omega
  rw [Int.toString_eq_repr, Int.repr_eq_if, if_neg (by omega), habs, String.toList_append,
    Nat.toList_repr]
  rfl

/-! ## Registers -/

namespace Register

/-- What follows the percent sign in the text of a register. -/
def tail (r : Register) : List Char :=
  (if r.isVirtual then ['v'] else []) ++ r.cls.letter :: Nat.toDigits 10 r.index

theorem toList_text (r : Register) : r.text.toList = '%' :: r.tail := by
  rw [text, tail]
  cases r.isVirtual <;> simp [Char.toString]

/-- The digits of an index are read as the index. -/
theorem parseIndex_toDigits (r : Register) :
    parseIndex r.cls r.isVirtual (Nat.toDigits 10 r.index) = .ok r := by
  have hlt : decimalValue (Nat.toDigits 10 r.index) < indexBound := by
    rw [decimalValue_toDigits]
    exact r.index_lt
  -- The digits are there and in range, so the register is built from their value.
  rw [parseIndex, if_neg (by simp [-List.all_eq_true, all_isDigit_toDigits]), dif_pos hlt]
  exact congrArg Except.ok (ext_iff.2 ⟨rfl, rfl, decimalValue_toDigits r.index⟩)

theorem parseClass_letter (r : Register) :
    parseClass r.isVirtual (r.cls.letter :: Nat.toDigits 10 r.index) = .ok r := by
  rw [parseClass, RegisterClass.ofLetter?_letter]
  exact parseIndex_toDigits r

/-- What stands between the percent sign and the letter of the class. -/
def marker (isVirtual : Bool) : List Char := if isVirtual then ['v'] else []

/-- Behind the percent sign a `v` is the mark of a virtual register, so the letter of a real one is
not `v`. -/
theorem parse_marked {isVirtual : Bool} {letter : Char} (h : isVirtual = false → letter ≠ 'v')
    (rest : List Char) :
    parse ('%' :: (marker isVirtual ++ letter :: rest)) =
      parseClass isVirtual (letter :: rest) := by
  cases isVirtual with
  | true => rfl
  | false =>
    show parse ('%' :: letter :: rest) = _
    rw [parse]
    intro later heq
    exact h rfl (List.cons.inj heq).1

theorem letter_ne_mark (cls : RegisterClass) : cls.letter ≠ 'v' := by
  cases cls <;> decide

/-- The text of a register reads as the register. -/
theorem parse_text (r : Register) : parse r.text.toList = .ok r := by
  rw [toList_text]
  show parse ('%' :: (marker r.isVirtual ++ r.cls.letter :: Nat.toDigits 10 r.index)) = _
  rw [parse_marked fun _ => letter_ne_mark r.cls]
  exact parseClass_letter r

end Register

end RegisterMapping
