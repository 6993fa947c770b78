import RegisterMapping.Register.Text

/-!
# Constants of a listing

The text of a number is decimal; underscores in it have no meaning. With its sign it has to lie
in the range of signed 64-bit words, so the least word is written only with a minus sign.
-/

set_option autoImplicit false

namespace RegisterMapping

/-- The value of the text of a number with its sign. -/
def signedValue (negative : Bool) (text : List Char) : Int :=
  let magnitude : Int := decimalValue (text.filter fun c => c ≠ '_')
  if negative then -magnitude else magnitude

/-- The range of signed 64-bit words. -/
def FitsWord (value : Int) : Prop := -0x8000000000000000 ≤ value ∧ value < 0x8000000000000000

instance (value : Int) : Decidable (FitsWord value) :=
  inferInstanceAs (Decidable (_ ∧ _))

/-- The constant that is written as a number with a sign, if it fits. -/
def constant? (negative : Bool) (text : List Char) : Option Int64 :=
  if FitsWord (signedValue negative text) then
    some (Int64.ofInt (signedValue negative text))
  else
    none

theorem toInt_of_constant? {negative : Bool} {text : List Char} {word : Int64}
    (h : constant? negative text = some word) : word.toInt = signedValue negative text := by
  rw [constant?] at h
  split at h
  · next fits =>
    obtain rfl := Option.some.inj h
    exact Int64.toInt_ofInt_of_le fits.1 fits.2
  · cases h

theorem constant?_eq_some_iff {negative : Bool} {text : List Char} {word : Int64} :
    constant? negative text = some word ↔ word.toInt = signedValue negative text := by
  constructor
  · exact toInt_of_constant?
  · intro h
    have fits : FitsWord (signedValue negative text) := by
      rw [← h]
      exact ⟨Int64.le_toInt word, Int64.toInt_lt word⟩
    rw [constant?, if_pos fits, ← h, Int64.ofInt_toInt]

theorem constant?_eq_none_iff {negative : Bool} {text : List Char} :
    constant? negative text = none ↔ ¬ FitsWord (signedValue negative text) := by
  rw [constant?]
  split <;> simp_all

end RegisterMapping
