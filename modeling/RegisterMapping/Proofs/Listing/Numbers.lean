import Mathlib.Data.Nat.Digits.Defs
import RegisterMapping.Proofs.Listing.Lexing
import RegisterMapping.Proofs.Listing.Simulation

/-!
# Numbers at the limits of words

The text of a number is a digit and then digits and underscores, and its magnitude is the value of
its digits in decimal (`magnitude`). With its sign in front and without underscores it is the text
of a word, which is read digit by digit with a check of the range at every step (`WordText.read?`).
Under a minus sign digits are taken off instead of added, so the least word is read although its
absolute value is no word.

A number that is out of range stays so when digits are put behind it (`fitsWord_of_le`). So the
checks on the way find what one check of the whole value finds (`WordText.pushAll?_eq`), and a
number behind its sign is read as the constant of its value (`WordText.read?_signed`). A number
token is taken in any case; if no word has its value, that is reported at the token and nothing else
changes (`number_outcomes`).
-/

set_option autoImplicit false

namespace RegisterMapping

/-! ## Values -/

/-- The digits of a text as numbers, the last one first. -/
def digitsOf (text : List Char) : List Nat :=
  ((text.filter Char.isDigit).map fun c => c.toNat - '0'.toNat).reverse

/-- The value of the digits of a text in decimal. -/
def magnitude (text : List Char) : Nat := Nat.ofDigits 10 (digitsOf text)

/-- A number with a sign. -/
def withSign (negative : Bool) (n : Nat) : Int := if negative then -(n : Int) else n

@[simp]
theorem withSign_true (n : Nat) : withSign true n = -(n : Int) := rfl

@[simp]
theorem withSign_false (n : Nat) : withSign false n = n := rfl

theorem withSign_add (negative : Bool) (m n : Nat) :
    withSign negative (m + n) = withSign negative m + withSign negative n := by
  cases negative with
  | true =>
    rw [withSign_true, withSign_true, withSign_true]
    omega
  | false => exact Int.natCast_add m n

theorem withSign_mul (negative : Bool) (m n : Nat) :
    withSign negative (m * n) = withSign negative m * n := by
  cases negative <;> simp

theorem decimalValue_eq_ofDigits (digits : List Char) :
    decimalValue digits =
      Nat.ofDigits 10 (digits.map fun c => c.toNat - '0'.toNat).reverse := by
  induction digits with
  | nil => rfl
  | cons c digits ih =>
    rw [decimalValue] at ih ⊢
    rw [Nat.ofDigitChars_cons, Nat.ofDigitChars_eq_ofDigitChars_zero, ih, List.map_cons,
      Nat.ofDigits_reverse_cons, List.length_map, Nat.mul_zero, Nat.zero_add, Nat.add_comm]

/-- Zeros in front do not count. -/
theorem magnitude_zeros_append (zeros : Nat) (text : List Char) :
    magnitude (List.replicate zeros '0' ++ text) = magnitude text := by
  have hdigits : digitsOf (List.replicate zeros '0' ++ text) =
      digitsOf text ++ List.replicate zeros 0 := by
    simp [digitsOf]
  rw [magnitude, hdigits, Nat.ofDigits_append_replicate_zero, magnitude]

namespace Lexeme.Rule

variable {text : List Char}

theorem all_isNumberChar (h : Rule (some .number) text) : text.all isNumberChar = true := by
  cases h with
  | number hc htail =>
    rw [List.all_cons, htail, Bool.and_true, isNumberChar, hc, Bool.true_or]

theorem zeros_append (h : Rule (some .number) text) (zeros : Nat) :
    Rule (some .number) (List.replicate zeros '0' ++ text) := by
  cases zeros with
  | zero => exact h
  | succ zeros =>
    have htail : (List.replicate zeros '0' ++ text).all isNumberChar = true := by
      rw [List.all_append, h.all_isNumberChar, List.all_replicate]
      simp [isNumberChar]
    exact .number (by decide) htail

/-- Without its underscores a number is a digit and then digits. -/
theorem exists_digits (h : Rule (some .number) text) :
    ∃ c digits, (text.filter fun c => c ≠ '_') = c :: digits ∧
      text.filter Char.isDigit = c :: digits ∧ (c :: digits).all Char.isDigit = true := by
  have hfilter : (text.filter fun c => c ≠ '_') = text.filter Char.isDigit := by
    refine List.filter_congr fun d hd => ?_
    have hnumber := List.all_eq_true.1 h.all_isNumberChar d hd
    by_cases hscore : d = '_'
    · subst hscore
      rfl
    · rw [isNumberChar, decide_eq_false hscore, Bool.or_false] at hnumber
      rw [hnumber, decide_eq_true hscore]
  cases h with
  | @number c tail hc _ =>
    have hdigits := List.filter_cons_of_pos (l := tail) hc
    exact ⟨c, _, hfilter.trans hdigits, hdigits, by simp [hc]⟩

/-- The value that is read is the magnitude with its sign, since all characters of a number token
but underscores are digits. -/
theorem signedValue_eq (h : Rule (some .number) text) (negative : Bool) :
    signedValue negative text = withSign negative (magnitude text) := by
  obtain ⟨c, digits, hfilter, hdigits, -⟩ := h.exists_digits
  show withSign negative (decimalValue (text.filter fun c => c ≠ '_')) = _
  rw [magnitude, digitsOf, hdigits, hfilter, decimalValue_eq_ofDigits]

end Lexeme.Rule

/-! ## Words, digit by digit -/

theorem exists_toInt_eq_iff {value : Int} :
    (∃ word : Int64, word.toInt = value) ↔ FitsWord value := by
  constructor
  · rintro ⟨word, rfl⟩
    exact ⟨Int64.le_toInt word, Int64.toInt_lt word⟩
  · intro fits
    exact ⟨Int64.ofInt value, Int64.toInt_ofInt_of_le fits.1 fits.2⟩

/-- Of two numbers with one sign the greater one is further out. -/
theorem fitsWord_of_le {negative : Bool} {m n : Nat} (hle : m ≤ n)
    (h : FitsWord (withSign negative n)) : FitsWord (withSign negative m) := by
  cases negative <;> simp only [FitsWord, withSign_true, withSign_false] at h ⊢ <;> omega

namespace WordText

/-- The word of a value, if there is one. -/
def ofInt? (value : Int) : Option Int64 :=
  if FitsWord value then some (Int64.ofInt value) else none

/-- Put a digit behind a word: ten times the word, and then the digit is added, or taken off under a
minus sign. Neither step may leave the range. -/
def push? (negative : Bool) (word : Int64) (c : Char) : Option Int64 :=
  if c.isDigit then do
    let shifted ← ofInt? (word.toInt * 10)
    ofInt? (shifted.toInt + withSign negative (c.toNat - '0'.toNat))
  else
    none

/-- Put digits behind a word, one after the other. -/
def pushAll? (negative : Bool) : Int64 → List Char → Option Int64
  | word, [] => some word
  | word, c :: rest => do
    let next ← push? negative word c
    pushAll? negative next rest

/-- Read the text of a word: digits, perhaps with a sign in front. -/
def read? : List Char → Option Int64
  | [] => none
  | ['+'] => none
  | ['-'] => none
  | '+' :: digits => pushAll? false 0 digits
  | '-' :: digits => pushAll? true 0 digits
  | digits => pushAll? false 0 digits

/-- A sign and the text of a number as one text without underscores. -/
def signed (negative : Bool) (text : List Char) : List Char :=
  (if negative then ['-'] else []) ++ text.filter fun c => c ≠ '_'

theorem ofInt?_eq_some_iff {value : Int} {word : Int64} :
    ofInt? value = some word ↔ word.toInt = value := by
  constructor
  · intro h
    rw [ofInt?] at h
    split at h
    · next fits =>
      obtain rfl := Option.some.inj h
      exact Int64.toInt_ofInt_of_le fits.1 fits.2
    · cases h
  · rintro rfl
    rw [ofInt?, if_pos (exists_toInt_eq_iff.1 ⟨word, rfl⟩), Int64.ofInt_toInt]

theorem ofInt?_eq_none_iff {value : Int} : ofInt? value = none ↔ ¬ FitsWord value := by
  rw [ofInt?]
  split <;> simp_all

variable {negative : Bool} {word : Int64} {n : Nat}

/-- A digit is put behind a word exactly if the number that they make is in range. -/
theorem push?_eq {c : Char} (hc : c.isDigit = true) (hword : word.toInt = withSign negative n) :
    push? negative word c = ofInt? (withSign negative (10 * n + (c.toNat - '0'.toNat))) := by
  have hten : word.toInt * 10 = withSign negative (10 * n) := by
    rw [hword, Nat.mul_comm]
    exact (withSign_mul negative n 10).symm
  rw [push?, if_pos hc, hten]
  cases hshifted : ofInt? (withSign negative (10 * n)) with
  | none =>
    -- Ten times the word is out of range already, and the digit leads further out.
    refine (ofInt?_eq_none_iff.2 fun hfits => ?_).symm
    exact ofInt?_eq_none_iff.1 hshifted (fitsWord_of_le (Nat.le_add_right _ _) hfits)
  | some shifted =>
    rw [withSign_add, ← ofInt?_eq_some_iff.1 hshifted]
    rfl

/-- Digits are put behind a word exactly if the number that they all make is in range. -/
theorem pushAll?_eq {digits : List Char} (hdigits : digits.all Char.isDigit = true)
    (hword : word.toInt = withSign negative n) :
    pushAll? negative word digits =
      ofInt? (withSign negative (Nat.ofDigitChars 10 digits n)) := by
  induction digits generalizing word n with
  | nil => exact (ofInt?_eq_some_iff.2 hword).symm
  | cons c digits ih =>
    obtain ⟨hc, hdigits⟩ := Bool.and_eq_true_iff.1 hdigits
    rw [pushAll?, push?_eq hc hword, Nat.ofDigitChars_cons]
    cases hnext : ofInt? (withSign negative (10 * n + (c.toNat - '0'.toNat))) with
    | some next => exact ih hdigits (ofInt?_eq_some_iff.1 hnext)
    | none =>
      -- The reading stops here, and the digits that are left would not lead back into the range.
      refine (ofInt?_eq_none_iff.2 fun hfits => ?_).symm
      refine ofInt?_eq_none_iff.1 hnext (fitsWord_of_le ?_ hfits)
      rw [Nat.ofDigitChars_eq_ofDigitChars_zero]
      exact (Nat.le_mul_of_pos_left _ (Nat.pow_pos (by decide))).trans (Nat.le_add_right _ _)

/-- A text that starts with a digit has no sign. -/
theorem read?_digit {c : Char} (hc : c.isDigit = true) (digits : List Char) :
    read? (c :: digits) = pushAll? false 0 (c :: digits) := by
  have hne {d : Char} (hd : d.isDigit = false) : c ≠ d := by
    rintro rfl
    exact Bool.false_ne_true (hd.symm.trans hc)
  rw [read?]
  · simp
  · exact fun h => hne rfl (List.cons.inj h).1
  · exact fun h => hne rfl (List.cons.inj h).1
  · exact fun _ h => hne rfl (List.cons.inj h).1
  · exact fun _ h => hne rfl (List.cons.inj h).1

/-- A number behind its sign is read, digit by digit, as the constant of its value. -/
theorem read?_signed {text : List Char} (h : Lexeme.Rule (some .number) text) (negative : Bool) :
    read? (signed negative text) = constant? negative text := by
  obtain ⟨c, digits, hfilter, -, hall⟩ := h.exists_digits
  show _ = ofInt? (withSign negative (decimalValue (text.filter fun c => c ≠ '_')))
  rw [signed, hfilter, decimalValue]
  cases negative with
  | true => exact pushAll?_eq hall rfl
  | false => exact (read?_digit (Bool.and_eq_true_iff.1 hall).1 digits).trans (pushAll?_eq hall rfl)

/-- The least word is read digit by digit, and its absolute value is not. -/
example :
    read? "-9223372036854775808".toList = some Int64.minValue ∧
      read? "9223372036854775808".toList = none := by
  decide

end WordText

/-! ## Number tokens -/

/-- What is reported about a number that is no word. -/
def numberFault (token : Token) : Diagnostic := ⟨.numberTooLarge token.text, token.span⟩

/-- What becomes of a number token behind a sign, wherever it stands. In its line and by position
the token is taken and nothing behind it, `word?` is given and `diagnostics` are reported; and
`word?` is what the sign and the digits are read as, digit by digit. -/
structure FindsNumber (negative : Bool) (token : Token) (word? : Option Int64)
    (diagnostics : List Diagnostic) : Prop where
  line : ∀ (context : LineContext) (last : Span) (rest : List Token),
    LineReader.number negative context ⟨last, token :: rest⟩ =
      ⟨diagnostics, word?.map fun word => (word, ⟨token.span, rest⟩)⟩
  pass : ∀ (input : ParserInput) (state : ParserState),
    input.tokens[state.position]? = some token →
    PositionParser.number negative input state = .ok (word?, { state with
      position := state.position + 1
      diagnostics := state.diagnostics ++ diagnostics })
  spelled : WordText.read? (WordText.signed negative token.text) = word?

/-- What is reported if a number gives the word, or gives none. -/
def numberFaults (token : Token) : Option Int64 → List Diagnostic
  | some _ => []
  | none => [numberFault token]

section Tokens

variable {negative : Bool} {token : Token}

theorem LineReader.number_eq (hkind : token.kind = .number) (context : LineContext) (last : Span)
    (rest : List Token) :
    number negative context ⟨last, token :: rest⟩ =
      ⟨numberFaults token (constant? negative token.text),
        (constant? negative token.text).map fun word => (word, ⟨token.span, rest⟩)⟩ := by
  have htake := take_cons_of_kind hkind context last rest
  rw [number, bind_of_value (by rw [htake]), htake]
  cases constant? negative token.text with
  | some word => rfl
  | none => rfl

theorem PositionParser.number_eq (hkind : token.kind = .number) {input : ParserInput}
    {state : ParserState} (hnext : input.tokens[state.position]? = some token) :
    number negative input state = .ok (constant? negative token.text, { state with
      position := state.position + 1
      diagnostics := state.diagnostics ++
        numberFaults token (constant? negative token.text) }) := by
  have hexpect : expect .number input state =
      .ok (some token, { state with position := state.position + 1 }) := by
    rw [expect, peek_bind hnext]
    simp only [hkind, if_true]
    rfl
  rw [number, bind_of_ok hexpect]
  cases constant? negative token.text with
  | some word =>
    rw [numberFaults, List.append_nil]
    rfl
  | none => rfl

/-- A number is taken as the constant of its value. -/
theorem findsNumber_constant? (hkind : token.kind = .number)
    (htext : Lexeme.Rule (some .number) token.text) :
    FindsNumber negative token (constant? negative token.text)
      (numberFaults token (constant? negative token.text)) where
  line := LineReader.number_eq hkind
  pass := fun _ _ => PositionParser.number_eq hkind
  spelled := WordText.read?_signed htext negative

theorem findsNumber_iff (hkind : token.kind = .number)
    (htext : Lexeme.Rule (some .number) token.text) {word? : Option Int64} :
    FindsNumber negative token word? (numberFaults token word?) ↔
      constant? negative token.text = word? := by
  constructor
  · intro h
    rw [← WordText.read?_signed htext, h.spelled]
  · rintro rfl
    exact findsNumber_constant? hkind htext

theorem findsNumber_word_iff (hkind : token.kind = .number)
    (htext : Lexeme.Rule (some .number) token.text) {word : Int64} :
    FindsNumber negative token (some word) [] ↔
      word.toInt = withSign negative (magnitude token.text) := by
  rw [← htext.signedValue_eq, ← constant?_eq_some_iff]
  exact findsNumber_iff hkind htext

/-- A number is reported exactly if it is no word with its sign. -/
theorem findsNumber_none_iff (hkind : token.kind = .number)
    (htext : Lexeme.Rule (some .number) token.text) :
    FindsNumber negative token none [numberFault token] ↔
      ¬ FitsWord (withSign negative (magnitude token.text)) := by
  rw [← htext.signedValue_eq, ← constant?_eq_none_iff]
  exact findsNumber_iff hkind htext

end Tokens

/-- A number token behind a sign, with as many digits and underscores as one likes, is taken. If its
value with its sign is in the range of words, then the word of that value is given and nothing is
reported, and otherwise no word is given and one diagnostic with code `EL05` is reported at the
token. So the absolute value of the least word is accepted under a minus sign only, zero has no
sign, and zeros in front do not count. -/
theorem number_outcomes {token : Token} (hkind : token.kind = .number)
    (htext : Lexeme.Rule (some .number) token.text) :
    (∀ negative : Bool,
      (∀ word : Int64, FindsNumber negative token (some word) [] ↔
        word.toInt = withSign negative (magnitude token.text)) ∧
      ((∃ word, FindsNumber negative token (some word) []) ↔
        FitsWord (withSign negative (magnitude token.text))) ∧
      (FindsNumber negative token none [numberFault token] ↔
        ¬ FitsWord (withSign negative (magnitude token.text)))) ∧
    ((numberFault token).code = "EL05" ∧ (numberFault token).labels = [⟨true, token.span, ""⟩]) ∧
    (magnitude token.text = 0x8000000000000000 →
      FindsNumber true token (some Int64.minValue) [] ∧
        FindsNumber false token none [numberFault token]) ∧
    (magnitude token.text = 0 → ∀ negative, FindsNumber negative token (some 0) []) ∧
    (∀ (zeros : Nat) (negative : Bool) (word : Int64),
      FindsNumber negative { token with text := List.replicate zeros '0' ++ token.text }
        (some word) [] ↔ FindsNumber negative token (some word) []) := by
  refine ⟨fun negative => ⟨fun word => findsNumber_word_iff hkind htext, ?_,
    findsNumber_none_iff hkind htext⟩, ⟨rfl, rfl⟩, ?_, ?_, ?_⟩
  · simp only [findsNumber_word_iff hkind htext]
    exact exists_toInt_eq_iff
  · intro hleast
    rw [findsNumber_word_iff hkind htext, findsNumber_none_iff hkind htext, hleast]
    exact ⟨rfl, by decide⟩
  · intro hzero negative
    rw [findsNumber_word_iff hkind htext, hzero]
    cases negative <;> rfl
  · intro zeros negative word
    have hpadded := @findsNumber_word_iff negative
      { token with text := List.replicate zeros '0' ++ token.text } hkind
      (htext.zeros_append zeros) word
    rw [hpadded, findsNumber_word_iff hkind htext, magnitude_zeros_append]

/-- The least word in a source text, with underscores and with a zero in front. -/
theorem number_outcomes_sample :
    let token : Token := ⟨.number, "0_9_223_372_036_854_775_808".toList, ⟨0, 10, 37⟩⟩
    token ∈ Token.scan 0 0 "li %vR0, -0_9_223_372_036_854_775_808".toList ∧
      token.kind = .number ∧ Lexeme.Rule (some .number) token.text ∧
      magnitude token.text = 0x8000000000000000 ∧
      FindsNumber true token (some Int64.minValue) [] ∧
      FindsNumber false token none [numberFault token] := by
  intro token
  have hscan : token ∈ Token.scan 0 0 "li %vR0, -0_9_223_372_036_854_775_808".toList := by
    decide +kernel
  have htext : Lexeme.Rule (some .number) token.text := .number rfl rfl
  have hleast : magnitude token.text = 0x8000000000000000 := by decide
  exact ⟨hscan, rfl, htext, hleast, (number_outcomes rfl htext).2.2.1 hleast⟩

end RegisterMapping
