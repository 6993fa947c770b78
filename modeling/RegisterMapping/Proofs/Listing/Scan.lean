import RegisterMapping.Proofs.Listing.Grammar
import RegisterMapping.Proofs.Register.Text

/-!
# Cutting written text into tokens

How `Token.scan` cuts a text of which only the front is known. `Cut` says that the front is cut
into certain tokens, which reach from its first character to its last, whatever stands behind it;
cuts that stand side by side, or with a blank between them, are one cut (`Cut.append`,
`Cut.append_spaced`). A word ends where a character follows that cannot continue it, which is
`WordEnds`.
-/

set_option autoImplicit false

namespace RegisterMapping

/-! ## Lengths -/

@[simp]
theorem byteLength_append (a b : List Char) :
    byteLength (a ++ b) = byteLength a + byteLength b := by
  induction a with
  | nil => simp [byteLength]
  | cons c a ih => simp [byteLength, ih, Nat.add_assoc]

/-- The length of a string in bytes is that of its characters. -/
theorem byteLength_toList (s : String) : byteLength s.toList = s.utf8ByteSize := by
  -- The induction is on characters, so the string is taken apart into them first.
  have hlist : ∀ cs : List Char, byteLength cs = (String.ofList cs).utf8ByteSize := by
    intro cs
    induction cs with
    | nil => rfl
    | cons c cs ih =>
      rw [byteLength, ih, ← List.singleton_append, String.ofList_append, String.utf8ByteSize_append,
        ← String.singleton_eq_ofList, String.utf8ByteSize_singleton]
  rw [hlist, String.ofList_toList]

theorem frontLength_cons_of_pos {p : Char → Bool} {c : Char} {text : List Char} (h : p c = true) :
    frontLength p (c :: text) = frontLength p text + 1 := by
  simp [frontLength, h]

/-- A text that does not start with a character of the kind has an empty front. -/
theorem frontLength_eq_zero {p : Char → Bool} {text : List Char}
    (h : ∀ c ∈ text.head?, p c = false) : frontLength p text = 0 := by
  cases text with
  | nil => rfl
  | cons c text => simp [frontLength, h c rfl]

/-- The front of a kind of character ends where one of another kind follows. -/
theorem frontLength_append {p : Char → Bool} {text rest : List Char} (htext : text.all p = true)
    (hrest : ∀ c ∈ rest.head?, p c = false) : frontLength p (text ++ rest) = text.length := by
  induction text with
  | nil => exact frontLength_eq_zero hrest
  | cons c text ih =>
    obtain ⟨hc, htext⟩ := Bool.and_eq_true_iff.1 htext
    rw [List.cons_append, frontLength_cons_of_pos hc, ih htext, List.length_cons]

/-! ## Steps of the scan -/

theorem isWordChar_of_isDigit {c : Char} (h : c.isDigit = true) : isWordChar c = true := by
  simp [isWordChar, Char.isAlphanum, h]

/-- A letter or a digit starts nothing that is passed over, and no register. -/
theorem front_of_isAlphanum {c : Char} (h : c.isAlphanum = true) :
    isBlank c = false ∧ c ≠ '#' ∧ c ≠ '%' := by
  refine ⟨?_, ?_, ?_⟩
  · cases hc : isBlank c with
    | false => rfl
    | true =>
      simp only [isBlank, Bool.or_eq_true, decide_eq_true_iff] at hc
      obtain (rfl | rfl) | rfl := hc <;> cases h
  · rintro rfl
    cases h
  · rintro rfl
    cases h

namespace Lexeme

/-- A letter starts a name, which goes on through the word. -/
theorem first_letter {c : Char} {rest : List Char} (h : c.isAlpha = true) :
    first c rest = .token .name (frontLength isWordChar rest) := by
  obtain ⟨hblank, hhash, hpercent⟩ :=
    front_of_isAlphanum (c := c) (by simp [Char.isAlphanum, h])
  rw [first, hblank, if_neg Bool.false_ne_true, if_neg hhash, if_neg hpercent, if_pos h]

/-- A digit starts a number, which goes on through digits and underscores. -/
theorem first_digit {c : Char} {rest : List Char} (h : c.isDigit = true) :
    first c rest = .token .number (frontLength isNumberChar rest) := by
  obtain ⟨hblank, hhash, hpercent⟩ :=
    front_of_isAlphanum (c := c) (by simp [Char.isAlphanum, h])
  -- The ranges of the codes of letters and digits lie apart.
  have halpha : ¬ c.isAlpha = true := by
    have hletter : c.isAlpha = (decide (c.val ≥ 65 ∧ c.val ≤ 90) ||
        (decide (c.val ≥ 97) && decide (c.val ≤ 122))) := rfl
    have hdigit : c.isDigit = (decide (c.val ≥ 48) && decide (c.val ≤ 57)) := rfl
    rw [hdigit] at h
    rw [hletter]
    grind
  rw [first, hblank, if_neg Bool.false_ne_true, if_neg hhash, if_neg hpercent, if_neg halpha,
    if_pos h]

end Lexeme

namespace Token

/-- Where a token of `cs.length` characters after its first starts, it is cut off. -/
theorem scan_token {file offset : Nat} {c : Char} {cs rest : List Char} {kind : TokenKind}
    (h : Lexeme.first c (cs ++ rest) = .token kind cs.length) :
    scan file offset (c :: (cs ++ rest)) =
      ⟨kind, c :: cs, ⟨file, offset, offset + byteLength (c :: cs)⟩⟩ ::
        scan file (offset + byteLength (c :: cs)) rest := by
  rw [scan, h]
  simp [Lexeme.token]

/-- A stretch of text that is passed over as a whole. -/
theorem scan_skipped {file offset : Nat} {c : Char} {cs rest : List Char}
    (h : Lexeme.first c (cs ++ rest) = .skipped cs.length) :
    scan file offset (c :: cs ++ rest) = scan file (offset + byteLength (c :: cs)) rest := by
  rw [List.cons_append, scan, h]
  simp [Lexeme.skipped]

/-- A blank is passed over, and no more than that needs to be known of what follows it. -/
theorem scan_blank {c : Char} (hc : isBlank c = true) (file offset : Nat) (text : List Char) :
    scan file offset (c :: text) = scan file (offset + c.utf8Size) text := by
  -- A run of blanks is passed over as a whole.
  have hstep : ∀ (c : Char) (offset : Nat) (text : List Char), isBlank c = true →
      scan file offset (c :: text) =
        scan file (offset + byteLength (c :: text.take (frontLength isBlank text)))
          (text.drop (frontLength isBlank text)) := by
    intro c offset text hc
    rw [scan, Lexeme.first, if_pos hc]
    rfl
  rw [hstep c offset text hc]
  -- If a blank follows, then it starts a run of blanks that ends where this one does.
  cases text with
  | nil => rfl
  | cons d text =>
    cases hd : isBlank d with
    | true =>
      rw [hstep d (offset + c.utf8Size) text hd, frontLength_cons_of_pos hd]
      simp only [List.take_succ_cons, List.drop_succ_cons, byteLength, ← Nat.add_assoc]
    | false =>
      rw [frontLength_eq_zero (by simpa using hd)]
      rfl

end Token

/-! ## Tokens in a row -/

/-- The tokens stand in a row, without overlap, and reach from byte `start` to byte `stop`. -/
inductive Row (file : Nat) : Nat → Nat → List Token → Prop
  | last {token : Token} {start stop : Nat} :
      token.span = ⟨file, start, stop⟩ → start ≤ stop → Row file start stop [token]
  | cons {token : Token} {rest : List Token} {start middle next stop : Nat} :
      token.span = ⟨file, start, middle⟩ → start ≤ middle → middle ≤ next →
      Row file next stop rest → Row file start stop (token :: rest)

namespace Row

variable {file start stop next last : Nat} {tokens later : List Token}

/-- Rows side by side, or with a gap between them, are one row. -/
theorem append (h : Row file start stop tokens) (hnext : stop ≤ next)
    (hlater : Row file next last later) : Row file start last (tokens ++ later) := by
  induction h with
  | last hspan hle => exact .cons hspan hle hnext hlater
  | cons hspan hle hmiddle _ ih => exact .cons hspan hle hmiddle (ih hnext)

/-- The last span ends where the row ends, and starts nowhere before the row. -/
theorem lastSpan_eq (h : Row file start stop tokens) (before : Span) :
    ∃ middle, start ≤ middle ∧ middle ≤ stop ∧ lastSpan before tokens = ⟨file, middle, stop⟩ := by
  induction h generalizing before with
  | last hspan hle => exact ⟨_, Nat.le_refl _, hle, hspan⟩
  | @cons token _ _ _ _ _ _ hle hnext _ ih =>
    obtain ⟨middle, hstart, hstop, hlast⟩ := ih token.span
    exact ⟨middle, by omega, hstop, hlast⟩

/-- The span of a row of tokens is that of the row: the last token starts no earlier than the first
and ends no earlier than it. -/
theorem phraseSpan?_eq (h : Row file start stop tokens) :
    phraseSpan? tokens = some ⟨file, start, stop⟩ := by
  cases h with
  | last hspan hle => simp [phraseSpan?, lastSpan, hspan, Span.cover]
  | @cons token _ _ _ _ _ hspan hle hnext hrest =>
    obtain ⟨middle, hstart, hstop, hlast⟩ := hrest.lastSpan_eq token.span
    rw [phraseSpan?, hlast, hspan]
    simp only [Span.cover, Option.some.injEq, Span.mk.injEq, true_and]
    omega

end Row

/-! ## Words -/

theorem all_isWordChar_toDigits (n : Nat) : (Nat.toDigits 10 n).all isWordChar = true :=
  List.all_eq_true.2 fun c hc =>
    isWordChar_of_isDigit (List.all_eq_true.1 (all_isDigit_toDigits n) c hc)

/-- Behind its percent sign a register is written in word characters only. -/
theorem Register.all_isWordChar_tail (r : Register) : r.tail.all isWordChar = true := by
  have hindex := List.all_eq_true.1 (all_isWordChar_toDigits r.index)
  have hletter : isWordChar r.cls.letter = true := by cases r.cls <;> rfl
  rw [List.all_eq_true, Register.tail]
  intro c hc
  rw [List.mem_append, List.mem_cons] at hc
  obtain hmark | rfl | hdigit := hc
  · split at hmark
    · obtain rfl := List.mem_singleton.1 hmark
      rfl
    · cases hmark
  · exact hletter
  · exact hindex c hdigit

/-- A mnemonic starts with a letter and goes on in word characters. -/
theorem Mnemonic.exists_letters (m : Mnemonic) :
    ∃ c cs, m.text.toList = c :: cs ∧ c.isAlpha = true ∧ cs.all isWordChar = true := by
  cases m with
  | alu op => cases op <;> exact ⟨_, _, rfl, rfl, rfl⟩
  | _ => exact ⟨_, _, rfl, rfl, rfl⟩

/-! ## Cuts -/

/-- In front of `rest`, the text at byte `offset` is cut into the tokens. -/
structure Cut (file offset : Nat) (text rest : List Char) (tokens : List Token) : Prop where
  scan_eq : Token.scan file offset (text ++ rest) =
    tokens ++ Token.scan file (offset + byteLength text) rest
  row : Row file offset (offset + byteLength text) tokens

namespace Cut

variable {file offset : Nat} {a b rest : List Char} {s t : List Token}

/-- Two cuts side by side are one cut. -/
theorem append (ha : Cut file offset a (b ++ rest) s)
    (hb : Cut file (offset + byteLength a) b rest t) : Cut file offset (a ++ b) rest (s ++ t) where
  scan_eq := by
    rw [List.append_assoc, ha.scan_eq, hb.scan_eq, List.append_assoc, byteLength_append,
      Nat.add_assoc]
  row := by
    rw [byteLength_append, ← Nat.add_assoc]
    exact ha.row.append (Nat.le_refl _) hb.row

/-- Two cuts with a blank between them are one cut, as the blank is passed over. -/
theorem append_spaced (ha : Cut file offset a (' ' :: (b ++ rest)) s)
    (hb : Cut file (offset + byteLength a + 1) b rest t) :
    Cut file offset (a ++ ' ' :: b) rest (s ++ t) := by
  have hblank : ' '.utf8Size = 1 := rfl
  have hlength : offset + byteLength (a ++ ' ' :: b) =
      offset + byteLength a + 1 + byteLength b := by
    simp only [byteLength_append, byteLength, hblank, Nat.add_assoc]
  constructor
  · rw [hlength, List.append_assoc, List.cons_append, ha.scan_eq, Token.scan_blank rfl, hblank,
      hb.scan_eq, List.append_assoc]
  · rw [hlength]
    exact ha.row.append (Nat.le_succ _) hb.row

end Cut

/-! ## Written phrases -/

/-- No word and no number that stands in front of the text goes on into it. -/
def WordEnds (rest : List Char) : Prop := ∀ c ∈ rest.head?, isWordChar c = false

theorem wordEnds_nil : WordEnds [] := by simp [WordEnds]

theorem wordEnds_cons {c : Char} {rest : List Char} (h : isWordChar c = false) :
    WordEnds (c :: rest) := by
  simpa [WordEnds] using h

/-- In front of `rest`, the text is cut into a phrase, wherever it stands. -/
def Written (rest text : List Char) (phrase : List Token → Prop) : Prop :=
  ∀ file offset, ∃ tokens, Cut file offset text rest tokens ∧ phrase tokens

/-- A phrase of one token. -/
def Lone (p : Token → Prop) (tokens : List Token) : Prop := ∃ token, tokens = [token] ∧ p token

theorem lone_singleton {p : Token → Prop} {token : Token} : Lone p [token] ↔ p token := by
  simp [Lone]

namespace Written

variable {a b rest : List Char} {P Q R : List Token → Prop}

theorem mono (h : Written rest a P) (himp : ∀ {tokens}, P tokens → Q tokens) :
    Written rest a Q := by
  intro file offset
  obtain ⟨tokens, hcut, hphrase⟩ := h file offset
  exact ⟨tokens, hcut, himp hphrase⟩

/-- Two phrases side by side are one phrase, if their tokens are. -/
theorem append (ha : Written (b ++ rest) a P) (hb : Written rest b Q)
    (himp : ∀ {s t}, P s → Q t → R (s ++ t)) : Written rest (a ++ b) R := by
  intro file offset
  obtain ⟨s, hs, hP⟩ := ha file offset
  obtain ⟨t, ht, hQ⟩ := hb file (offset + byteLength a)
  exact ⟨s ++ t, hs.append ht, himp hP hQ⟩

theorem append_spaced (ha : Written (' ' :: (b ++ rest)) a P) (hb : Written rest b Q)
    (himp : ∀ {s t}, P s → Q t → R (s ++ t)) : Written rest (a ++ ' ' :: b) R := by
  intro file offset
  obtain ⟨s, hs, hP⟩ := ha file offset
  obtain ⟨t, ht, hQ⟩ := hb file (offset + byteLength a + 1)
  exact ⟨s ++ t, hs.append_spaced ht, himp hP hQ⟩

/-- A token is written where it would be cut off. -/
theorem of_first {c : Char} {cs : List Char} {kind : TokenKind}
    (h : Lexeme.first c (cs ++ rest) = .token kind cs.length) :
    Written rest (c :: cs) (Lone fun token => token.kind = kind ∧ token.text = c :: cs) := by
  intro file offset
  refine ⟨_, ⟨Token.scan_token h, .last rfl (Nat.le_add_right _ _)⟩, ?_⟩
  exact lone_singleton.2 ⟨rfl, rfl⟩

/-- A register is cut off as one token, which names it. The token goes on to the end of the tail
and, as the word ends there, no further. -/
theorem register (r : Register) (h : WordEnds rest) :
    Written rest r.text.toList (Lone fun token => token.Names r) := by
  have hfirst : Lexeme.first '%' (r.tail ++ rest) = .token .register r.tail.length := by
    show Lexeme.token .register (frontLength isWordChar (r.tail ++ rest)) = _
    rw [frontLength_append r.all_isWordChar_tail h]
  rw [Register.toList_text]
  refine (of_first hfirst).mono ?_
  rintro _ ⟨token, rfl, hkind, htext⟩
  rw [lone_singleton, Token.Names, htext, ← Register.toList_text, Register.parse_text]
  exact ⟨hkind, rfl⟩

/-- The digits of a number are cut off as one token. A number goes on through digits and
underscores, which are word characters too, so it ends with the word. -/
theorem digits (n : Nat) (h : WordEnds rest) :
    Written rest (Nat.toDigits 10 n)
      (Lone fun token => token.kind = .number ∧ token.text = Nat.toDigits 10 n) := by
  obtain ⟨c, cs, htext, hc, hcs⟩ := exists_toDigits_eq_cons n
  rw [htext]
  have hnumber : cs.all isNumberChar = true := by
    rw [List.all_eq_true] at hcs ⊢
    intro d hd
    simp [isNumberChar, hcs d hd]
  have hends : ∀ d ∈ rest.head?, isNumberChar d = false := by
    intro d hd
    have := h d hd
    simp_all [isNumberChar, isWordChar, Char.isAlphanum]
  refine of_first ?_
  rw [Lexeme.first_digit hc, frontLength_append hnumber hends]

/-- A mnemonic is cut off as one token, which calls it. -/
theorem mnemonic (m : Mnemonic) (h : WordEnds rest) :
    Written rest m.text.toList (Lone fun token => token.Calls m) := by
  obtain ⟨c, cs, htext, hc, hcs⟩ := m.exists_letters
  have hfirst : Lexeme.first c (cs ++ rest) = .token .name cs.length := by
    rw [Lexeme.first_letter hc, frontLength_append hcs h]
  rw [htext]
  refine (of_first hfirst).mono ?_
  rintro _ ⟨token, rfl, hkind, hcs⟩
  exact lone_singleton.2 ⟨hkind, hcs.trans htext.symm⟩

end Written

end RegisterMapping
