import Mathlib.Order.Basic
import RegisterMapping.Proofs.Listing.Scan

/-!
# The rules for tokens

Each kind of token has a rule, and so has what is passed over (`Lexeme.Rule`). At each place of a
text the longest front counts that some rule fits, and where no rule fits any front, the first
character makes an invalid token by itself (`Lexeme.Longest`). A step of the scan does just that
(`Lexeme.first_eq_iff`): what a rule fits starts with itself (`Lexeme.first_of_rule`), what a text
starts with fits a rule (`Lexeme.ruled_first`), and what a front of a text starts with is what the
text starts with, unless the text goes on further (`Lexeme.first_of_extra_le`).

A text is partitioned into tokens, each of which is the longest at its place, and blanks and
comments between them (`Partitioned`). The tokens that the scan cuts a text into are the only ones
of which this holds (`Token.scan_eq_iff`).
-/

set_option autoImplicit false

namespace RegisterMapping

/-! ## What a front of a text starts with -/

theorem frontLength_of_append_le {p : Char → Bool} {piece tail : List Char}
    (h : frontLength p (piece ++ tail) ≤ piece.length) :
    frontLength p (piece ++ tail) = frontLength p piece := by
  induction piece with
  | nil => exact Nat.le_zero.1 h
  | cons c piece ih =>
    cases hc : p c with
    | false => rw [frontLength_eq_zero, frontLength_eq_zero] <;> simp [hc]
    | true =>
      rw [List.cons_append, frontLength_cons_of_pos hc] at h ⊢
      rw [frontLength_cons_of_pos hc, ih (Nat.le_of_succ_le_succ h)]

namespace Lexeme

/-- If the first of two lexemes has no more than so many characters after its first, then the other
is the same. -/
def AgreeUpTo (length : Nat) (long short : Lexeme) : Prop := long.extra ≤ length → long = short

theorem agreeUpTo_ite {length : Nat} {condition : Prop} [Decidable condition]
    {a a' b b' : Lexeme} (hpos : AgreeUpTo length a a') (hneg : AgreeUpTo length b b') :
    AgreeUpTo length (if condition then a else b) (if condition then a' else b') := by
  split
  · exact hpos
  · exact hneg

theorem agreeUpTo_run (kind : Option TokenKind) (p : Char → Bool) (piece tail : List Char) :
    AgreeUpTo piece.length ⟨kind, frontLength p (piece ++ tail)⟩ ⟨kind, frontLength p piece⟩ :=
  fun hle => congrArg (mk kind) (frontLength_of_append_le hle)

/-- Whether a second character belongs to the first one is seen if the two are there. -/
theorem agreeUpTo_second (d : Char) (kind other : TokenKind) (piece tail : List Char) :
    AgreeUpTo piece.length
      (if (piece ++ tail).head? = some d then token kind 1 else token other 0)
      (if piece.head? = some d then token kind 1 else token other 0) := by
  intro hle
  cases piece with
  | cons e piece => rfl
  | nil =>
    by_cases hhead : tail.head? = some d
    · rw [List.nil_append, if_pos hhead] at hle
      exact absurd hle (Nat.not_succ_le_zero 0)
    · simp [hhead]

/-- What a text starts with is seen from its own characters. -/
theorem first_of_extra_le {c : Char} {piece tail : List Char}
    (h : (first c (piece ++ tail)).extra ≤ piece.length) :
    first c (piece ++ tail) = first c piece := by
  suffices hagree : AgreeUpTo piece.length (first c (piece ++ tail)) (first c piece) from hagree h
  have hmark (lexeme : Lexeme) : AgreeUpTo piece.length lexeme lexeme := fun _ => rfl
  unfold first
  refine agreeUpTo_ite (agreeUpTo_run none _ _ _) ?_
  refine agreeUpTo_ite (agreeUpTo_run none _ _ _) ?_
  refine agreeUpTo_ite (agreeUpTo_run _ _ _ _) ?_
  refine agreeUpTo_ite (agreeUpTo_run _ _ _ _) ?_
  refine agreeUpTo_ite (agreeUpTo_run _ _ _ _) ?_
  refine agreeUpTo_ite (agreeUpTo_second _ _ _ _ _) ?_
  refine agreeUpTo_ite (agreeUpTo_second _ _ _ _ _) ?_
  exact hmark _

end Lexeme

/-! ## Rules -/

namespace Lexeme

/-- The text is a token of the kind, or it is passed over if there is no kind. No text is an invalid
token by a rule. -/
inductive Rule : Option TokenKind → List Char → Prop
  | comma : Rule (some .comma) [',']
  | leftBracket : Rule (some .leftBracket) ['[']
  | rightBracket : Rule (some .rightBracket) [']']
  | plus : Rule (some .plus) ['+']
  | minus : Rule (some .minus) ['-']
  | arrow : Rule (some .arrow) ['-', '>']
  | register {tail : List Char} :
      tail.all isWordChar = true → Rule (some .register) ('%' :: tail)
  | name {c : Char} {tail : List Char} :
      c.isAlpha = true → tail.all isWordChar = true → Rule (some .name) (c :: tail)
  | number {c : Char} {tail : List Char} :
      c.isDigit = true → tail.all isNumberChar = true → Rule (some .number) (c :: tail)
  | lineFeed : Rule (some .newline) ['\n']
  | returnAndFeed : Rule (some .newline) ['\r', '\n']
  | blanks {c : Char} {tail : List Char} :
      isBlank c = true → tail.all isBlank = true → Rule none (c :: tail)
  | comment {tail : List Char} :
      tail.all (fun d => !isLineBreak d) = true → Rule none ('#' :: tail)

/-- What the text starts with, in front of `after`: the longest front that some rule fits, or one
character if no rule fits any front. -/
inductive Longest : Option TokenKind → List Char → List Char → Prop
  | rule {kind : Option TokenKind} {text after : List Char} :
      Rule kind text →
      (∀ other front, front <+: text ++ after → Rule other front → front.length ≤ text.length) →
      Longest kind text after
  | invalid {c : Char} {after : List Char} :
      (∀ other front, front <+: c :: after → ¬ Rule other front) → Longest (some .invalid) [c] after

variable {kind other : Option TokenKind} {c : Char} {cs rest after : List Char}

theorem Rule.ne_nil {text : List Char} (h : Rule kind text) : text ≠ [] := by
  rintro rfl
  cases h

/-- The characters of tokens that are no newlines. -/
def isTokenChar (c : Char) : Bool :=
  isWordChar c || ['%', ',', '[', ']', '+', '-', '>'].contains c

theorem Rule.all_isTokenChar {token : TokenKind} {text : List Char} (h : Rule (some token) text)
    (hkind : token ≠ .newline) : text.all isTokenChar = true := by
  have hword {c : Char} (hc : isWordChar c = true) : isTokenChar c = true := by
    simp [isTokenChar, hc]
  have hrun {p : Char → Bool} {tail : List Char} (hp : ∀ c, p c = true → isWordChar c = true)
      (htail : tail.all p = true) : tail.all isTokenChar = true :=
    List.all_eq_true.2 fun c hc => hword (hp c (List.all_eq_true.1 htail c hc))
  cases h with
  | comma | leftBracket | rightBracket | plus | minus | arrow => decide
  | register htail => exact Bool.and_eq_true_iff.2 ⟨rfl, hrun (fun _ => id) htail⟩
  | name hc htail =>
    refine Bool.and_eq_true_iff.2 ⟨hword ?_, hrun (fun _ => id) htail⟩
    simp [isWordChar, Char.isAlphanum, hc]
  | number hc htail =>
    refine Bool.and_eq_true_iff.2 ⟨hword (isWordChar_of_isDigit hc), hrun (fun d hd => ?_) htail⟩
    rcases Bool.or_eq_true_iff.1 hd with hdigit | hscore
    · exact isWordChar_of_isDigit hdigit
    · simp [isWordChar, hscore]
  | lineFeed | returnAndFeed => exact absurd rfl hkind

/-- A line feed stands in newlines only. -/
theorem Rule.lineFeed_not_mem {text : List Char} (h : Rule kind text)
    (hkind : kind ≠ some .newline) : '\n' ∉ text := by
  cases kind with
  | some token =>
    exact not_mem_of_all (by decide) (h.all_isTokenChar fun heq => hkind (congrArg some heq))
  | none =>
    cases h with
    | blanks hc htail => exact @not_mem_of_all isBlank _ _ rfl (Bool.and_eq_true_iff.2 ⟨hc, htail⟩)
    | comment htail =>
      rw [List.mem_cons, not_or]
      exact ⟨by decide, not_mem_of_all rfl htail⟩

/-! ### A step of the scan -/

/-- What a rule fits starts with itself. -/
theorem first_of_rule (h : Rule kind (c :: cs)) : first c cs = ⟨kind, cs.length⟩ := by
  have hrun {p : Char → Bool} (hall : cs.all p = true) : frontLength p cs = cs.length := by
    have hends : ∀ d ∈ ([] : List Char).head?, p d = false := by simp
    simpa using frontLength_append hall hends
  cases h with
  | comma | leftBracket | rightBracket | plus | minus | arrow | lineFeed | returnAndFeed => rfl
  | register htail => exact congrArg (token .register) (hrun htail)
  | name hc htail => rw [first_letter hc, hrun htail]; rfl
  | number hc htail => rw [first_digit hc, hrun htail]; rfl
  | blanks hc htail => rw [first, if_pos hc, hrun htail]; rfl
  | comment htail => exact congrArg skipped (hrun htail)

/-- What holds of both branches holds of a conditional lexeme. -/
theorem holds_ite {P : Lexeme → Prop} {condition : Prop} [Decidable condition] {a b : Lexeme}
    (hpos : condition → P a) (hneg : P b) : P (if condition then a else b) := by
  by_cases h : condition
  · rw [if_pos h]
    exact hpos h
  · rw [if_neg h]
    exact hneg

/-- The lexeme is a front of the text `c :: rest` that fits a rule, or an invalid character. -/
def Ruled (c : Char) (rest : List Char) (lexeme : Lexeme) : Prop :=
  lexeme = token .invalid 0 ∨
    ∃ cs, cs <+: rest ∧ lexeme.extra = cs.length ∧ Rule lexeme.kind (c :: cs)

theorem ruled_run {p : Char → Bool}
    (h : ∀ {tail : List Char}, tail.all p = true → Rule kind (c :: tail)) :
    Ruled c rest ⟨kind, frontLength p rest⟩ :=
  .inr ⟨rest.takeWhile p, List.takeWhile_prefix p, rfl, h List.all_takeWhile⟩

theorem ruled_mark (h : Rule kind [c]) : Ruled c rest ⟨kind, 0⟩ :=
  .inr ⟨[], List.nil_prefix, rfl, h⟩

theorem ruled_pair {d : Char} (hhead : rest.head? = some d) (h : Rule kind [c, d]) :
    Ruled c rest ⟨kind, 1⟩ := by
  obtain ⟨later, rfl⟩ := List.head?_eq_some_iff.1 hhead
  exact .inr ⟨[d], ⟨later, rfl⟩, rfl, h⟩

/-- What a text starts with fits a rule, or is an invalid character. -/
theorem ruled_first (c : Char) (rest : List Char) : Ruled c rest (first c rest) := by
  rw [first]
  refine holds_ite (fun hc => ruled_run (.blanks hc)) ?_
  refine holds_ite (fun hc => hc ▸ ruled_run .comment) ?_
  refine holds_ite (fun hc => hc ▸ ruled_run .register) ?_
  refine holds_ite (fun hc => ruled_run (.name hc)) ?_
  refine holds_ite (fun hc => ruled_run (.number hc)) ?_
  refine holds_ite (fun hc => hc ▸
    holds_ite (fun hhead => ruled_pair hhead .arrow) (ruled_mark .minus)) ?_
  refine holds_ite (fun hc => hc ▸
    holds_ite (fun hhead => ruled_pair hhead .returnAndFeed) (.inl rfl)) ?_
  refine holds_ite (fun hc => hc ▸ ruled_mark .lineFeed) ?_
  refine holds_ite (fun hc => hc ▸ ruled_mark .comma) ?_
  refine holds_ite (fun hc => hc ▸ ruled_mark .leftBracket) ?_
  refine holds_ite (fun hc => hc ▸ ruled_mark .rightBracket) ?_
  exact holds_ite (fun hc => hc ▸ ruled_mark .plus) (.inl rfl)

/-- The lexeme lies within the text `c :: rest`, and holds a line feed only if it is a newline. -/
def KeepsLine (c : Char) (rest : List Char) (lexeme : Lexeme) : Prop :=
  lexeme.extra ≤ rest.length ∧
    (lexeme.kind ≠ some .newline → '\n' ∉ c :: rest.take lexeme.extra)

theorem keepsLine_first (c : Char) (rest : List Char) : (first c rest).KeepsLine c rest := by
  rcases ruled_first c rest with hinvalid | ⟨cs, ⟨after, rfl⟩, hextra, hrule⟩
  · have hfeed : c ≠ '\n' := by
      rintro rfl
      exact absurd (congrArg kind hinvalid) (by simp [first, token, isBlank])
    rw [hinvalid]
    exact ⟨Nat.zero_le _, fun _ hmem => hfeed (List.mem_singleton.1 hmem).symm⟩
  · rw [KeepsLine, hextra, List.take_left, List.length_append]
    exact ⟨Nat.le_add_right _ _, hrule.lineFeed_not_mem⟩

/-- A newline starts with a line feed, or with a carriage return that a line feed follows. -/
theorem kind_first_eq_newline (h : (first c rest).kind = some .newline) :
    c = '\n' ∧ first c rest = token .newline 0 ∨
      c = '\r' ∧ rest.head? = some '\n' ∧ first c rest = token .newline 1 := by
  rcases ruled_first c rest with hinvalid | ⟨cs, ⟨after, rfl⟩, hextra, hrule⟩
  · rw [hinvalid] at h
    cases h
  · have hfirst : first c (cs ++ after) = ⟨some .newline, cs.length⟩ := by rw [← h, ← hextra]
    rw [h] at hrule
    cases hrule with
    | lineFeed => exact .inl ⟨rfl, hfirst⟩
    | returnAndFeed => exact .inr ⟨rfl, rfl, hfirst⟩

/-- Every character but two starts a token of another kind, or none. -/
theorem kind_first_ne_newline (hfeed : c ≠ '\n') (hreturn : c ≠ '\r') :
    (first c rest).kind ≠ some .newline := by
  intro hkind
  rcases kind_first_eq_newline hkind with ⟨rfl, -⟩ | ⟨rfl, -⟩
  · exact hfeed rfl
  · exact hreturn rfl

/-! ### The longest match -/

/-- What a text starts with reaches as far as any front that a rule fits. -/
theorem length_le_extra (h : Rule other (c :: cs)) (after : List Char) :
    cs.length ≤ (first c (cs ++ after)).extra := by
  by_contra hlt
  have hextra : (first c cs).extra = cs.length := by rw [first_of_rule h]
  rw [first_of_extra_le (Nat.le_of_not_le hlt), hextra] at hlt
  exact hlt (Nat.le_refl _)

/-- Where a rule fits some front, the first character is not invalid. -/
theorem first_ne_invalid (h : Rule other (c :: cs)) (after : List Char) :
    first c (cs ++ after) ≠ token .invalid 0 := by
  intro hinvalid
  have hle : (first c (cs ++ after)).extra ≤ cs.length := by
    rw [hinvalid]
    exact Nat.zero_le _
  rw [first_of_extra_le hle, first_of_rule h] at hinvalid
  obtain rfl : other = some .invalid := congrArg Lexeme.kind hinvalid
  cases h

theorem longest_of_first (h : first c (cs ++ after) = ⟨kind, cs.length⟩) :
    Longest kind (c :: cs) after := by
  rcases ruled_first c (cs ++ after) with hinvalid | ⟨ds, ⟨tail, htail⟩, hextra, hrule⟩
  · have hlexeme : (⟨kind, cs.length⟩ : Lexeme) = token .invalid 0 := h.symm.trans hinvalid
    obtain rfl : kind = some .invalid := congrArg Lexeme.kind hlexeme
    obtain rfl : cs = [] := List.length_eq_zero_iff.1 (congrArg Lexeme.extra hlexeme)
    refine .invalid fun other front hfront hrule => ?_
    obtain rfl | ⟨ds, rfl, tail, rfl⟩ := List.prefix_cons_iff.1 hfront
    · exact hrule.ne_nil rfl
    · exact first_ne_invalid hrule tail hinvalid
  · rw [h] at hextra hrule
    obtain rfl := List.append_inj_left htail hextra.symm
    refine .rule hrule fun other front hfront hother => ?_
    rw [List.cons_append] at hfront
    obtain rfl | ⟨es, rfl, later, hlater⟩ := List.prefix_cons_iff.1 hfront
    · exact absurd rfl hother.ne_nil
    · have hle := length_le_extra hother later
      rw [hlater, h] at hle
      exact Nat.succ_le_succ hle

theorem first_of_longest (h : Longest kind (c :: cs) after) :
    first c (cs ++ after) = ⟨kind, cs.length⟩ := by
  cases h with
  | rule hrule hmax =>
    -- The text that is found is no longer than the longest one, so it is seen in that.
    have hle : (first c (cs ++ after)).extra ≤ cs.length := by
      rcases ruled_first c (cs ++ after) with hinvalid | ⟨ds, hprefix, hextra, hfound⟩
      · rw [hinvalid]
        exact Nat.zero_le _
      · rw [hextra]
        have hlength := hmax _ _ (List.cons_prefix_cons.2 ⟨rfl, hprefix⟩) hfound
        exact Nat.le_of_succ_le_succ hlength
    rw [first_of_extra_le hle, first_of_rule hrule]
  | invalid hnone =>
    rcases ruled_first c after with hinvalid | ⟨ds, hprefix, -, hfound⟩
    · exact hinvalid
    · exact absurd hfound (hnone _ _ (List.cons_prefix_cons.2 ⟨rfl, hprefix⟩))

/-- A step of the scan finds what the text starts with by the rules. -/
theorem first_eq_iff :
    first c (cs ++ after) = ⟨kind, cs.length⟩ ↔ Longest kind (c :: cs) after :=
  ⟨longest_of_first, first_of_longest⟩

theorem Longest.ne_nil {text : List Char} (h : Longest kind text after) : text ≠ [] := by
  cases h with
  | rule hrule _ => exact hrule.ne_nil
  | invalid _ => exact List.cons_ne_nil _ _

end Lexeme

/-! ## Pieces of a text -/

namespace Token

/-- The token that a text starts with, if it starts with one, and what is cut from the rest. -/
theorem scan_cons (file offset : Nat) (c : Char) (rest : List Char) :
    scan file offset (c :: rest) =
      ((Lexeme.first c rest).kind.map fun kind =>
          (⟨kind, c :: rest.take (Lexeme.first c rest).extra, ⟨file, offset,
            offset + byteLength (c :: rest.take (Lexeme.first c rest).extra)⟩⟩ : Token)).toList ++
        scan file (offset + byteLength (c :: rest.take (Lexeme.first c rest).extra))
          (rest.drop (Lexeme.first c rest).extra) := by
  rw [scan]
  cases (Lexeme.first c rest).kind with
  | none => rfl
  | some kind => rfl

/-- Of a text that holds more than its first piece, the rest may be left off anywhere. -/
theorem scan_piece (file offset : Nat) {c : Char} {piece tail after : List Char}
    (h : (Lexeme.first c (piece ++ (tail ++ after))).extra = piece.length) :
    scan file offset (c :: piece ++ tail) =
      ((Lexeme.first c piece).kind.map fun kind =>
        (⟨kind, c :: piece, ⟨file, offset, offset + byteLength (c :: piece)⟩⟩ : Token)).toList ++
      scan file (offset + byteLength (c :: piece)) tail := by
  have hfirst := Lexeme.first_of_extra_le (Nat.le_of_eq h)
  have hextra : (Lexeme.first c (piece ++ tail)).extra = piece.length := by
    rw [← List.append_assoc] at h
    have hle : piece.length ≤ (piece ++ tail).length := by simp
    rw [← Lexeme.first_of_extra_le (h.trans_le hle), h]
  have hsame := Lexeme.first_of_extra_le (Nat.le_of_eq hextra)
  rw [List.cons_append, scan_cons, hextra, List.take_left, List.drop_left, hsame]

/-- A text is passed piece by piece, each of which makes a token or none. -/
@[elab_as_elim]
theorem piece_induction {motive : Nat → List Char → Prop} (nil : ∀ offset, motive offset [])
    (piece : ∀ (offset : Nat) (c : Char) (piece tail : List Char),
      (Lexeme.first c (piece ++ tail)).extra = piece.length →
        motive (offset + byteLength (c :: piece)) tail → motive offset (c :: piece ++ tail)) :
    ∀ (offset : Nat) (text : List Char), motive offset text
  | offset, [] => nil offset
  | offset, c :: rest => by
    have hextra : (Lexeme.first c (rest.take (Lexeme.first c rest).extra ++
        rest.drop (Lexeme.first c rest).extra)).extra =
          (rest.take (Lexeme.first c rest).extra).length := by
      rw [List.take_append_drop, List.length_take,
        Nat.min_eq_left (Lexeme.keepsLine_first c rest).1]
    have hrest := piece offset c _ _ hextra (piece_induction nil piece _ _)
    rwa [List.cons_append, List.take_append_drop] at hrest
  termination_by _ text => text.length
  decreasing_by
    simp only [List.length_drop, List.length_cons]
    omega

end Token

/-! ## Partitions -/

/-- The text is passed over in front of `after`: it has blanks, and comments that go up to a line
break or the end. -/
inductive Passed (after : List Char) : List Char → Prop
  | nil : Passed after []
  | blank {c : Char} {gap : List Char} :
      isBlank c = true → Passed after gap → Passed after (c :: gap)
  | comment {said gap : List Char} :
      said.all (fun d => !isLineBreak d) = true →
      (∀ d ∈ (gap ++ after).head?, isLineBreak d = true) →
      Passed after gap → Passed after ('#' :: said ++ gap)

/-- The text at byte `offset` of the file is made up of the tokens, each of them the longest one at
its place, and of blanks and comments before, between and behind them. -/
inductive Partitioned (file : Nat) : Nat → List Char → List Token → Prop
  | rest {offset : Nat} {gap : List Char} : Passed [] gap → Partitioned file offset gap []
  | token {offset : Nat} {gap later : List Char} {token : Token} {tokens : List Token} :
      Passed (token.text ++ later) gap →
      token.span =
        ⟨file, offset + byteLength gap, offset + byteLength gap + byteLength token.text⟩ →
      Lexeme.Longest (some token.kind) token.text later →
      Partitioned file (offset + byteLength (gap ++ token.text)) later tokens →
      Partitioned file offset (gap ++ token.text ++ later) (token :: tokens)

namespace Passed

variable {gap after : List Char}

theorem append_blanks {blanks : List Char} (h : Passed after gap)
    (hblanks : blanks.all isBlank = true) : Passed after (blanks ++ gap) := by
  induction blanks with
  | nil => exact h
  | cons c blanks ih =>
    obtain ⟨hc, hblanks⟩ := Bool.and_eq_true_iff.1 hblanks
    exact .blank hc (ih hblanks)

/-- What is passed over in one step stands in front of what is passed over later. -/
theorem append_longest {front : List Char} (h : Passed after gap)
    (hfront : Lexeme.Longest none front (gap ++ after)) : Passed after (front ++ gap) := by
  cases hfront with
  | rule hrule hmax =>
    cases hrule with
    | blanks hc htail => exact .blank hc (h.append_blanks htail)
    | @comment said hsaid =>
      refine .comment hsaid (fun d hd => ?_) h
      -- If the comment went on, then it would be longer.
      by_contra hbreak
      obtain ⟨later, hlater⟩ := List.head?_eq_some_iff.1 hd
      have hlonger : (said ++ [d]).all (fun e => !isLineBreak e) = true := by
        simpa [hsaid] using hbreak
      have hprefix : '#' :: (said ++ [d]) <+: '#' :: said ++ (gap ++ after) := by
        rw [hlater]
        exact ⟨later, by simp⟩
      exact absurd (hmax _ _ hprefix (.comment hlonger)) (by simp)

end Passed

namespace Partitioned

variable {file offset : Nat} {text : List Char} {tokens : List Token}

/-- More is passed over in front of the text. -/
theorem skip {front : List Char} (hfront : Lexeme.Longest none front text)
    (h : Partitioned file (offset + byteLength front) text tokens) :
    Partitioned file offset (front ++ text) tokens := by
  cases h with
  | rest hgap => exact .rest (hgap.append_longest (by rwa [List.append_nil]))
  | @token _ gap later token _ hgap hspan hlongest hlater =>
    rw [List.append_assoc] at hfront
    have hskipped := hgap.append_longest hfront
    rw [Nat.add_assoc offset, ← byteLength_append] at hspan hlater
    rw [← List.append_assoc] at hlater
    rw [← List.append_assoc, ← List.append_assoc]
    exact .token hskipped hspan hlongest hlater

end Partitioned

namespace Token

/-- What is passed over makes no tokens. -/
theorem scan_passed {gap after : List Char} (h : Passed after gap) (file offset : Nat) :
    scan file offset (gap ++ after) = scan file (offset + byteLength gap) after := by
  induction h generalizing offset with
  | nil => rfl
  | @blank c gap hc _ ih =>
    rw [List.cons_append, scan_blank hc, ih, byteLength, Nat.add_assoc]
  | @comment said gap hsaid hends _ ih =>
    have hends' : ∀ d ∈ (gap ++ after).head?, (!isLineBreak d) = false := by
      intro d hd
      rw [hends d hd]
      rfl
    have hfirst : Lexeme.first '#' (said ++ (gap ++ after)) = .skipped said.length := by
      rw [← frontLength_append hsaid hends']
      rfl
    rw [List.append_assoc, scan_skipped hfirst, ih, byteLength_append, Nat.add_assoc]

theorem partitioned_scan (file offset : Nat) (text : List Char) :
    Partitioned file offset text (scan file offset text) := by
  induction offset, text using piece_induction with
  | nil offset =>
    rw [scan]
    exact .rest .nil
  | piece offset c piece tail hextra ih =>
    have hlongest : Lexeme.Longest (Lexeme.first c (piece ++ tail)).kind (c :: piece) tail := by
      rw [← Lexeme.first_eq_iff, ← hextra]
    rw [List.cons_append, scan_cons, hextra, List.take_left, List.drop_left, ← List.cons_append]
    cases hkind : (Lexeme.first c (piece ++ tail)).kind with
    | none =>
      rw [hkind] at hlongest
      exact ih.skip hlongest
    | some kind =>
      rw [hkind] at hlongest
      exact @Partitioned.token file offset [] tail ⟨kind, c :: piece, _⟩ _ .nil rfl hlongest ih

/-- What a text starts with by the rules is cut off as a token. -/
theorem scan_longest {kind : TokenKind} {text after : List Char}
    (h : Lexeme.Longest (some kind) text after) (file offset : Nat) :
    scan file offset (text ++ after) =
      ⟨kind, text, ⟨file, offset, offset + byteLength text⟩⟩ ::
        scan file (offset + byteLength text) after := by
  obtain ⟨c, cs, rfl⟩ := List.exists_cons_of_ne_nil h.ne_nil
  exact scan_token (Lexeme.first_eq_iff.2 h)

/-- The tokens that a text is cut into are the only ones that partition it. -/
theorem scan_eq_iff {file offset : Nat} {text : List Char} {tokens : List Token} :
    scan file offset text = tokens ↔ Partitioned file offset text tokens := by
  constructor
  · rintro rfl
    exact partitioned_scan file offset text
  · intro h
    induction h with
    | @rest offset gap hgap =>
      have hscan := scan_passed hgap file offset
      rwa [List.append_nil, scan] at hscan
    | @token offset gap later token tokens hgap hspan hlongest _ ih =>
      rw [byteLength_append, ← Nat.add_assoc] at ih
      rw [List.append_assoc, scan_passed hgap, scan_longest hlongest, ← hspan, ih]

end Token

end RegisterMapping
