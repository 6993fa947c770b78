import Mathlib.Data.List.Forall2
import RegisterMapping.Proofs.Listing.Grammar

/-!
# Forms of sentences

Which tokens a sentence may have, when any register and any number is allowed in the place of one.
The forms are few, and each is a list of kinds of tokens: one for assignments, and a few for each
mnemonic (`Mnemonic.forms`). `sentenceForm_iff` says that the tokens of a sentence are exactly those
of these kinds. A form is turned into a sentence by putting one register and one number into all the
places for them (`Token.filled`).
-/

set_option autoImplicit false

namespace RegisterMapping

/-! ## Forms of sentences -/

/-- Two tokens that a sentence does not tell apart by their form: of the same kind and, if they are
names, with the same text. -/
def Token.Alike (a b : Token) : Prop := a.kind = b.kind ∧ (a.kind = .name → a.text = b.text)

/-- The tokens have the form of a sentence, with any registers and any numbers in it. -/
def SentenceForm (tokens : List Token) : Prop :=
  ∃ others said, Sentence others said ∧ List.Forall₂ Token.Alike tokens others

/-- A sentence may start with the tokens. -/
def Viable (tokens : List Token) : Prop := ∃ later, SentenceForm (tokens ++ later)

/-- The kinds of tokens of a memory operand. -/
def addressForms : List (List TokenKind) :=
  [[.leftBracket, .register, .rightBracket],
    [.leftBracket, .register, .plus, .number, .rightBracket],
    [.leftBracket, .register, .minus, .number, .rightBracket]]

/-- The kinds of tokens that follow a mnemonic in a sentence. -/
def Mnemonic.forms : Mnemonic → List (List TokenKind)
  | .li => [[.register, .comma, .number], [.register, .comma, .minus, .number]]
  | .mov | .alu _ | .cmp => [[.register, .comma, .register]]
  | .neg | .ret => [[.register]]
  | .ld | .st => addressForms.map fun form => .register :: .comma :: form
  | .fma => [[.register, .comma, .register, .comma, .register]]

/-- The kinds of tokens of an assignment. -/
def assignmentForm : List TokenKind := [.register, .arrow, .register]

/-- Alike tokens are of the same kinds. -/
theorem map_kind_eq_of_alike {tokens others : List Token}
    (h : List.Forall₂ Token.Alike tokens others) :
    tokens.map Token.kind = others.map Token.kind := by
  induction h with
  | nil => rfl
  | cons halike _ ih => rw [List.map_cons, List.map_cons, halike.1, ih]

theorem AddressPhrase.map_kind_mem {tokens : List Token} {target : Address}
    (h : AddressPhrase tokens target) :
    tokens.map Token.kind ∈ addressForms := by
  obtain ⟨hleft, hbase, hdistance, hright⟩ := h
  cases hdistance with
  | absent => simp [addressForms, hleft, hbase.1, hright]
  | added hplus hnumber => simp [addressForms, hleft, hbase.1, hplus, hnumber.1, hright]
  | subtracted hminus hnumber => simp [addressForms, hleft, hbase.1, hminus, hnumber.1, hright]

theorem PairPhrase.map_kind_eq {tokens : List Token} {a b : Register}
    (h : PairPhrase tokens a b) : tokens.map Token.kind = [.register, .comma, .register] := by
  obtain ⟨hleft, hcomma, hright⟩ := h
  simp [hleft.1, hcomma, hright.1]

/-- The kinds of the tokens of an operand phrase are a form of its mnemonic. -/
theorem OperandPhrase.map_kind_mem {mnemonic : Mnemonic} {tokens : List Token} {inst : Instr}
    (h : OperandPhrase mnemonic tokens inst) : tokens.map Token.kind ∈ mnemonic.forms := by
  cases h with
  | li hdst hcomma hconstant =>
    cases hconstant with
    | plain hnumber => simp [Mnemonic.forms, hdst.1, hcomma, hnumber.1]
    | negated hminus hnumber => simp [Mnemonic.forms, hdst.1, hcomma, hminus, hnumber.1]
  | mov hpair | alu hpair | cmp hpair => simp [Mnemonic.forms, hpair.map_kind_eq]
  | neg hname | ret hname => simp [Mnemonic.forms, hname.1]
  | ld hname hcomma haddress | st hname hcomma haddress =>
    simpa [Mnemonic.forms, hname.1, hcomma] using haddress.map_kind_mem
  | fma hdst hcomma hpair => simp [Mnemonic.forms, hdst.1, hcomma, hpair.map_kind_eq]

/-! ### Sentences of a form -/

/-- The token with some register or number in the place of its own. -/
def Token.filled (token : Token) : Token :=
  match token.kind with
  | .register => ⟨.register, "%r0".toList, token.span⟩
  | .number => ⟨.number, "0".toList, token.span⟩
  | _ => token

namespace Token

theorem alike_filled (token : Token) : token.Alike token.filled := by
  rw [Alike, filled]
  split
  · next h => simp [h]
  · next h => simp [h]
  · exact ⟨rfl, fun _ => rfl⟩

/-- Filling in tokens keeps the form of a line. -/
theorem forall₂_alike_filled (tokens : List Token) :
    List.Forall₂ Alike tokens (tokens.map filled) := by
  induction tokens with
  | nil => exact .nil
  | cons token tokens ih => exact .cons token.alike_filled ih

theorem kind_filled (token : Token) : token.filled.kind = token.kind :=
  token.alike_filled.1.symm

/-- A register token that is filled in names a register. -/
theorem names_filled {token : Token} (h : token.kind = .register) :
    token.filled.Names ⟨.int32, false, 0, by decide⟩ := by
  have hparse : Register.parse "%r0".toList = .ok ⟨.int32, false, 0, by decide⟩ := by rfl
  rw [filled, h]
  exact ⟨rfl, hparse⟩

/-- A number token that is filled in stands for zero, with either sign. -/
theorem counts_filled {token : Token} (h : token.kind = .number) (negative : Bool) :
    token.filled.Counts negative 0 := by
  have hvalue : (0 : Int64).toInt = signedValue negative "0".toList := by
    cases negative <;> decide
  rw [filled, h]
  exact ⟨rfl, hvalue⟩

end Token

theorem PairPhrase.exists_filled {tokens : List Token}
    (h : tokens.map Token.kind = [.register, .comma, .register]) :
    ∃ a b, PairPhrase (tokens.map Token.filled) a b := by
  simp only [List.map_eq_cons_iff, List.map_eq_nil_iff] at h
  obtain ⟨left, _, rfl, hleft, comma, _, rfl, hcomma, right, _, rfl, hright, rfl⟩ := h
  exact ⟨_, _, .mk (Token.names_filled hleft) (comma.kind_filled.trans hcomma)
    (Token.names_filled hright)⟩

theorem AddressPhrase.exists_filled {tokens : List Token}
    (h : tokens.map Token.kind ∈ addressForms) :
    ∃ target, AddressPhrase (tokens.map Token.filled) target := by
  simp only [addressForms, List.mem_cons, List.not_mem_nil, or_false, List.map_eq_cons_iff,
    List.map_eq_nil_iff] at h
  obtain ⟨left, _, rfl, hleft, base, _, rfl, hbase, right, _, rfl, hright, rfl⟩ |
    ⟨left, _, rfl, hleft, base, _, rfl, hbase, sign, _, rfl, hsign, number, _, rfl, hnumber, right,
      _, rfl, hright, rfl⟩ |
    ⟨left, _, rfl, hleft, base, _, rfl, hbase, sign, _, rfl, hsign, number, _, rfl, hnumber, right,
      _, rfl, hright, rfl⟩ := h
  · exact ⟨_, .mk (left.kind_filled.trans hleft) (Token.names_filled hbase) .absent
      (right.kind_filled.trans hright)⟩
  · exact ⟨_, .mk (left.kind_filled.trans hleft) (Token.names_filled hbase)
      (.added (sign.kind_filled.trans hsign) (Token.counts_filled hnumber false))
      (right.kind_filled.trans hright)⟩
  · exact ⟨_, .mk (left.kind_filled.trans hleft) (Token.names_filled hbase)
      (.subtracted (sign.kind_filled.trans hsign) (Token.counts_filled hnumber true))
      (right.kind_filled.trans hright)⟩

/-- Tokens of a form of the mnemonic, filled in, are an operand phrase. -/
theorem OperandPhrase.exists_filled {mnemonic : Mnemonic} {tokens : List Token}
    (h : tokens.map Token.kind ∈ mnemonic.forms) :
    ∃ inst, OperandPhrase mnemonic (tokens.map Token.filled) inst := by
  have hpair (hform : tokens.map Token.kind ∈ [[TokenKind.register, .comma, .register]]) :=
    PairPhrase.exists_filled (List.mem_singleton.1 hform)
  -- A register and a comma come before a memory operand and before the factors of a product.
  have hlist (forms : List (List TokenKind))
      (hform : tokens.map Token.kind ∈ forms.map (.register :: .comma :: ·)) :
      ∃ name comma rest, tokens = name :: comma :: rest ∧ name.kind = .register ∧
        comma.kind = .comma ∧ rest.map Token.kind ∈ forms := by
    obtain ⟨form, hmem, heq⟩ := List.mem_map.1 hform
    obtain ⟨name, _, rfl, hname, heq⟩ := List.map_eq_cons_iff.1 heq.symm
    obtain ⟨comma, rest, rfl, hcomma, rfl⟩ := List.map_eq_cons_iff.1 heq
    exact ⟨name, comma, rest, rfl, hname, hcomma, hmem⟩
  cases mnemonic with
  | li =>
    obtain ⟨name, comma, rest, rfl, hname, hcomma, hconstant⟩ :=
      hlist [[.number], [.minus, .number]] h
    simp only [List.mem_cons, List.not_mem_nil, or_false, List.map_eq_cons_iff,
      List.map_eq_nil_iff] at hconstant
    obtain ⟨number, _, rfl, hnumber, rfl⟩ | ⟨minus, _, rfl, hminus, number, _, rfl, hnumber, rfl⟩ :=
      hconstant
    · exact ⟨_, .li (Token.names_filled hname) (comma.kind_filled.trans hcomma)
        (.plain (Token.counts_filled hnumber false))⟩
    · exact ⟨_, .li (Token.names_filled hname) (comma.kind_filled.trans hcomma)
        (.negated (minus.kind_filled.trans hminus) (Token.counts_filled hnumber true))⟩
  | mov =>
    obtain ⟨_, _, hphrase⟩ := hpair h
    exact ⟨_, .mov hphrase⟩
  | alu op =>
    obtain ⟨_, _, hphrase⟩ := hpair h
    exact ⟨_, .alu hphrase⟩
  | cmp =>
    obtain ⟨_, _, hphrase⟩ := hpair h
    exact ⟨_, .cmp hphrase⟩
  | neg =>
    obtain ⟨name, _, rfl, hname, hnil⟩ := List.map_eq_cons_iff.1 (List.mem_singleton.1 h)
    obtain rfl := List.map_eq_nil_iff.1 hnil
    exact ⟨_, .neg (Token.names_filled hname)⟩
  | ret =>
    obtain ⟨name, _, rfl, hname, hnil⟩ := List.map_eq_cons_iff.1 (List.mem_singleton.1 h)
    obtain rfl := List.map_eq_nil_iff.1 hnil
    exact ⟨_, .ret (Token.names_filled hname)⟩
  | ld =>
    obtain ⟨name, comma, rest, rfl, hname, hcomma, hform⟩ := hlist addressForms h
    obtain ⟨_, haddress⟩ := AddressPhrase.exists_filled hform
    exact ⟨_, .ld (Token.names_filled hname) (comma.kind_filled.trans hcomma) haddress⟩
  | st =>
    obtain ⟨name, comma, rest, rfl, hname, hcomma, hform⟩ := hlist addressForms h
    obtain ⟨_, haddress⟩ := AddressPhrase.exists_filled hform
    exact ⟨_, .st (Token.names_filled hname) (comma.kind_filled.trans hcomma) haddress⟩
  | fma =>
    obtain ⟨name, comma, rest, rfl, hname, hcomma, hform⟩ := hlist
      [[.register, .comma, .register]] h
    obtain ⟨_, _, hphrase⟩ := PairPhrase.exists_filled (List.mem_singleton.1 hform)
    exact ⟨_, .fma (Token.names_filled hname) (comma.kind_filled.trans hcomma) hphrase⟩

/-- What has the form of a sentence is seen from the kinds of the tokens and from the mnemonic. -/
theorem sentenceForm_iff {tokens : List Token} :
    SentenceForm tokens ↔ tokens.map Token.kind = assignmentForm ∨
      ∃ name operands mnemonic, tokens = name :: operands ∧ name.Calls mnemonic ∧
        operands.map Token.kind ∈ mnemonic.forms := by
  constructor
  · rintro ⟨others, said, hsentence, halike⟩
    cases hsentence with
    | assignment hleft harrow hright =>
      left
      rw [map_kind_eq_of_alike halike]
      simp [assignmentForm, hleft.1, harrow, hright.1]
    | @instr name _ mnemonic _ hcalls hphrase =>
      cases halike with
      | @cons first _ rest _ hfirst hrest =>
        have hname : first.kind = .name := hfirst.1.trans hcalls.1
        refine .inr ⟨first, rest, mnemonic, rfl, ⟨hname, (hfirst.2 hname).trans hcalls.2⟩, ?_⟩
        rw [map_kind_eq_of_alike hrest]
        exact hphrase.map_kind_mem
  · rintro (hform | ⟨name, operands, mnemonic, rfl, hcalls, hform⟩)
    · obtain ⟨left, _, rfl, hleft, hform⟩ := List.map_eq_cons_iff.1 hform
      obtain ⟨arrow, _, rfl, harrow, hform⟩ := List.map_eq_cons_iff.1 hform
      obtain ⟨right, _, rfl, hright, hform⟩ := List.map_eq_cons_iff.1 hform
      obtain rfl := List.map_eq_nil_iff.1 hform
      exact ⟨_, _, .assignment (Token.names_filled hleft) (arrow.kind_filled.trans harrow)
        (Token.names_filled hright), Token.forall₂_alike_filled _⟩
    · obtain ⟨inst, hphrase⟩ := OperandPhrase.exists_filled hform
      exact ⟨name :: operands.map Token.filled, _, .instr hcalls hphrase,
        .cons ⟨rfl, fun _ => rfl⟩ (Token.forall₂_alike_filled operands)⟩

end RegisterMapping
