import RegisterMapping.Proofs.Listing.GivingUp
import RegisterMapping.Proofs.Listing.Grammar

/-!
# Readers and the grammar

A reader that finds nothing wrong takes a phrase of the grammar and gives what the phrase says.
`LineReader.Reads` is such a run from one place of the line to another, and each reader gets one
equivalence between its runs and the phrases that it takes. They are put together from the
equivalences for sequencing and for single tokens; `reads_item_iff` is the one for a whole line.
-/

set_option autoImplicit false

namespace RegisterMapping

/-! ## Taking tokens -/

/-- The tokens stand at the front of what is left, and the second place is behind them. -/
def Cursor.Takes : Cursor → List Token → Cursor → Prop
  | start, [], stop => stop = start
  | start, token :: tokens, stop =>
    ∃ rest, start.rest = token :: rest ∧ Cursor.Takes ⟨token.span, rest⟩ tokens stop

/-- The next token is not of the kind. -/
def Cursor.Lacks (start : Cursor) (kind : TokenKind) : Prop :=
  ∀ token ∈ start.rest.head?, token.kind ≠ kind

namespace Cursor

variable {start stop : Cursor}

@[simp]
theorem takes_nil_iff : start.Takes [] stop ↔ stop = start := Iff.rfl

theorem takes_cons_iff {token : Token} {tokens : List Token} :
    start.Takes (token :: tokens) stop ↔
      ∃ middle, start.Takes [token] middle ∧ middle.Takes tokens stop := by
  constructor
  · rintro ⟨rest, hrest, htakes⟩
    exact ⟨_, ⟨rest, hrest, rfl⟩, htakes⟩
  · rintro ⟨_, ⟨rest, hrest, rfl⟩, htakes⟩
    exact ⟨rest, hrest, htakes⟩

/-- Tokens are taken one stretch after the other. -/
theorem takes_append_iff {front back : List Token} :
    start.Takes (front ++ back) stop ↔
      ∃ middle, start.Takes front middle ∧ middle.Takes back stop := by
  induction front generalizing start with
  | nil => simp
  | cons token front ih =>
    rw [List.cons_append, takes_cons_iff]
    constructor
    · rintro ⟨first, hfirst, hrest⟩
      obtain ⟨middle, hfront, hback⟩ := ih.1 hrest
      exact ⟨middle, takes_cons_iff.2 ⟨first, hfirst, hfront⟩, hback⟩
    · rintro ⟨middle, hfront, hback⟩
      obtain ⟨first, hfirst, hrest⟩ := takes_cons_iff.1 hfront
      exact ⟨first, hfirst, ih.2 ⟨middle, hrest, hback⟩⟩

theorem rest_eq_of_takes {tokens : List Token} (h : start.Takes tokens stop) :
    start.rest = tokens ++ stop.rest := by
  induction tokens generalizing start with
  | nil =>
    obtain rfl := takes_nil_iff.1 h
    rfl
  | cons token tokens ih =>
    obtain ⟨rest, hrest, htakes⟩ := h
    rw [hrest, List.cons_append]
    exact congrArg _ (ih htakes)

/-- The place in the line is the span of the token that was taken last. -/
theorem last_eq_of_takes {tokens : List Token} (h : start.Takes tokens stop) :
    stop.last = lastSpan start.last tokens := by
  induction tokens generalizing start with
  | nil =>
    obtain rfl := takes_nil_iff.1 h
    rfl
  | cons token tokens ih =>
    obtain ⟨rest, -, htakes⟩ := h
    exact ih htakes

/-- All tokens of a line can be taken. -/
theorem takes_all (last : Span) (tokens : List Token) :
    Takes ⟨last, tokens⟩ tokens ⟨lastSpan last tokens, []⟩ := by
  induction tokens generalizing last with
  | nil => rfl
  | cons token tokens ih => exact ⟨tokens, rfl, ih token.span⟩

/-- A token of another kind that comes next shows that the kind is lacking. -/
theorem Takes.lacks {token : Token} {tokens : List Token} {kind : TokenKind}
    (h : start.Takes (token :: tokens) stop) (hkind : token.kind ≠ kind) : start.Lacks kind := by
  obtain ⟨rest, hrest, -⟩ := h
  simpa [Lacks, hrest] using hkind

end Cursor

/-! ## Runs of readers -/

namespace LineReader

variable {α β : Type} {context : LineContext} {start stop : Cursor}

/-- The reader gives a value, goes from one place to another and reports nothing. -/
def Reads (reader : LineReader α) (context : LineContext) (start : Cursor) (a : α)
    (stop : Cursor) : Prop :=
  reader context start = ⟨[], some (a, stop)⟩

@[simp]
theorem reads_pure_iff {a b : α} :
    (pure a : LineReader α).Reads context start b stop ↔ b = a ∧ stop = start := by
  show (⟨[], some (a, start)⟩ : Reading α) = ⟨[], some (b, stop)⟩ ↔ _
  simp [eq_comm]

/-- A sequence reads without a fault exactly if both of its parts do, one behind the other. -/
theorem reads_bind_iff {reader : LineReader α} {next : α → LineReader β} {b : β} :
    (reader >>= next).Reads context start b stop ↔
      ∃ a middle, reader.Reads context start a middle ∧ (next a).Reads context middle b stop := by
  show LineReader.bind reader next context start = _ ↔ _
  unfold LineReader.bind Reads
  generalize reader context start = first
  obtain ⟨diagnostics, value⟩ := first
  cases value with
  | none => simp
  | some pair =>
    obtain ⟨a, middle⟩ := pair
    simp only [Reading.mk.injEq, List.append_eq_nil_iff, Option.some.injEq, Prod.mk.injEq]
    constructor
    · rintro ⟨⟨hfirst, hsecond⟩, hvalue⟩
      refine ⟨a, middle, ⟨hfirst, rfl, rfl⟩, ?_⟩
      rw [← hsecond, ← hvalue]
    · rintro ⟨_, _, ⟨hfirst, rfl, rfl⟩, hnext⟩
      rw [hnext]
      exact ⟨⟨hfirst, rfl⟩, rfl⟩

@[simp]
theorem not_reads_report {fault : Fault} {span : Span} {u : Unit} :
    ¬ (report fault span).Reads context start u stop := by
  simp [Reads, report]

@[simp]
theorem not_reads_fail {fault : Fault} {span : Span} {a : α} :
    ¬ (fail fault span : LineReader α).Reads context start a stop := by
  simp [Reads, fail]

theorem take_cons_of_kind {kind : TokenKind} {token : Token} (h : token.kind = kind)
    (context : LineContext) (last : Span) (rest : List Token) :
    take kind context ⟨last, token :: rest⟩ = ⟨[], some (token, ⟨token.span, rest⟩)⟩ :=
  if_pos h

theorem takeIf_cons_of_kind {kind : TokenKind} {token : Token} (h : token.kind = kind)
    (context : LineContext) (last : Span) (rest : List Token) :
    takeIf kind context ⟨last, token :: rest⟩ = ⟨[], some (true, ⟨token.span, rest⟩)⟩ :=
  if_pos h

/-- A token of another kind is reported, so the reader does not get past it. -/
theorem reads_take_iff {kind : TokenKind} {token : Token} :
    (take kind).Reads context start token stop ↔
      token.kind = kind ∧ start.Takes [token] stop := by
  rw [Reads, take, Cursor.Takes]
  obtain ⟨last, tokens⟩ := start
  cases tokens with
  | nil => simp
  | cons first rest =>
    by_cases h : first.kind = kind
    · simp only [if_pos h, Reading.mk.injEq, true_and, Option.some.injEq, Prod.mk.injEq,
        List.cons.injEq, Cursor.takes_nil_iff]
      constructor
      · rintro ⟨rfl, rfl⟩
        exact ⟨h, rest, ⟨rfl, rfl⟩, rfl⟩
      · rintro ⟨-, _, ⟨rfl, rfl⟩, rfl⟩
        exact ⟨rfl, rfl⟩
    · simp only [if_neg h, Reading.mk.injEq, reduceCtorEq, and_false, false_iff, not_and]
      rintro hkind ⟨_, heq, -⟩
      obtain ⟨rfl, rfl⟩ := List.cons.inj heq
      exact h hkind

/-- An optional token is taken where it comes next, and otherwise nothing is. -/
theorem reads_takeIf_iff {kind : TokenKind} {found : Bool} :
    (takeIf kind).Reads context start found stop ↔
      (found = true ∧ ∃ token : Token, token.kind = kind ∧ start.Takes [token] stop) ∨
        (found = false ∧ start.Lacks kind ∧ stop = start) := by
  unfold Reads takeIf Cursor.Takes Cursor.Lacks
  obtain ⟨last, tokens⟩ := start
  cases tokens with
  | nil => simp [eq_comm]
  | cons first rest =>
    by_cases h : first.kind = kind
    · simp only [if_pos h, Reading.mk.injEq, true_and, Option.some.injEq, Prod.mk.injEq,
        List.cons.injEq, Cursor.takes_nil_iff, List.head?_cons, Option.mem_def]
      constructor
      · rintro ⟨rfl, rfl⟩
        exact .inl ⟨rfl, first, h, rest, ⟨rfl, rfl⟩, rfl⟩
      · rintro (⟨rfl, _, -, _, ⟨rfl, rfl⟩, rfl⟩ | ⟨-, hlacks, -⟩)
        · exact ⟨rfl, rfl⟩
        · exact absurd h (hlacks first rfl)
    · simp only [if_neg h, Reading.mk.injEq, true_and, Option.some.injEq, Prod.mk.injEq,
        List.cons.injEq, Cursor.takes_nil_iff, List.head?_cons, Option.mem_def]
      constructor
      · rintro ⟨rfl, rfl⟩
        refine .inr ⟨rfl, ?_, rfl⟩
        rintro _ rfl
        exact h
      · rintro (⟨-, _, hkind, _, ⟨rfl, -⟩, -⟩ | ⟨rfl, -, rfl⟩)
        · exact absurd hkind h
        · exact ⟨rfl, rfl⟩

/-- A check that reports when it fails is passed exactly if it does not fail. -/
theorem reads_check_iff {condition : Prop} [Decidable condition] {fault : Fault} {span : Span}
    {next : LineReader α} {a : α} :
    (if condition then (do report fault span; next) else next).Reads context start a stop ↔
      ¬ condition ∧ next.Reads context start a stop := by
  by_cases h : condition <;> simp [h, reads_bind_iff]

/-! ## Operands -/

@[simp]
theorem reads_bank?_iff {found : Option Bank} :
    bank?.Reads context start found stop ↔ found = context.bank? ∧ stop = start := by
  simp [Reads, bank?, eq_comm]

/-- The check of the bank is passed by virtual registers and by those of the bank. -/
theorem reads_checkBank_iff {r : Register} {span : Span} {u : Unit} :
    (checkBank r span).Reads context start u stop ↔
      Bank.admits context.bank? r = true ∧ stop = start := by
  rw [checkBank, Bank.admits, Register.isReal]
  simp only [reads_bind_iff, reads_bank?_iff]
  constructor
  · rintro ⟨_, _, ⟨rfl, rfl⟩, h⟩
    cases hbank : context.bank? with
    | none => simpa [hbank] using h
    | some bank => cases hv : r.isVirtual <;> cases hc : bank.contains r <;> simp_all
  · rintro ⟨hadmits, rfl⟩
    refine ⟨_, _, ⟨rfl, rfl⟩, ?_⟩
    cases hbank : context.bank? with
    | none => simp
    | some bank => cases hv : r.isVirtual <;> cases hc : bank.contains r <;> simp_all

/-- A register is read from a token that names it. -/
theorem reads_register_iff {r : Register} {span : Span} :
    register.Reads context start (r, span) stop ↔
      ∃ token : Token, token.Names r ∧ span = token.span ∧
        Bank.admits context.bank? r = true ∧ start.Takes [token] stop := by
  unfold register Token.Names
  simp only [reads_bind_iff, reads_take_iff]
  constructor
  · rintro ⟨token, middle, ⟨hkind, htakes⟩, h⟩
    cases hparse : Register.parse token.text with
    | error cause => simp [hparse] at h
    | ok s =>
      simp only [hparse, reads_bind_iff, reads_checkBank_iff, reads_pure_iff,
        Prod.mk.injEq] at h
      obtain ⟨_, _, ⟨hadmits, rfl⟩, ⟨rfl, rfl⟩, rfl⟩ := h
      exact ⟨token, ⟨hkind, hparse⟩, rfl, hadmits, htakes⟩
  · rintro ⟨token, ⟨hkind, hparse⟩, rfl, hadmits, htakes⟩
    refine ⟨token, stop, ⟨hkind, htakes⟩, ?_⟩
    simp only [hparse]
    exact reads_bind_iff.2 ⟨(), stop, reads_checkBank_iff.2 ⟨hadmits, rfl⟩,
      reads_pure_iff.2 ⟨rfl, rfl⟩⟩

theorem reads_integerRegister_iff {r : Register} :
    integerRegister.Reads context start r stop ↔
      ∃ token : Token, token.Names r ∧ Bank.admits context.bank? r = true ∧
        r.cls.isInteger = true ∧ start.Takes [token] stop := by
  rw [integerRegister]
  simp only [reads_bind_iff, reads_check_iff, reads_pure_iff]
  constructor
  · rintro ⟨⟨s, span⟩, middle, hregister, hinteger, rfl, rfl⟩
    obtain ⟨token, hnames, -, hadmits, htakes⟩ := reads_register_iff.1 hregister
    exact ⟨token, hnames, hadmits, by simpa using hinteger, htakes⟩
  · rintro ⟨token, hnames, hadmits, hinteger, htakes⟩
    exact ⟨(r, token.span), stop, reads_register_iff.2 ⟨token, hnames, rfl, hadmits, htakes⟩,
      by simpa using hinteger, rfl, rfl⟩

/-- A number is read from a token the value of which is in range. -/
theorem reads_number_iff {negative : Bool} {word : Int64} :
    (number negative).Reads context start word stop ↔
      ∃ token : Token, token.Counts negative word ∧ start.Takes [token] stop := by
  unfold number Token.Counts
  simp only [reads_bind_iff, reads_take_iff]
  constructor
  · rintro ⟨token, middle, ⟨hkind, htakes⟩, h⟩
    cases hconstant : constant? negative token.text with
    | none => simp [hconstant] at h
    | some value =>
      simp only [hconstant, reads_pure_iff] at h
      obtain ⟨rfl, rfl⟩ := h
      exact ⟨token, ⟨hkind, toInt_of_constant? hconstant⟩, htakes⟩
  · rintro ⟨token, ⟨hkind, hvalue⟩, htakes⟩
    refine ⟨token, stop, ⟨hkind, htakes⟩, ?_⟩
    simp only [constant?_eq_some_iff.2 hvalue, reads_pure_iff, and_self]

theorem reads_signedNumber_iff {word : Int64} :
    signedNumber.Reads context start word stop ↔
      ∃ tokens, ConstantPhrase tokens word ∧ start.Takes tokens stop := by
  rw [signedNumber]
  simp only [reads_bind_iff, reads_takeIf_iff, reads_number_iff]
  constructor
  · rintro ⟨_, middle, ⟨rfl, minus, hminus, hfirst⟩ | ⟨rfl, -, rfl⟩, number, hcounts, htakes⟩
    · exact ⟨_, .negated hminus hcounts, Cursor.takes_cons_iff.2 ⟨middle, hfirst, htakes⟩⟩
    · exact ⟨_, .plain hcounts, htakes⟩
  · rintro ⟨_, @⟨number, _, hcounts⟩ | @⟨minus, number, _, hminus, hcounts⟩, htakes⟩
    -- A number that comes first is no minus sign, so none is taken.
    · exact ⟨false, start, .inr ⟨rfl, htakes.lacks (by simp [hcounts.1]), rfl⟩, number, hcounts,
        htakes⟩
    · obtain ⟨middle, hfirst, hsecond⟩ := Cursor.takes_cons_iff.1 htakes
      exact ⟨true, middle, .inl ⟨rfl, minus, hminus, hfirst⟩, number, hcounts, hsecond⟩

/-- Each of the two registers stands for one token, and both are of one class. -/
theorem reads_pair_iff {a b : Register} :
    pair.Reads context start (a, b) stop ↔
      ∃ tokens, PairPhrase tokens a b ∧ a.cls = b.cls ∧ Bank.admits context.bank? a = true ∧
        Bank.admits context.bank? b = true ∧ start.Takes tokens stop := by
  rw [pair]
  simp only [reads_bind_iff, reads_check_iff, reads_pure_iff, reads_take_iff]
  constructor
  · rintro ⟨⟨left, leftSpan⟩, afterLeft, hleft, comma, afterComma, ⟨hcomma, htakesComma⟩,
      ⟨right, rightSpan⟩, afterRight, hright, hclasses, heq, rfl⟩
    obtain ⟨rfl, rfl⟩ := Prod.mk.inj heq
    obtain ⟨first, hfirst, -, hadmitsLeft, htakesLeft⟩ := reads_register_iff.1 hleft
    obtain ⟨second, hsecond, -, hadmitsRight, htakesRight⟩ := reads_register_iff.1 hright
    refine ⟨_, .mk hfirst hcomma hsecond, by simpa using hclasses, hadmitsLeft, hadmitsRight, ?_⟩
    exact Cursor.takes_cons_iff.2 ⟨_, htakesLeft, Cursor.takes_cons_iff.2 ⟨_, htakesComma,
      htakesRight⟩⟩
  · rintro ⟨_, ⟨hfirst, hcomma, hsecond⟩, hclasses, hadmitsLeft, hadmitsRight, htakes⟩
    obtain ⟨afterLeft, htakesLeft, htakes⟩ := Cursor.takes_cons_iff.1 htakes
    obtain ⟨afterComma, htakesComma, htakesRight⟩ := Cursor.takes_cons_iff.1 htakes
    exact ⟨_, _, reads_register_iff.2 ⟨_, hfirst, rfl, hadmitsLeft, htakesLeft⟩,
      _, _, ⟨hcomma, htakesComma⟩,
      _, _, reads_register_iff.2 ⟨_, hsecond, rfl, hadmitsRight, htakesRight⟩,
      by simpa using hclasses, rfl, rfl⟩

/-- Where neither sign follows, the distance is the empty phrase. -/
theorem reads_offset_iff {word : Int64} :
    offset.Reads context start word stop ↔
      ∃ tokens, DistancePhrase tokens word ∧ start.Takes tokens stop ∧
        (tokens = [] → start.Lacks .plus ∧ start.Lacks .minus) := by
  rw [offset]
  simp only [reads_bind_iff, reads_takeIf_iff]
  constructor
  · rintro ⟨_, middle, ⟨rfl, plus, hplus, hfirst⟩ | ⟨rfl, hnoPlus, rfl⟩, h⟩
    · simp only [if_true, reads_number_iff] at h
      obtain ⟨number, hcounts, hsecond⟩ := h
      exact ⟨_, .added hplus hcounts, Cursor.takes_cons_iff.2 ⟨_, hfirst, hsecond⟩, by simp⟩
    · simp only [Bool.false_eq_true, if_false, reads_bind_iff, reads_takeIf_iff] at h
      obtain ⟨_, middle, ⟨rfl, minus, hminus, hfirst⟩ | ⟨rfl, hnoMinus, rfl⟩, h⟩ := h
      · simp only [if_true, reads_number_iff] at h
        obtain ⟨number, hcounts, hsecond⟩ := h
        exact ⟨_, .subtracted hminus hcounts, Cursor.takes_cons_iff.2 ⟨_, hfirst, hsecond⟩,
          by simp⟩
      · simp only [Bool.false_eq_true, if_false, reads_pure_iff] at h
        obtain ⟨rfl, rfl⟩ := h
        exact ⟨[], .absent, rfl, fun _ => ⟨hnoPlus, hnoMinus⟩⟩
  · rintro ⟨_, _ | ⟨hplus, hcounts⟩ | ⟨hminus, hcounts⟩, htakes, hlacks⟩
    -- Of the three phrases only the empty one makes demands on what follows it.
    · obtain rfl := Cursor.takes_nil_iff.1 htakes
      obtain ⟨hnoPlus, hnoMinus⟩ := hlacks rfl
      refine ⟨false, _, .inr ⟨rfl, hnoPlus, rfl⟩, ?_⟩
      simp only [Bool.false_eq_true, if_false, reads_bind_iff, reads_takeIf_iff]
      refine ⟨false, _, .inr ⟨rfl, hnoMinus, rfl⟩, ?_⟩
      simp
    · obtain ⟨middle, hfirst, hsecond⟩ := Cursor.takes_cons_iff.1 htakes
      refine ⟨true, middle, .inl ⟨rfl, _, hplus, hfirst⟩, ?_⟩
      simp only [if_true, reads_number_iff]
      exact ⟨_, hcounts, hsecond⟩
    · obtain ⟨middle, hfirst, hsecond⟩ := Cursor.takes_cons_iff.1 htakes
      refine ⟨false, _, .inr ⟨rfl, htakes.lacks (by simp [hminus]), rfl⟩, ?_⟩
      simp only [Bool.false_eq_true, if_false, reads_bind_iff, reads_takeIf_iff]
      refine ⟨true, middle, .inl ⟨rfl, _, hminus, hfirst⟩, ?_⟩
      simp only [if_true, reads_number_iff]
      exact ⟨_, hcounts, hsecond⟩

/-- A memory operand is read from a phrase in brackets, with an integer register as its base. -/
theorem reads_address_iff {target : Address} :
    address.Reads context start target stop ↔
      ∃ tokens base, AddressPhrase tokens target ∧ target.base = .reg base ∧
        base.cls.isInteger = true ∧ Bank.admits context.bank? base = true ∧
        start.Takes tokens stop := by
  rw [address]
  simp only [reads_bind_iff, reads_take_iff, reads_pure_iff, reads_integerRegister_iff,
    reads_offset_iff]
  constructor
  · rintro ⟨left, afterLeft, ⟨hleft, htakesLeft⟩, base, afterBase,
      ⟨name, hname, hadmits, hinteger, htakesBase⟩, word, afterDistance,
      ⟨distance, hdistance, htakesDistance, -⟩, right, _, ⟨hright, htakesRight⟩, rfl, rfl⟩
    refine ⟨_, base, .mk hleft hname hdistance hright, rfl, hinteger, hadmits, ?_⟩
    exact Cursor.takes_cons_iff.2 ⟨_, htakesLeft, Cursor.takes_cons_iff.2 ⟨_, htakesBase,
      Cursor.takes_append_iff.2 ⟨_, htakesDistance, htakesRight⟩⟩⟩
  · rintro ⟨_, base, @⟨left, name, right, distance, r, word, hleft, hname, hdistance, hright⟩,
      hbase, hinteger, hadmits, htakes⟩
    obtain rfl := Handle.reg.inj hbase
    obtain ⟨afterLeft, htakesLeft, htakes⟩ := Cursor.takes_cons_iff.1 htakes
    obtain ⟨afterBase, htakesBase, htakes⟩ := Cursor.takes_cons_iff.1 htakes
    obtain ⟨afterDistance, htakesDistance, htakesRight⟩ := Cursor.takes_append_iff.1 htakes
    refine ⟨left, afterLeft, ⟨hleft, htakesLeft⟩, r, afterBase,
      ⟨name, hname, hadmits, hinteger, htakesBase⟩, word, afterDistance,
      ⟨distance, hdistance, htakesDistance, ?_⟩, right, stop, ⟨hright, htakesRight⟩, rfl, rfl⟩
    rintro rfl
    -- The bracket that closes the operand is what follows an absent distance.
    obtain rfl := Cursor.takes_nil_iff.1 htakesDistance
    exact ⟨htakesRight.lacks (by simp [hright]), htakesRight.lacks (by simp [hright])⟩

/-! ## Items -/

/-- The demands on an instruction: on the classes of its operands, and by the bank. -/
theorem admissible_instr_iff {bank? : Option Bank} {inst : Instr} :
    (Item.instr inst).Admissible bank? ↔
      inst.wellTyped = true ∧ ∀ r, .reg r ∈ inst.operands → Bank.admits bank? r = true := by
  rw [Item.Admissible, Item.wellTyped, Item.registers]
  refine and_congr_right fun _ => ⟨fun h r hr => h r ?_, fun h r hr => h r ?_⟩
  · exact List.mem_filterMap.2 ⟨.reg r, hr, rfl⟩
  · obtain ⟨h', hmem, hreg⟩ := List.mem_filterMap.1 hr
    cases h' with
    | reg s =>
      obtain rfl := Option.some.inj hreg
      exact hmem
    | invalid => exact absurd hreg (by simp [Handle.register?])

/-- Instructions with one register as their operand. -/
theorem reads_registerForm_iff (form : Register → Instr)
    (hoperands : ∀ r, (form r).operands = [.reg r]) (htyped : ∀ r, (form r).wellTyped = true)
    {inst : Instr} :
    (do
        let (r, _) ← register
        return form r).Reads context start inst stop ↔
      ∃ token r, Token.Names token r ∧ inst = form r ∧ (Item.instr inst).Admissible context.bank? ∧
        start.Takes [token] stop := by
  simp only [reads_bind_iff, Prod.exists, reads_register_iff, reads_pure_iff,
    admissible_instr_iff]
  constructor
  · rintro ⟨r, _, _, ⟨token, hnames, -, hadmits, htakes⟩, rfl, rfl⟩
    exact ⟨token, r, hnames, rfl, ⟨htyped r, by simpa [hoperands] using hadmits⟩, htakes⟩
  · rintro ⟨token, r, hnames, rfl, ⟨-, hadmits⟩, htakes⟩
    exact ⟨r, _, _, ⟨token, hnames, rfl, hadmits r (by simp [hoperands]), htakes⟩, rfl, rfl⟩

/-- Instructions with two registers of one class as their operands. -/
theorem reads_pairForm_iff (form : Register → Register → Instr)
    (hoperands : ∀ a b, (form a b).operands = [.reg a, .reg b])
    (htyped : ∀ a b, (form a b).wellTyped = true ↔ a.cls = b.cls) {inst : Instr} :
    (do
        let (a, b) ← pair
        return form a b).Reads context start inst stop ↔
      ∃ tokens a b, PairPhrase tokens a b ∧ inst = form a b ∧
        (Item.instr inst).Admissible context.bank? ∧ start.Takes tokens stop := by
  simp only [reads_bind_iff, Prod.exists, reads_pair_iff, reads_pure_iff, admissible_instr_iff]
  constructor
  · rintro ⟨a, b, _, ⟨tokens, hpair, hclasses, ha, hb, htakes⟩, rfl, rfl⟩
    exact ⟨tokens, a, b, hpair, rfl,
      ⟨(htyped a b).2 hclasses, by simpa [hoperands] using ⟨ha, hb⟩⟩, htakes⟩
  · rintro ⟨tokens, a, b, hpair, rfl, ⟨hclasses, hadmits⟩, htakes⟩
    exact ⟨a, b, _, ⟨tokens, hpair, (htyped a b).1 hclasses, hadmits a (by simp [hoperands]),
      hadmits b (by simp [hoperands]), htakes⟩, rfl, rfl⟩

/-- Instructions with a register and a memory operand, the base of which is an integer. -/
theorem reads_addressForm_iff (form : Register → Address → Instr)
    (hoperands : ∀ r target, (form r target).operands = [.reg r, target.base])
    (htyped : ∀ r base word, (form r ⟨.reg base, word⟩).wellTyped = true ↔
      base.cls.isInteger = true) {inst : Instr} :
    (do
        let (r, _) ← register
        let _ ← take .comma
        let target ← address
        return form r target).Reads context start inst stop ↔
      ∃ name comma tokens r target, Token.Names name r ∧ Token.kind comma = .comma ∧
        AddressPhrase tokens target ∧ inst = form r target ∧
        (Item.instr inst).Admissible context.bank? ∧
        start.Takes (name :: comma :: tokens) stop := by
  simp only [reads_bind_iff, Prod.exists, reads_register_iff, reads_take_iff, reads_address_iff,
    reads_pure_iff, admissible_instr_iff]
  constructor
  · rintro ⟨r, _, _, ⟨name, hname, -, hr, htakesName⟩, comma, _, ⟨hcomma, htakesComma⟩,
      ⟨_, word⟩, _, ⟨tokens, base, haddress, rfl, hinteger, hbase, htakes⟩, rfl, rfl⟩
    refine ⟨name, comma, tokens, r, _, hname, hcomma, haddress, rfl,
      ⟨(htyped r base word).2 hinteger, by simpa [hoperands] using ⟨hr, hbase⟩⟩, ?_⟩
    exact Cursor.takes_cons_iff.2 ⟨_, htakesName, Cursor.takes_cons_iff.2 ⟨_, htakesComma,
      htakes⟩⟩
  · rintro ⟨name, comma, tokens, r, target, hname, hcomma, haddress, rfl, ⟨hinteger, hadmits⟩,
      htakes⟩
    obtain ⟨base, hbase⟩ : ∃ base, target.base = .reg base := by
      cases haddress
      exact ⟨_, rfl⟩
    obtain ⟨_, word⟩ := target
    obtain rfl : _ = Handle.reg base := hbase
    obtain ⟨_, htakesName, htakes⟩ := Cursor.takes_cons_iff.1 htakes
    obtain ⟨_, htakesComma, htakes⟩ := Cursor.takes_cons_iff.1 htakes
    exact ⟨r, _, _, ⟨name, hname, rfl, hadmits r (by simp [hoperands]), htakesName⟩, comma, _,
      ⟨hcomma, htakesComma⟩, _, _, ⟨tokens, base, haddress, rfl, (htyped r base word).1 hinteger,
      hadmits base (by simp [hoperands]), htakes⟩, rfl, rfl⟩

/-- A load of a constant has a register of an integer class as its only operand. -/
theorem reads_operands_li_iff {inst : Instr} :
    (operands .li).Reads context start inst stop ↔
      ∃ tokens, OperandPhrase .li tokens inst ∧ (Item.instr inst).Admissible context.bank? ∧
        start.Takes tokens stop := by
  simp only [operands, reads_bind_iff, reads_integerRegister_iff, reads_take_iff,
    reads_signedNumber_iff, reads_pure_iff, admissible_instr_iff]
  constructor
  · rintro ⟨r, _, ⟨dst, hdst, hadmits, hinteger, htakesDst⟩, comma, _, ⟨hcomma, htakesComma⟩,
      imm, _, ⟨constant, hconstant, htakes⟩, rfl, rfl⟩
    refine ⟨_, .li hdst hcomma hconstant, ⟨hinteger, by simpa [Instr.operands] using hadmits⟩,
      ?_⟩
    exact Cursor.takes_cons_iff.2 ⟨_, htakesDst, Cursor.takes_cons_iff.2 ⟨_, htakesComma,
      htakes⟩⟩
  · rintro ⟨_, @⟨dst, comma, constant, r, imm, hdst, hcomma, hconstant⟩, ⟨hinteger, hadmits⟩,
      htakes⟩
    obtain ⟨_, htakesDst, htakes⟩ := Cursor.takes_cons_iff.1 htakes
    obtain ⟨_, htakesComma, htakes⟩ := Cursor.takes_cons_iff.1 htakes
    exact ⟨r, _, ⟨dst, hdst, hadmits r (by simp [Instr.operands]), hinteger, htakesDst⟩, comma,
      _, ⟨hcomma, htakesComma⟩, imm, _, ⟨constant, hconstant, htakes⟩, rfl, rfl⟩

/-- A product is added to a register of the class of its factors, which the reader of the pair
compares with each other only. -/
theorem reads_operands_fma_iff {inst : Instr} :
    (operands .fma).Reads context start inst stop ↔
      ∃ tokens, OperandPhrase .fma tokens inst ∧ (Item.instr inst).Admissible context.bank? ∧
        start.Takes tokens stop := by
  simp only [operands, reads_bind_iff, Prod.exists, reads_register_iff, reads_take_iff,
    reads_pair_iff, reads_check_iff, reads_pure_iff, admissible_instr_iff]
  constructor
  · rintro ⟨r, _, _, ⟨dst, hdst, -, hr, htakesDst⟩, comma, _, ⟨hcomma, htakesComma⟩, a, b, _,
      ⟨tokens, hpair, hclasses, ha, hb, htakes⟩, hdstClass, rfl, rfl⟩
    have hsame : r.cls = a.cls :=
      Decidable.byContradiction fun hne => hdstClass ⟨hclasses, hne⟩
    refine ⟨_, .fma hdst hcomma hpair, ⟨by simp [Instr.wellTyped, hsame, hclasses],
      by simpa [Instr.operands] using ⟨hr, ha, hb⟩⟩, ?_⟩
    exact Cursor.takes_cons_iff.2 ⟨_, htakesDst, Cursor.takes_cons_iff.2 ⟨_, htakesComma,
      htakes⟩⟩
  · rintro ⟨_, hphrase, ⟨htyped, hadmits⟩, htakes⟩
    cases hphrase with
    | @fma dst comma tokens r a b hdst hcomma hpair =>
      obtain ⟨hsame, hclasses⟩ : r.cls = a.cls ∧ a.cls = b.cls := by
        simpa [Instr.wellTyped] using htyped
      obtain ⟨_, htakesDst, htakes⟩ := Cursor.takes_cons_iff.1 htakes
      obtain ⟨_, htakesComma, htakes⟩ := Cursor.takes_cons_iff.1 htakes
      exact ⟨r, _, _, ⟨dst, hdst, rfl, hadmits r (by simp [Instr.operands]), htakesDst⟩, comma,
        _, ⟨hcomma, htakesComma⟩, a, b, _, ⟨tokens, hpair, hclasses,
        hadmits a (by simp [Instr.operands]), hadmits b (by simp [Instr.operands]), htakes⟩,
        fun h => h.2 hsame, rfl, rfl⟩

/-- After its mnemonic, the operands of an instruction are read from a phrase of its form. -/
theorem reads_operands_iff {mnemonic : Mnemonic} {inst : Instr} :
    (operands mnemonic).Reads context start inst stop ↔
      ∃ tokens, OperandPhrase mnemonic tokens inst ∧ (Item.instr inst).Admissible context.bank? ∧
        start.Takes tokens stop := by
  cases mnemonic with
  | li => exact reads_operands_li_iff
  | mov =>
    refine (reads_pairForm_iff (fun dst src => .mov (.reg dst) (.reg src))
      (fun _ _ => rfl) (fun _ _ => by simp [Instr.wellTyped])).trans ?_
    constructor
    · rintro ⟨tokens, _, _, hpair, rfl, hrest⟩
      exact ⟨tokens, .mov hpair, hrest⟩
    · rintro ⟨tokens, hphrase, hrest⟩
      cases hphrase with
      | mov hpair => exact ⟨tokens, _, _, hpair, rfl, hrest⟩
  | alu op =>
    refine (reads_pairForm_iff (fun dst src => .alu op (.reg dst) (.reg src))
      (fun _ _ => rfl) (fun _ _ => by simp [Instr.wellTyped])).trans ?_
    constructor
    · rintro ⟨tokens, _, _, hpair, rfl, hrest⟩
      exact ⟨tokens, .alu hpair, hrest⟩
    · rintro ⟨tokens, hphrase, hrest⟩
      cases hphrase with
      | alu hpair => exact ⟨tokens, _, _, hpair, rfl, hrest⟩
  | neg =>
    refine (reads_registerForm_iff (fun dst => .neg (.reg dst)) (fun _ => rfl)
      (fun _ => rfl)).trans ?_
    constructor
    · rintro ⟨_, _, hdst, rfl, hrest⟩
      exact ⟨_, .neg hdst, hrest⟩
    · rintro ⟨_, hphrase, hrest⟩
      cases hphrase with
      | neg hdst => exact ⟨_, _, hdst, rfl, hrest⟩
  | ld =>
    refine (reads_addressForm_iff (fun dst source => .ld (.reg dst) source)
      (fun _ _ => rfl) (fun _ _ _ => Iff.rfl)).trans ?_
    constructor
    · rintro ⟨_, _, _, _, _, hdst, hcomma, hsource, rfl, hrest⟩
      exact ⟨_, .ld hdst hcomma hsource, hrest⟩
    · rintro ⟨_, hphrase, hrest⟩
      cases hphrase with
      | ld hdst hcomma hsource => exact ⟨_, _, _, _, _, hdst, hcomma, hsource, rfl, hrest⟩
  | st =>
    refine (reads_addressForm_iff (fun src target => .st (.reg src) target)
      (fun _ _ => rfl) (fun _ _ _ => Iff.rfl)).trans ?_
    constructor
    · rintro ⟨_, _, _, _, _, hsrc, hcomma, htarget, rfl, hrest⟩
      exact ⟨_, .st hsrc hcomma htarget, hrest⟩
    · rintro ⟨_, hphrase, hrest⟩
      cases hphrase with
      | st hsrc hcomma htarget => exact ⟨_, _, _, _, _, hsrc, hcomma, htarget, rfl, hrest⟩
  | fma => exact reads_operands_fma_iff
  | cmp =>
    refine (reads_pairForm_iff (fun left right => .cmp (.reg left) (.reg right))
      (fun _ _ => rfl) (fun _ _ => by simp [Instr.wellTyped])).trans ?_
    constructor
    · rintro ⟨tokens, _, _, hpair, rfl, hrest⟩
      exact ⟨tokens, .cmp hpair, hrest⟩
    · rintro ⟨tokens, hphrase, hrest⟩
      cases hphrase with
      | cmp hpair => exact ⟨tokens, _, _, hpair, rfl, hrest⟩
  | ret =>
    refine (reads_registerForm_iff (fun src => .ret (.reg src)) (fun _ => rfl)
      (fun _ => rfl)).trans ?_
    constructor
    · rintro ⟨_, _, hsrc, rfl, hrest⟩
      exact ⟨_, .ret hsrc, hrest⟩
    · rintro ⟨_, hphrase, hrest⟩
      cases hphrase with
      | ret hsrc => exact ⟨_, _, hsrc, rfl, hrest⟩

/-- An instruction is read from a sentence that starts with its mnemonic. -/
theorem reads_instruction_iff {inst : Instr} :
    instruction.Reads context start inst stop ↔
      ∃ tokens, Sentence tokens (.instr inst) ∧ (Item.instr inst).Admissible context.bank? ∧
        start.Takes tokens stop := by
  rw [instruction]
  simp only [reads_bind_iff, reads_take_iff]
  constructor
  · rintro ⟨name, _, ⟨hkind, htakesName⟩, h⟩
    cases hmnemonic : Mnemonic.ofText? name.text with
    | none => simp [hmnemonic] at h
    | some mnemonic =>
      simp only [hmnemonic, reads_operands_iff] at h
      obtain ⟨tokens, hphrase, hadmissible, htakes⟩ := h
      have hcalls : name.Calls mnemonic := ⟨hkind, (Mnemonic.text_eq_of_ofText? hmnemonic).symm⟩
      exact ⟨name :: tokens, .instr hcalls hphrase, hadmissible,
        Cursor.takes_cons_iff.2 ⟨_, htakesName, htakes⟩⟩
  · rintro ⟨_, hsentence, hadmissible, htakes⟩
    cases hsentence with
    | @instr name tokens mnemonic _ hcalls hphrase =>
      obtain ⟨middle, htakesName, htakes⟩ := Cursor.takes_cons_iff.1 htakes
      refine ⟨name, middle, ⟨hcalls.1, htakesName⟩, ?_⟩
      simp only [hcalls.2, Mnemonic.ofText?_text]
      exact reads_operands_iff.2 ⟨tokens, hphrase, hadmissible, htakes⟩

/-- No fault is found with an assignment of a real register to a virtual one of its class. -/
theorem assignmentFault?_eq_none_iff {virt real : Register} {virtSpan realSpan : Span} :
    assignmentFault? virt real virtSpan realSpan = none ↔
      (Item.assignment virt real).wellTyped = true := by
  unfold assignmentFault? Item.wellTyped Register.isReal
  cases hvirt : virt.isVirtual <;> cases hreal : real.isVirtual <;> simp [hvirt, hreal]

/-- An assignment with a fault is reported, so that nothing is read without one. -/
theorem reads_assignment_iff {item? : Option Item} :
    assignment.Reads context start item? stop ↔
      ∃ tokens virt real, item? = some (.assignment virt real) ∧
        Sentence tokens (.assignment virt real) ∧
        (Item.assignment virt real).Admissible context.bank? ∧ start.Takes tokens stop := by
  rw [assignment]
  simp only [reads_bind_iff, Prod.exists, reads_register_iff, reads_take_iff]
  constructor
  · rintro ⟨virt, virtSpan, _, ⟨left, hleft, -, hadmitsLeft, htakesLeft⟩, arrow, _,
      ⟨harrow, htakesArrow⟩, real, realSpan, _, ⟨right, hright, -, hadmitsRight, htakesRight⟩, h⟩
    cases hfault : assignmentFault? virt real virtSpan realSpan with
    | some diagnostic => simp [hfault, reads_bind_iff] at h
    | none =>
      simp only [hfault, reads_pure_iff] at h
      obtain ⟨rfl, rfl⟩ := h
      refine ⟨_, virt, real, rfl, .assignment hleft harrow hright,
        ⟨assignmentFault?_eq_none_iff.1 hfault,
          by simpa [Item.registers] using ⟨hadmitsLeft, hadmitsRight⟩⟩, ?_⟩
      exact Cursor.takes_cons_iff.2 ⟨_, htakesLeft, Cursor.takes_cons_iff.2 ⟨_, htakesArrow,
        htakesRight⟩⟩
  · rintro ⟨_, virt, real, rfl, hsentence, ⟨htyped, hadmits⟩, htakes⟩
    cases hsentence with
    | @assignment left arrow right _ _ hleft harrow hright =>
      obtain ⟨_, htakesLeft, htakes⟩ := Cursor.takes_cons_iff.1 htakes
      obtain ⟨_, htakesArrow, htakesRight⟩ := Cursor.takes_cons_iff.1 htakes
      refine ⟨virt, _, _, ⟨left, hleft, rfl, hadmits virt (by simp [Item.registers]), htakesLeft⟩,
        arrow, _, ⟨harrow, htakesArrow⟩, real, _, _, ⟨right, hright, rfl,
        hadmits real (by simp [Item.registers]), htakesRight⟩, ?_⟩
      simp only [assignmentFault?_eq_none_iff.2 htyped, reads_pure_iff, and_self]

/-- A line read from its first token on is read without a fault exactly if it starts with a
sentence that keeps the rules. -/
theorem reads_item_iff {last : Span} {first : Token} {rest : List Token} {item? : Option Item} :
    (item first).Reads context ⟨last, first :: rest⟩ item? stop ↔
      ∃ tokens said, item? = some said ∧ Sentence tokens said ∧
        said.Admissible context.bank? ∧ Cursor.Takes ⟨last, first :: rest⟩ tokens stop := by
  constructor
  · intro h
    rw [item] at h
    split at h
    · obtain ⟨tokens, virt, real, rfl, hrest⟩ := reads_assignment_iff.1 h
      exact ⟨tokens, _, rfl, hrest⟩
    · simp only [reads_bind_iff, reads_instruction_iff, reads_pure_iff] at h
      obtain ⟨inst, _, ⟨tokens, hrest⟩, rfl, rfl⟩ := h
      exact ⟨tokens, _, rfl, hrest⟩
    · exact absurd h not_reads_fail
  · rintro ⟨tokens, said, rfl, hsentence, hadmissible, htakes⟩
    -- The first token of a sentence tells which of the two forms it has.
    have hfirst : ∀ {token : Token} {later : List Token},
        Cursor.Takes ⟨last, first :: rest⟩ (token :: later) stop → token = first := by
      rintro token later ⟨_, heq, -⟩
      exact (List.cons.inj heq).1.symm
    cases hsentence with
    | instr hcalls hphrase =>
      obtain rfl := hfirst htakes
      simp only [item, hcalls.1, reads_bind_iff, reads_instruction_iff, reads_pure_iff]
      exact ⟨_, stop, ⟨_, .instr hcalls hphrase, hadmissible, htakes⟩, rfl, rfl⟩
    | assignment hleft harrow hright =>
      obtain rfl := hfirst htakes
      simp only [item, hleft.1, reads_assignment_iff]
      exact ⟨_, _, _, rfl, .assignment hleft harrow hright, hadmissible, htakes⟩

/-! ## Giving up -/

/-- A reader that gives up has reported a fault. -/
def Explains (reader : LineReader α) : Prop :=
  ∀ context start, (reader context start).value = none → (reader context start).diagnostics ≠ []

theorem explains_item (first : Token) : (item first).Explains := by
  intro context start hnone
  obtain ⟨diagnostic, hmem, -⟩ := (accountable_item first context start).1 (by simp [hnone])
  exact List.ne_nil_of_mem hmem

end LineReader

end RegisterMapping
