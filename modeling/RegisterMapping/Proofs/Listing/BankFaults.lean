import Mathlib.Data.List.Basic
import RegisterMapping.Proofs.Listing.Bankless
import RegisterMapping.Proofs.Listing.Values

/-!
# What is said about the bank

The first token of a line tells where registers have to stand in it. From the front of the line
tokens are read as long as each is of the kind that is expected in its place, and as long as a
register can be made of the text of each register token: these are `Line.tokensRead`. Under a bank
there is one diagnostic for each register token among them that is a real register which the bank
lacks, and without a bank the same listing is parsed with all the other diagnostics
(`Listing.parse_under_bank`).

A reader takes tokens of the kinds that it expects and leaves the others to what comes after it
(`LineReader.Walks`), and what it says about the bank it says about the tokens of these kinds
(`LineReader.Complains`). What comes after the last register of a line asks about none, and says
nothing about the bank (`LineReader.Built.aboutBank_eq_nil`).
-/

set_option autoImplicit false

namespace RegisterMapping

/-! ## The registers of a line -/

/-- The register that the token is the text of, if it is one. -/
def Token.register? (token : Token) : Option Register :=
  if token.kind = .register then (Register.parse token.text).toOption else none

/-- The tokens at the front that are as expected: each is of the kind expected in its place, and
where that is a register, it is the text of one. -/
def expectedFront : List TokenKind → List Token → List Token
  | kind :: kinds, token :: rest =>
    if token.kind = kind ∧ (kind = .register → token.register?.isSome = true) then
      token :: expectedFront kinds rest
    else []
  | _, _ => []

/-- The kinds of the tokens after a mnemonic, up to the last register. -/
def Mnemonic.expectedKinds : Mnemonic → List TokenKind
  | .li | .neg | .ret => [.register]
  | .mov | .alu _ | .cmp => [.register, .comma, .register]
  | .ld | .st => [.register, .comma, .leftBracket, .register]
  | .fma => [.register, .comma, .register, .comma, .register]

/-- The kinds of the tokens of a line that starts with the token, up to the last register. -/
def Token.expectedKinds (first : Token) : List TokenKind :=
  match first.kind with
  | .register => [.register, .arrow, .register]
  | .name =>
    match Mnemonic.ofText? first.text with
    | some mnemonic => .name :: mnemonic.expectedKinds
    | none => []
  | _ => []

/-- The tokens that are read of a line, up to its last register. Nothing is read of a line with
invalid characters. -/
def Line.tokensRead (line : Line) : List Token :=
  match line.invalidTokens, line.tokens with
  | [], first :: rest => expectedFront first.expectedKinds (first :: rest)
  | _, _ => []

/-- What is said about a token under a bank: a real register has to be in it. -/
def Bank.fault? (bank : Bank) (token : Token) : Option Diagnostic :=
  match token.register? with
  | some r =>
    if r.isReal = true ∧ bank.contains r = false then some ⟨.notInBank bank.arch r, token.span⟩
    else none
  | none => none

/-- The diagnostics that are about the bank. -/
def aboutBank (diagnostics : List Diagnostic) : List Diagnostic :=
  diagnostics.filter fun diagnostic => diagnostic.code = "EB00"

/-- The tokens that are left to a second reader; none if the first one gave up. -/
def Reading.remaining {α : Type} (reading : Reading α) : List Token :=
  match reading.value with
  | some (_, place) => place.rest
  | none => []

/-- A token holds the register that it names. -/
theorem Token.register?_eq_some_iff {token : Token} {r : Register} :
    token.register? = some r ↔ token.Names r := by
  rw [register?, Names]
  split
  · next hkind =>
    cases hparse : Register.parse token.text <;> simp [hkind, Except.toOption]
  · next hkind => simp [hkind]

theorem Token.Names.register? {token : Token} {r : Register} (h : token.Names r) :
    token.register? = some r :=
  Token.register?_eq_some_iff.2 h

theorem Token.register?_of_kind {token : Token} (h : token.kind ≠ .register) :
    token.register? = none :=
  if_neg h

theorem Bank.fault?_of_kind (bank : Bank) {token : Token} (h : token.kind ≠ .register) :
    bank.fault? token = none := by
  rw [fault?, Token.register?_of_kind h]

@[simp]
theorem expectedFront_nil_left (tokens : List Token) : expectedFront [] tokens = [] := rfl

@[simp]
theorem expectedFront_nil_right (kinds : List TokenKind) : expectedFront kinds [] = [] := by
  cases kinds <;> rfl

theorem expectedFront_cons_of_kind {kind : TokenKind} {token : Token} (h : token.kind = kind)
    (hkind : kind ≠ .register) (kinds : List TokenKind) (rest : List Token) :
    expectedFront (kind :: kinds) (token :: rest) = token :: expectedFront kinds rest :=
  if_pos ⟨h, fun hregister => absurd hregister hkind⟩

theorem expectedFront_cons_of_names {token : Token} {r : Register} (h : token.Names r)
    (kinds : List TokenKind) (rest : List Token) :
    expectedFront (.register :: kinds) (token :: rest) = token :: expectedFront kinds rest :=
  if_pos ⟨h.1, fun _ => by simp [h.register?]⟩

theorem expectedFront_cons_of_ne {kind : TokenKind} {token : Token} (h : token.kind ≠ kind)
    (kinds : List TokenKind) (rest : List Token) :
    expectedFront (kind :: kinds) (token :: rest) = [] :=
  if_neg fun hexpected => h hexpected.1

/-- The front ends before a register token of which no register can be made. -/
theorem expectedFront_cons_of_malformed {token : Token} (h : token.register? = none)
    (kinds : List TokenKind) (rest : List Token) :
    expectedFront (.register :: kinds) (token :: rest) = [] :=
  if_neg fun hexpected => by simpa [h] using hexpected.2 rfl

/-- The tokens that are as expected stand at the front. -/
theorem expectedFront_prefix (kinds : List TokenKind) (tokens : List Token) :
    expectedFront kinds tokens <+: tokens := by
  induction kinds generalizing tokens with
  | nil => exact List.nil_prefix
  | cons kind kinds ih =>
    cases tokens with
    | nil => exact List.nil_prefix
    | cons token rest =>
      rw [expectedFront]
      split
      · exact List.cons_prefix_cons.2 ⟨rfl, ih rest⟩
      · exact List.nil_prefix

theorem Line.tokensRead_prefix (line : Line) : line.tokensRead <+: line.tokens := by
  rw [tokensRead]
  split
  · next first rest _ htokens =>
    rw [htokens]
    exact expectedFront_prefix _ _
  · exact List.nil_prefix

theorem aboutBank_append (a b : List Diagnostic) :
    aboutBank (a ++ b) = aboutBank a ++ aboutBank b :=
  List.filter_append a b

theorem aboutBank_eq_nil {diagnostics : List Diagnostic}
    (h : ∀ diagnostic ∈ diagnostics, diagnostic.code ≠ "EB00") : aboutBank diagnostics = [] :=
  List.filter_eq_nil_iff.2 fun diagnostic hmem heq => h diagnostic hmem (of_decide_eq_true heq)

theorem aboutBank_toList_fault? (bank : Bank) (token : Token) :
    aboutBank (bank.fault? token).toList = (bank.fault? token).toList := by
  rw [Bank.fault?]
  split
  · split
    · rfl
    · rfl
  · rfl

/-! ## Sentences -/

/-- Of a pair both registers are read. -/
theorem PairPhrase.registers_expectedFront {tokens : List Token} {a b : Register}
    (h : PairPhrase tokens a b) (later : List Token) :
    (expectedFront [.register, .comma, .register] (tokens ++ later)).filterMap Token.register? =
      [a, b] := by
  obtain ⟨hleft, hcomma, hright⟩ := h
  simp [expectedFront_cons_of_names hleft, expectedFront_cons_of_kind hcomma,
    expectedFront_cons_of_names hright, hleft.register?, hright.register?,
    Token.register?_of_kind, hcomma]

/-- Of the register and the memory operand of an instruction both registers are read. -/
theorem AddressPhrase.registers_expectedFront {name comma : Token} {tokens : List Token}
    {r : Register} {target : Address} (hname : name.Names r) (hcomma : comma.kind = .comma)
    (h : AddressPhrase tokens target) (later : List Token) :
    (expectedFront [.register, .comma, .leftBracket, .register]
        (name :: comma :: (tokens ++ later))).filterMap Token.register? =
      [.reg r, target.base].filterMap Handle.register? := by
  obtain ⟨hleft, hbase, -, -⟩ := h
  simp [expectedFront_cons_of_names hname, expectedFront_cons_of_kind hcomma,
    expectedFront_cons_of_kind hleft, expectedFront_cons_of_names hbase, hname.register?,
    hbase.register?, Token.register?_of_kind, hcomma, hleft, Handle.register?]

/-- Of the operands of an instruction all registers are read. -/
theorem OperandPhrase.registers_expectedFront {mnemonic : Mnemonic} {tokens : List Token}
    {inst : Instr} (h : OperandPhrase mnemonic tokens inst) (later : List Token) :
    (expectedFront mnemonic.expectedKinds (tokens ++ later)).filterMap Token.register? =
      inst.operands.filterMap Handle.register? := by
  cases h with
  | li hdst _ _ | neg hdst | ret hdst =>
    simp [Mnemonic.expectedKinds, expectedFront_cons_of_names hdst, hdst.register?,
      Instr.operands, Handle.register?]
  | mov hpair | alu hpair | cmp hpair => exact hpair.registers_expectedFront later
  | ld hname hcomma haddress => exact haddress.registers_expectedFront hname hcomma later
  | st hname hcomma haddress => exact haddress.registers_expectedFront hname hcomma later
  | fma hdst hcomma hpair =>
    have hfactors := hpair.registers_expectedFront later
    simp [Mnemonic.expectedKinds, expectedFront_cons_of_names hdst,
      expectedFront_cons_of_kind hcomma, hdst.register?, Token.register?_of_kind, hcomma,
      hfactors, Instr.operands, Handle.register?]

/-- Of a line that starts with a sentence the registers are read which the sentence mentions. -/
theorem Sentence.registers_expectedFront {first : Token} {tokens later : List Token} {said : Item}
    (h : Sentence (first :: tokens) said) :
    (expectedFront first.expectedKinds (first :: (tokens ++ later))).filterMap Token.register? =
      said.registers := by
  cases h with
  | @instr _ _ mnemonic _ hcalls hphrase =>
    have hkinds : first.expectedKinds = .name :: mnemonic.expectedKinds := by
      simp [Token.expectedKinds, hcalls.1, hcalls.2]
    rw [hkinds, expectedFront_cons_of_kind hcalls.1 (by decide), List.filterMap_cons,
      Token.register?_of_kind (by simp [hcalls.1])]
    exact hphrase.registers_expectedFront later
  | assignment hleft harrow hright =>
    simp [Token.expectedKinds, hleft.1, expectedFront_cons_of_names hleft,
      expectedFront_cons_of_kind harrow, expectedFront_cons_of_names hright, hleft.register?,
      hright.register?, Token.register?_of_kind, harrow, Item.registers]

/-- Of a line with an item the registers are read which the item mentions. -/
theorem Line.registers_tokensRead {bank? : Option Bank} {line : Line} {said : Item} {span : Span}
    (h : (line.read bank?).item? = some (said, span)) :
    line.tokensRead.filterMap Token.register? = said.registers := by
  obtain ⟨hvalid, tokens, later, hsentence, htokens⟩ := Line.sentence_of_item h
  cases tokens with
  | nil => cases hsentence
  | cons first rest =>
    rw [tokensRead, hvalid, htokens]
    exact hsentence.registers_expectedFront

/-! ## Readers that say nothing about the bank -/

namespace LineReader

variable {α β : Type}

/-- What follows a reader and says nothing about the bank adds nothing to what the reader says. -/
theorem aboutBank_bind {reader : LineReader α} {next : α → LineReader β}
    (hnext : ∀ a context start, aboutBank (next a context start).diagnostics = [])
    (context : LineContext) (start : Cursor) :
    aboutBank ((reader >>= next) context start).diagnostics =
      aboutBank (reader context start).diagnostics := by
  show aboutBank (LineReader.bind reader next context start).diagnostics = _
  rw [LineReader.bind]
  cases hvalue : (reader context start).value with
  | none => rfl
  | some pair => simp only [aboutBank_append, hnext, List.append_nil]

theorem aboutBank_take (kind : TokenKind) (context : LineContext) (start : Cursor) :
    aboutBank (take kind context start).diagnostics = [] := by
  rw [take]
  split
  · split
    · rfl
    · rfl
  · rfl

theorem aboutBank_takeIf (kind : TokenKind) (context : LineContext) (start : Cursor) :
    aboutBank (takeIf kind context start).diagnostics = [] := by
  rw [takeIf]
  split
  · split
    · rfl
    · rfl
  · rfl

/-- A reader that asks about no register says nothing about the bank. -/
theorem Built.aboutBank_eq_nil {reader : LineReader α} (h : Built False reader)
    (context : LineContext) (start : Cursor) :
    aboutBank (reader context start).diagnostics = [] := by
  induction h generalizing context start with
  | pure a => rfl
  | bind _ _ hreader hnext => rw [aboutBank_bind hnext, hreader]
  | report span hfault | fail span hfault =>
    apply RegisterMapping.aboutBank_eq_nil
    intro diagnostic hmem
    obtain rfl := List.mem_singleton.1 hmem
    exact hfault
  | take kind => exact aboutBank_take kind context start
  | takeIf kind => exact aboutBank_takeIf kind context start
  | checkBank r span hasks => exact hasks.elim

/-! ## Registers -/

/-- Either a token is read as a register, and the bank is asked about it, or the reader gives up and
says nothing about the bank. -/
theorem register_cases (bank : Bank) (terminator : Terminator) (start : Cursor) :
    (∃ token rest r, start.rest = token :: rest ∧ Token.Names token r ∧
        register ⟨some bank, terminator⟩ start =
          ⟨(bank.fault? token).toList, some ((r, token.span), ⟨token.span, rest⟩)⟩) ∨
      (∀ kinds, expectedFront (.register :: kinds) start.rest = []) ∧
        (register ⟨some bank, terminator⟩ start).value = none ∧
        aboutBank (register ⟨some bank, terminator⟩ start).diagnostics = [] := by
  show (∃ token rest r, _ ∧ _ ∧ LineReader.bind (take .register) _ _ start = _) ∨
    _ ∧ (LineReader.bind (take .register) _ _ start).value = none ∧
      aboutBank (LineReader.bind (take .register) _ _ start).diagnostics = []
  simp only [LineReader.bind, take]
  cases hrest : start.rest with
  | nil => exact .inr ⟨fun _ => rfl, rfl, rfl⟩
  | cons token rest =>
    by_cases hkind : token.kind = .register
    · cases hparse : Register.parse token.text with
      | error cause =>
        have hnone : token.register? = none := by
          simp [Token.register?, hparse, Except.toOption]
        refine .inr ⟨fun _ => expectedFront_cons_of_malformed hnone _ _, ?_, ?_⟩
        · simp [hkind, hparse, fail]
        · simp [hkind, hparse, fail, aboutBank, Diagnostic.code, Fault.code]
      | ok r =>
        have hnames : token.Names r := ⟨hkind, hparse⟩
        refine .inl ⟨token, rest, r, rfl, hnames, ?_⟩
        have hcheck := checkBank_eq bank terminator r token.span ⟨token.span, rest⟩
        simp only [if_pos hkind, hparse, Bank.fault?, hnames.register?]
        show LineReader.bind (checkBank r token.span) _ _ _ = _
        simp only [LineReader.bind, hcheck]
        split
        · rfl
        · rfl
    · refine .inr ⟨fun _ => expectedFront_cons_of_ne hkind _ _, ?_, ?_⟩
      · simp [hkind]
      · simp [hkind, aboutBank, Diagnostic.code, Fault.code]

/-! ## Readers that take tokens as expected -/

/-- Under the bank the reader takes tokens of the kinds: what is expected behind them is expected of
the tokens that it leaves. -/
def Walks (bank : Bank) (kinds : List TokenKind) (reader : LineReader α) : Prop :=
  ∀ terminator start later, expectedFront (kinds ++ later) start.rest =
    expectedFront kinds start.rest ++
      expectedFront later (reader ⟨some bank, terminator⟩ start).remaining

/-- What the reader says about the bank is about the tokens at the front that are as expected. -/
def Complains (bank : Bank) (kinds : List TokenKind) (reader : LineReader α) : Prop :=
  ∀ terminator start, aboutBank (reader ⟨some bank, terminator⟩ start).diagnostics =
    (expectedFront kinds start.rest).filterMap bank.fault?

variable {bank : Bank} {kinds front back : List TokenKind} {reader : LineReader α}
  {next : α → LineReader β}

/-- The second reader complains about the tokens that the first one leaves. -/
theorem Complains.bind (h : Complains bank front reader) (hwalks : Walks bank front reader)
    (hnext : ∀ a, Complains bank back (next a)) :
    Complains bank (front ++ back) (reader >>= next) := by
  intro terminator start
  have hfirst := h terminator start
  rw [hwalks terminator start back, List.filterMap_append, ← hfirst]
  show aboutBank (LineReader.bind reader next _ start).diagnostics = _
  rw [LineReader.bind]
  -- Where the first one gives up, no tokens are left, and so none are as expected.
  cases hvalue : (reader ⟨some bank, terminator⟩ start).value with
  | none => simp [Reading.remaining, hvalue]
  | some pair =>
    obtain ⟨a, place⟩ := pair
    have hsecond := hnext a terminator place
    simp only [Reading.remaining, hvalue, aboutBank_append, hsecond]

/-- What comes after the last register adds no complaint. -/
theorem Complains.bind_built (h : Complains bank kinds reader)
    (hnext : ∀ a, Built False (next a)) : Complains bank kinds (reader >>= next) := by
  intro terminator start
  rw [aboutBank_bind fun a => (hnext a).aboutBank_eq_nil, h terminator start]

theorem walks_take {kind : TokenKind} (hkind : kind ≠ .register) :
    Walks bank [kind] (take kind) := by
  intro terminator start later
  rw [take]
  split
  · next token rest hrest =>
    rw [hrest]
    split
    · next h =>
      simp only [List.cons_append, List.nil_append, expectedFront_cons_of_kind h hkind]
      rfl
    · next h =>
      simp only [List.cons_append, List.nil_append, expectedFront_cons_of_ne h]
      exact (expectedFront_nil_right later).symm
  · next hrest => simp [hrest, Reading.remaining]

theorem complains_take {kind : TokenKind} (hkind : kind ≠ .register) :
    Complains bank [kind] (take kind) := by
  intro terminator start
  rw [aboutBank_take]
  cases start.rest with
  | nil => rfl
  | cons token rest =>
    by_cases h : token.kind = kind
    · have hnone : bank.fault? token = none := bank.fault?_of_kind (h.symm ▸ hkind)
      simp [expectedFront_cons_of_kind h hkind, hnone]
    · rw [expectedFront_cons_of_ne h, List.filterMap_nil]

theorem walks_register : Walks bank [.register] register := by
  intro terminator start later
  obtain ⟨token, rest, r, hrest, hnames, hregister⟩ | ⟨hnone, hvalue, -⟩ :=
    register_cases bank terminator start
  · rw [hrest, hregister]
    simp only [List.cons_append, List.nil_append, expectedFront_cons_of_names hnames]
    rfl
  · simp [hnone, Reading.remaining, hvalue]

theorem complains_register : Complains bank [.register] register := by
  intro terminator start
  obtain ⟨token, rest, r, hrest, hnames, hregister⟩ | ⟨hnone, -, hsilent⟩ :=
    register_cases bank terminator start
  · rw [hrest, hregister, expectedFront_cons_of_names hnames, aboutBank_toList_fault?]
    cases hfault : bank.fault? token <;> simp [hfault]
  · rw [hsilent, hnone, List.filterMap_nil]

theorem complains_integerRegister : Complains bank [.register] integerRegister :=
  complains_register.bind_built fun _ => (Built.pure _).check (by simp [Fault.code])

/-- A pair asks about its two registers, and about nothing between them. -/
theorem complains_pair : Complains bank [.register, .comma, .register] pair := by
  apply complains_register.bind walks_register
  intro left
  apply (complains_take (by decide)).bind (walks_take (by decide))
  intro comma
  apply complains_register.bind_built
  intro right
  exact (Built.pure _).check (by simp [Fault.code])

/-- A memory operand asks about its base only. -/
theorem complains_address : Complains bank [.leftBracket, .register] address := by
  apply (complains_take (by decide)).bind (walks_take (by decide))
  intro left
  apply complains_integerRegister.bind_built
  intro base
  apply graded_offset.built.bind
  intro word
  apply (Built.take _).bind
  intro right
  exact .pure _

/-! ## Items -/

/-- The operands ask about registers up to the last one that the mnemonic expects. -/
theorem complains_operands (mnemonic : Mnemonic) :
    Complains bank mnemonic.expectedKinds (operands mnemonic) := by
  cases mnemonic with
  | li =>
    apply complains_integerRegister.bind_built
    intro dst
    apply (Built.take _).bind
    intro comma
    apply graded_signedNumber.built.bind
    intro imm
    exact .pure _
  | mov | alu | cmp =>
    apply complains_pair.bind_built
    intro registers
    exact .pure _
  | neg | ret =>
    apply complains_register.bind_built
    intro placed
    exact .pure _
  | ld | st =>
    apply complains_register.bind walks_register
    intro placed
    apply (complains_take (by decide)).bind (walks_take (by decide))
    intro comma
    apply complains_address.bind_built
    intro target
    exact .pure _
  | fma =>
    apply complains_register.bind walks_register
    intro dst
    apply (complains_take (by decide)).bind (walks_take (by decide))
    intro comma
    apply complains_pair.bind_built
    intro factors
    exact (Built.pure _).check (by simp [Fault.code])

theorem complains_assignment : Complains bank [.register, .arrow, .register] assignment := by
  apply complains_register.bind walks_register
  intro virt
  apply (complains_take (by decide)).bind (walks_take (by decide))
  intro arrow
  apply complains_register.bind_built
  intro real
  exact built_settled (fun _ hfault => code_of_assignmentFault? hfault) _

theorem instruction_cons {first : Token} (hkind : first.kind = .name) (context : LineContext)
    (last : Span) (rest : List Token) :
    instruction context ⟨last, first :: rest⟩ =
      (match Mnemonic.ofText? first.text with
        | some mnemonic => operands mnemonic
        | none => fail (.unknownInstruction first.text) first.span : LineReader Instr)
        context ⟨first.span, rest⟩ := by
  have htake : take .name context ⟨last, first :: rest⟩ =
      ⟨[], some (first, ⟨first.span, rest⟩)⟩ := if_pos hkind
  show LineReader.bind (take .name) _ context ⟨last, first :: rest⟩ = _
  rw [LineReader.bind, htake]
  rfl

/-- What is said about the bank in a line is about the tokens that are expected after the first. -/
theorem aboutBank_item (bank : Bank) (terminator : Terminator) (first : Token) (rest : List Token) :
    aboutBank (item first ⟨some bank, terminator⟩ ⟨first.span, first :: rest⟩).diagnostics =
      (expectedFront first.expectedKinds (first :: rest)).filterMap bank.fault? := by
  unfold item Token.expectedKinds
  cases hkind : first.kind with
  | register => exact complains_assignment terminator ⟨first.span, first :: rest⟩
  | name =>
    have hnone : bank.fault? first = none := bank.fault?_of_kind (by simp [hkind])
    simp only [aboutBank_bind fun _ => (Built.pure _).aboutBank_eq_nil, instruction_cons hkind]
    cases Mnemonic.ofText? first.text with
    | none => simp [fail, aboutBank, Diagnostic.code, Fault.code]
    | some mnemonic =>
      simp only [complains_operands mnemonic terminator ⟨first.span, rest⟩,
        expectedFront_cons_of_kind hkind (by decide), List.filterMap_cons, hnone]
  | _ => simp [fail, aboutBank, Diagnostic.code, Fault.code]

end LineReader

/-! ## Lines and listings -/

theorem Line.aboutBank_trailing (tokens : List Token) : aboutBank (trailing tokens) = [] := by
  cases tokens with
  | nil => rfl
  | cons token rest => rfl

/-- What is said about the bank in a line is about the tokens that are read of it. -/
theorem Line.aboutBank_read (bank : Bank) (line : Line) :
    aboutBank ((line.read (some bank)).diagnostics ++ (line.read (some bank)).trailing) =
      line.tokensRead.filterMap bank.fault? := by
  rw [aboutBank_append, read, tokensRead]
  cases line.invalidTokens with
  | cons token later =>
    rw [aboutBank_eq_nil (by simp [Diagnostic.code, Fault.code])]
    rfl
  | nil =>
    cases line.tokens with
    | nil => rfl
    | cons first rest =>
      have hitem := LineReader.aboutBank_item bank line.terminator first rest
      simp only
      rw [← hitem]
      split
      · exact List.append_nil _
      · simp only [aboutBank_trailing, List.append_nil]

/-- Of what settling a line may add nothing is about the bank. -/
theorem LineReading.aboutBank_settle (earlier : List Assignment) (reading : LineReading) :
    aboutBank (reading.settle earlier).diagnostics =
      aboutBank (reading.diagnostics ++ reading.trailing) := by
  rw [settle]
  split
  · rfl
  · rfl
  · split
    · next virt _ span _ _ first _ =>
      have htwice : ∀ later, aboutBank (⟨.assignedTwice virt first.span, span⟩ :: later) =
          aboutBank later := fun _ => rfl
      simp only [aboutBank_append, htwice]
    · rfl

/-- What is said of the bank is said when lines are read; settling them adds nothing to it. -/
theorem aboutBank_join_settleLines (earlier : List Assignment) (readings : List LineReading) :
    aboutBank (ParsedListing.join (settleLines earlier readings)).diagnostics =
      readings.flatMap fun reading => aboutBank (reading.diagnostics ++ reading.trailing) := by
  induction readings generalizing earlier with
  | nil => rfl
  | cons reading rest ih =>
    rw [settleLines, List.flatMap_cons, ← ih, ← reading.aboutBank_settle earlier,
      ← aboutBank_append]
    rfl

/-- A bank has no say in what is parsed, and all that it adds to what is said is one diagnostic for
each token that is read as a real register which it lacks, at the token. The tokens that are read of
a line stand at its front, and the registers among them are those of its item if it has one. -/
theorem Listing.parse_under_bank (source : String) (file : Nat) (bank : Bank) :
    let checked := parse source file (some bank)
    let plain := parse source file none
    checked.listing = plain.listing ∧
      (checked.diagnostics.filter fun diagnostic => diagnostic.code ≠ "EB00") =
        plain.diagnostics ∧
      (checked.diagnostics.filter fun diagnostic => diagnostic.code = "EB00") =
        ((linesOf file source.toList).flatMap Line.tokensRead).filterMap bank.fault? ∧
      ∀ line ∈ linesOf file source.toList, line.tokensRead <+: line.tokens ∧
        ∀ said span, (line.read none).item? = some (said, span) →
          line.tokensRead.filterMap Token.register? = said.registers := by
  intro checked plain
  have hplain : plain = checked.besidesBank := parse_besidesBank source file bank
  have habout : aboutBank checked.diagnostics =
      ((linesOf file source.toList).flatMap Line.tokensRead).filterMap bank.fault? := by
    show aboutBank (ParsedListing.join (settleLines [] _)).diagnostics = _
    rw [aboutBank_join_settleLines, List.flatMap_map, List.filterMap_flatMap]
    exact List.flatMap_congr fun line _ => line.aboutBank_read bank
  refine ⟨?_, ?_, habout, fun line _ => ⟨line.tokensRead_prefix, fun said span h => ?_⟩⟩
  · rw [hplain]
    rfl
  · rw [hplain]
    rfl
  · exact Line.registers_tokensRead h

/-- Of the second line, which breaks off, the register before the break is read, and the one behind
it is not, although the bank lacks it as well. -/
theorem Listing.parse_under_bank_sample :
    let source := "mov %R99, %vR0\nfma %R98, %vR1 %R97"
    let first : Line := ⟨[⟨.name, "mov".toList, ⟨0, 0, 3⟩⟩, ⟨.register, "%R99".toList, ⟨0, 4, 8⟩⟩,
      ⟨.comma, ",".toList, ⟨0, 8, 9⟩⟩, ⟨.register, "%vR0".toList, ⟨0, 10, 14⟩⟩],
      ⟨some .newline, ⟨0, 14, 15⟩⟩⟩
    ∃ bank, Bank.ofArchitecture? .riscv64 = some bank ∧
      (parse source 0 (some bank)).listing = (parse source 0 none).listing ∧
      ((parse source 0 (some bank)).diagnostics.filter fun diagnostic =>
        diagnostic.code = "EB00").map Diagnostic.span = [⟨0, 4, 8⟩, ⟨0, 19, 23⟩] ∧
      first ∈ linesOf 0 source.toList ∧
      ∃ said span, (first.read none).item? = some (said, span) ∧
        first.tokensRead.filterMap Token.register? = said.registers := by
  intro source first
  obtain ⟨bank, hbank⟩ : ∃ bank, Bank.ofArchitecture? .riscv64 = some bank := ⟨_, rfl⟩
  have hmem : first ∈ linesOf 0 source.toList := by decide +kernel
  obtain ⟨hlisting, -, habout, hlines⟩ := parse_under_bank source 0 bank
  have hspans : ((Bank.ofArchitecture? .riscv64).toList.flatMap fun bank =>
      ((linesOf 0 source.toList).flatMap Line.tokensRead).filterMap bank.fault?).map
        Diagnostic.span = [⟨0, 4, 8⟩, ⟨0, 19, 23⟩] := by decide +kernel
  refine ⟨bank, hbank, hlisting, ?_, hmem, _, _, rfl, (hlines first hmem).2 _ _ rfl⟩
  rw [habout]
  simpa [hbank] using hspans

end RegisterMapping
