import RegisterMapping.Proofs.Listing.Reader

/-!
# What is read in spite of faults

A register that the bank lacks or that has the wrong class is reported, and the reading goes on. So
a reader may give a value and have reported something. Whatever it has reported, it has taken a
phrase of the grammar and gives what the phrase says. Each reader gets one lemma, and
`LineReader.sentence_of_value_item` is the one for a whole line.
-/

set_option autoImplicit false

namespace RegisterMapping

namespace LineReader

variable {α β : Type} {context : LineContext} {start stop : Cursor}

/-! ## Sequences -/

/-- A sequence gives a value exactly if both of its parts do, whatever they report. -/
theorem value_bind_eq_some_iff {reader : LineReader α} {next : α → LineReader β} {b : β} :
    ((reader >>= next) context start).value = some (b, stop) ↔
      ∃ a middle, (reader context start).value = some (a, middle) ∧
        (next a context middle).value = some (b, stop) := by
  show (LineReader.bind reader next context start).value = _ ↔ _
  rw [LineReader.bind]
  generalize reader context start = first
  obtain ⟨diagnostics, value⟩ := first
  cases value with
  | none => simp
  | some pair => simp [Prod.ext_iff (x := pair), and_assoc]

theorem value_pure_eq_some_iff {a b : α} :
    ((pure a : LineReader α) context start).value = some (b, stop) ↔ b = a ∧ stop = start := by
  show some (a, start) = some (b, stop) ↔ _
  simp [eq_comm]

/-- A check that reports when it fails has no say in what is read. -/
theorem value_check {condition : Prop} [Decidable condition] {fault : Fault} {span : Span}
    {next : LineReader α} :
    ((if condition then (do report fault span; next) else next) context start).value =
      (next context start).value := by
  split
  · show (LineReader.bind (report fault span) (fun _ => next) context start).value = _
    rw [LineReader.bind, report]
  · rfl

/-! ## Tokens -/

theorem takes_of_value_take {kind : TokenKind} {token : Token}
    (h : (take kind context start).value = some (token, stop)) :
    token.kind = kind ∧ start.Takes [token] stop := by
  rw [take] at h
  split at h
  · next first rest hrest =>
    split at h
    · next hkind =>
      obtain ⟨rfl, rfl⟩ := Prod.mk.inj (Option.some.inj h)
      exact ⟨hkind, rest, hrest, rfl⟩
    · cases h
  · cases h

theorem takes_of_value_takeIf {kind : TokenKind} {found : Bool}
    (h : (takeIf kind context start).value = some (found, stop)) :
    (found = true ∧ ∃ token : Token, token.kind = kind ∧ start.Takes [token] stop) ∨
      (found = false ∧ stop = start) := by
  rw [takeIf] at h
  split at h
  · next first rest hrest =>
    split at h
    · next hkind =>
      obtain ⟨rfl, rfl⟩ := Prod.mk.inj (Option.some.inj h)
      exact .inl ⟨rfl, first, hkind, rest, hrest, rfl⟩
    · obtain ⟨rfl, rfl⟩ := Prod.mk.inj (Option.some.inj h)
      exact .inr ⟨rfl, rfl⟩
  · obtain ⟨rfl, rfl⟩ := Prod.mk.inj (Option.some.inj h)
    exact .inr ⟨rfl, rfl⟩

/-! ## Operands -/

/-- A register is read with the span of its token. -/
theorem takes_of_value_register {r : Register} {span : Span}
    (h : (register context start).value = some ((r, span), stop)) :
    ∃ token : Token, token.Names r ∧ span = token.span ∧ start.Takes [token] stop := by
  obtain ⟨token, middle, htake, hparse⟩ := value_bind_eq_some_iff.1 h
  obtain ⟨hkind, htakes⟩ := takes_of_value_take htake
  cases hparsed : Register.parse token.text with
  | error cause =>
    simp only [hparsed] at hparse
    cases hparse
  | ok s =>
    simp only [hparsed] at hparse
    obtain ⟨_, after, hcheck, hreturn⟩ := value_bind_eq_some_iff.1 hparse
    rw [value_checkBank] at hcheck
    obtain ⟨-, rfl⟩ := Prod.mk.inj (Option.some.inj hcheck)
    obtain ⟨heq, rfl⟩ := value_pure_eq_some_iff.1 hreturn
    obtain ⟨rfl, hspan⟩ := Prod.mk.inj heq
    exact ⟨token, ⟨hkind, hparsed⟩, hspan, htakes⟩

theorem takes_of_value_integerRegister {r : Register}
    (h : (integerRegister context start).value = some (r, stop)) :
    ∃ token : Token, token.Names r ∧ start.Takes [token] stop := by
  obtain ⟨⟨s, span⟩, middle, hregister, hcheck⟩ := value_bind_eq_some_iff.1 h
  obtain ⟨rfl, rfl⟩ := value_pure_eq_some_iff.1 (value_check.symm.trans hcheck)
  obtain ⟨token, hnames, -, htakes⟩ := takes_of_value_register hregister
  exact ⟨token, hnames, htakes⟩

theorem takes_of_value_number {negative : Bool} {word : Int64}
    (h : (number negative context start).value = some (word, stop)) :
    ∃ token : Token, token.Counts negative word ∧ start.Takes [token] stop := by
  obtain ⟨token, middle, htake, hconstant⟩ := value_bind_eq_some_iff.1 h
  obtain ⟨hkind, htakes⟩ := takes_of_value_take htake
  cases hvalue : constant? negative token.text with
  | none =>
    simp only [hvalue] at hconstant
    cases hconstant
  | some value =>
    simp only [hvalue] at hconstant
    obtain ⟨rfl, rfl⟩ := value_pure_eq_some_iff.1 hconstant
    exact ⟨token, ⟨hkind, toInt_of_constant? hvalue⟩, htakes⟩

theorem takes_of_value_signedNumber {word : Int64}
    (h : (signedNumber context start).value = some (word, stop)) :
    ∃ tokens, ConstantPhrase tokens word ∧ start.Takes tokens stop := by
  obtain ⟨negative, middle, hsign, hnumber⟩ := value_bind_eq_some_iff.1 h
  obtain ⟨number, hcounts, htakes⟩ := takes_of_value_number hnumber
  obtain ⟨rfl, minus, hminus, hfirst⟩ | ⟨rfl, rfl⟩ := takes_of_value_takeIf hsign
  · exact ⟨_, .negated hminus hcounts, Cursor.takes_cons_iff.2 ⟨_, hfirst, htakes⟩⟩
  · exact ⟨_, .plain hcounts, htakes⟩

theorem takes_of_value_pair {a b : Register}
    (h : (pair context start).value = some ((a, b), stop)) :
    ∃ tokens, PairPhrase tokens a b ∧ start.Takes tokens stop := by
  obtain ⟨⟨left, leftSpan⟩, afterLeft, hleft, h⟩ := value_bind_eq_some_iff.1 h
  obtain ⟨comma, afterComma, hcomma, h⟩ := value_bind_eq_some_iff.1 h
  obtain ⟨⟨right, rightSpan⟩, afterRight, hright, hcheck⟩ := value_bind_eq_some_iff.1 h
  obtain ⟨heq, rfl⟩ := value_pure_eq_some_iff.1 (value_check.symm.trans hcheck)
  obtain ⟨rfl, rfl⟩ := Prod.mk.inj heq
  obtain ⟨first, hfirst, -, htakesLeft⟩ := takes_of_value_register hleft
  obtain ⟨hkind, htakesComma⟩ := takes_of_value_take hcomma
  obtain ⟨second, hsecond, -, htakesRight⟩ := takes_of_value_register hright
  exact ⟨_, .mk hfirst hkind hsecond, Cursor.takes_cons_iff.2 ⟨_, htakesLeft,
    Cursor.takes_cons_iff.2 ⟨_, htakesComma, htakesRight⟩⟩⟩

theorem takes_of_value_offset {word : Int64}
    (h : (offset context start).value = some (word, stop)) :
    ∃ tokens, DistancePhrase tokens word ∧ start.Takes tokens stop := by
  obtain ⟨plusFound, afterPlus, hplus, hafterPlus⟩ := value_bind_eq_some_iff.1 h
  obtain ⟨rfl, plus, hkind, hfirst⟩ | ⟨rfl, rfl⟩ := takes_of_value_takeIf hplus
  · simp only [if_true] at hafterPlus
    obtain ⟨number, hcounts, htakes⟩ := takes_of_value_number hafterPlus
    exact ⟨_, .added hkind hcounts, Cursor.takes_cons_iff.2 ⟨_, hfirst, htakes⟩⟩
  -- Only where no plus sign was found is a minus sign looked for.
  · simp only [Bool.false_eq_true, if_false] at hafterPlus
    obtain ⟨minusFound, afterMinus, hminus, hafterMinus⟩ := value_bind_eq_some_iff.1 hafterPlus
    obtain ⟨rfl, minus, hkind, hfirst⟩ | ⟨rfl, rfl⟩ := takes_of_value_takeIf hminus
    · simp only [if_true] at hafterMinus
      obtain ⟨number, hcounts, htakes⟩ := takes_of_value_number hafterMinus
      exact ⟨_, .subtracted hkind hcounts, Cursor.takes_cons_iff.2 ⟨_, hfirst, htakes⟩⟩
    · simp only [Bool.false_eq_true, if_false] at hafterMinus
      obtain ⟨rfl, rfl⟩ := value_pure_eq_some_iff.1 hafterMinus
      exact ⟨[], .absent, rfl⟩

theorem takes_of_value_address {target : Address}
    (h : (address context start).value = some (target, stop)) :
    ∃ tokens, AddressPhrase tokens target ∧ start.Takes tokens stop := by
  obtain ⟨left, afterLeft, hleft, h⟩ := value_bind_eq_some_iff.1 h
  obtain ⟨base, afterBase, hbase, h⟩ := value_bind_eq_some_iff.1 h
  obtain ⟨word, afterDistance, hdistance, h⟩ := value_bind_eq_some_iff.1 h
  obtain ⟨right, afterRight, hright, h⟩ := value_bind_eq_some_iff.1 h
  obtain ⟨rfl, rfl⟩ := value_pure_eq_some_iff.1 h
  obtain ⟨hleftKind, htakesLeft⟩ := takes_of_value_take hleft
  obtain ⟨name, hnames, htakesBase⟩ := takes_of_value_integerRegister hbase
  obtain ⟨distance, hphrase, htakesDistance⟩ := takes_of_value_offset hdistance
  obtain ⟨hrightKind, htakesRight⟩ := takes_of_value_take hright
  exact ⟨_, .mk hleftKind hnames hphrase hrightKind, Cursor.takes_cons_iff.2 ⟨_, htakesLeft,
    Cursor.takes_cons_iff.2 ⟨_, htakesBase, Cursor.takes_append_iff.2 ⟨_, htakesDistance,
    htakesRight⟩⟩⟩⟩

/-! ## Items -/

/-- Instructions with one register as their operand. -/
theorem takes_of_value_registerForm (form : Register → Instr) {inst : Instr}
    (h : ((do
        let (r, _) ← register
        return form r : LineReader Instr) context start).value = some (inst, stop)) :
    ∃ token r, Token.Names token r ∧ inst = form r ∧ start.Takes [token] stop := by
  obtain ⟨⟨r, span⟩, middle, hregister, h⟩ := value_bind_eq_some_iff.1 h
  obtain ⟨rfl, rfl⟩ := value_pure_eq_some_iff.1 h
  obtain ⟨token, hnames, -, htakes⟩ := takes_of_value_register hregister
  exact ⟨token, r, hnames, rfl, htakes⟩

/-- Instructions with two registers as their operands. -/
theorem takes_of_value_pairForm (form : Register → Register → Instr) {inst : Instr}
    (h : ((do
        let (a, b) ← pair
        return form a b : LineReader Instr) context start).value = some (inst, stop)) :
    ∃ tokens a b, PairPhrase tokens a b ∧ inst = form a b ∧ start.Takes tokens stop := by
  obtain ⟨⟨a, b⟩, middle, hpair, h⟩ := value_bind_eq_some_iff.1 h
  obtain ⟨rfl, rfl⟩ := value_pure_eq_some_iff.1 h
  obtain ⟨tokens, hphrase, htakes⟩ := takes_of_value_pair hpair
  exact ⟨tokens, a, b, hphrase, rfl, htakes⟩

/-- Instructions with a register and a memory operand. -/
theorem takes_of_value_addressForm (form : Register → Address → Instr) {inst : Instr}
    (h : ((do
        let (r, _) ← register
        let _ ← take .comma
        let target ← address
        return form r target : LineReader Instr) context start).value = some (inst, stop)) :
    ∃ name comma tokens r target, Token.Names name r ∧ Token.kind comma = .comma ∧
      AddressPhrase tokens target ∧ inst = form r target ∧
      start.Takes (name :: comma :: tokens) stop := by
  obtain ⟨⟨r, span⟩, afterName, hregister, h⟩ := value_bind_eq_some_iff.1 h
  obtain ⟨comma, afterComma, hcomma, h⟩ := value_bind_eq_some_iff.1 h
  obtain ⟨target, afterTarget, haddress, h⟩ := value_bind_eq_some_iff.1 h
  obtain ⟨rfl, rfl⟩ := value_pure_eq_some_iff.1 h
  obtain ⟨name, hnames, -, htakesName⟩ := takes_of_value_register hregister
  obtain ⟨hkind, htakesComma⟩ := takes_of_value_take hcomma
  obtain ⟨tokens, hphrase, htakes⟩ := takes_of_value_address haddress
  exact ⟨name, comma, tokens, r, target, hnames, hkind, hphrase, rfl,
    Cursor.takes_cons_iff.2 ⟨_, htakesName, Cursor.takes_cons_iff.2 ⟨_, htakesComma, htakes⟩⟩⟩

/-- Operands that are given were read from a phrase of the mnemonic, with or without faults. -/
theorem takes_of_value_operands {mnemonic : Mnemonic} {inst : Instr}
    (h : (operands mnemonic context start).value = some (inst, stop)) :
    ∃ tokens, OperandPhrase mnemonic tokens inst ∧ start.Takes tokens stop := by
  cases mnemonic with
  | li =>
    obtain ⟨r, afterDst, hdst, h⟩ := value_bind_eq_some_iff.1 h
    obtain ⟨comma, afterComma, hcomma, h⟩ := value_bind_eq_some_iff.1 h
    obtain ⟨imm, afterImm, himm, h⟩ := value_bind_eq_some_iff.1 h
    obtain ⟨rfl, rfl⟩ := value_pure_eq_some_iff.1 h
    obtain ⟨dst, hnames, htakesDst⟩ := takes_of_value_integerRegister hdst
    obtain ⟨hkind, htakesComma⟩ := takes_of_value_take hcomma
    obtain ⟨constant, hphrase, htakes⟩ := takes_of_value_signedNumber himm
    exact ⟨_, .li hnames hkind hphrase, Cursor.takes_cons_iff.2 ⟨_, htakesDst,
      Cursor.takes_cons_iff.2 ⟨_, htakesComma, htakes⟩⟩⟩
  | mov =>
    obtain ⟨tokens, _, _, hpair, rfl, htakes⟩ :=
      takes_of_value_pairForm (fun dst src => .mov (.reg dst) (.reg src)) h
    exact ⟨tokens, .mov hpair, htakes⟩
  | alu op =>
    obtain ⟨tokens, _, _, hpair, rfl, htakes⟩ :=
      takes_of_value_pairForm (fun dst src => .alu op (.reg dst) (.reg src)) h
    exact ⟨tokens, .alu hpair, htakes⟩
  | cmp =>
    obtain ⟨tokens, _, _, hpair, rfl, htakes⟩ :=
      takes_of_value_pairForm (fun left right => .cmp (.reg left) (.reg right)) h
    exact ⟨tokens, .cmp hpair, htakes⟩
  | neg =>
    obtain ⟨_, _, hnames, rfl, htakes⟩ :=
      takes_of_value_registerForm (fun dst => .neg (.reg dst)) h
    exact ⟨_, .neg hnames, htakes⟩
  | ret =>
    obtain ⟨_, _, hnames, rfl, htakes⟩ :=
      takes_of_value_registerForm (fun src => .ret (.reg src)) h
    exact ⟨_, .ret hnames, htakes⟩
  | ld =>
    obtain ⟨_, _, _, _, _, hnames, hkind, haddress, rfl, htakes⟩ :=
      takes_of_value_addressForm (fun dst source => .ld (.reg dst) source) h
    exact ⟨_, .ld hnames hkind haddress, htakes⟩
  | st =>
    obtain ⟨_, _, _, _, _, hnames, hkind, haddress, rfl, htakes⟩ :=
      takes_of_value_addressForm (fun src target => .st (.reg src) target) h
    exact ⟨_, .st hnames hkind haddress, htakes⟩
  | fma =>
    obtain ⟨⟨r, span⟩, afterDst, hdst, h⟩ := value_bind_eq_some_iff.1 h
    obtain ⟨comma, afterComma, hcomma, h⟩ := value_bind_eq_some_iff.1 h
    obtain ⟨⟨a, b⟩, afterFactors, hfactors, hcheck⟩ := value_bind_eq_some_iff.1 h
    obtain ⟨rfl, rfl⟩ := value_pure_eq_some_iff.1 (value_check.symm.trans hcheck)
    obtain ⟨dst, hnames, -, htakesDst⟩ := takes_of_value_register hdst
    obtain ⟨hkind, htakesComma⟩ := takes_of_value_take hcomma
    obtain ⟨tokens, hphrase, htakes⟩ := takes_of_value_pair hfactors
    exact ⟨_, .fma hnames hkind hphrase, Cursor.takes_cons_iff.2 ⟨_, htakesDst,
      Cursor.takes_cons_iff.2 ⟨_, htakesComma, htakes⟩⟩⟩

theorem sentence_of_value_instruction {inst : Instr}
    (h : (instruction context start).value = some (inst, stop)) :
    ∃ tokens, Sentence tokens (.instr inst) ∧ start.Takes tokens stop := by
  obtain ⟨name, middle, hname, h⟩ := value_bind_eq_some_iff.1 h
  obtain ⟨hkind, htakesName⟩ := takes_of_value_take hname
  cases hmnemonic : Mnemonic.ofText? name.text with
  | none =>
    simp only [hmnemonic] at h
    cases h
  | some mnemonic =>
    simp only [hmnemonic] at h
    obtain ⟨tokens, hphrase, htakes⟩ := takes_of_value_operands h
    have hcalls : name.Calls mnemonic := ⟨hkind, (Mnemonic.text_eq_of_ofText? hmnemonic).symm⟩
    exact ⟨_, .instr hcalls hphrase, Cursor.takes_cons_iff.2 ⟨_, htakesName, htakes⟩⟩

theorem sentence_of_value_assignment {said : Item}
    (h : (assignment context start).value = some (some said, stop)) :
    ∃ tokens, Sentence tokens said ∧ start.Takes tokens stop := by
  obtain ⟨⟨virt, virtSpan⟩, afterVirt, hvirt, h⟩ := value_bind_eq_some_iff.1 h
  obtain ⟨arrow, afterArrow, harrow, h⟩ := value_bind_eq_some_iff.1 h
  obtain ⟨⟨real, realSpan⟩, afterReal, hreal, h⟩ := value_bind_eq_some_iff.1 h
  cases hfault : assignmentFault? virt real virtSpan realSpan with
  | some diagnostic =>
    -- A faulty assignment gives nothing.
    simp only [hfault] at h
    obtain ⟨_, _, _, h⟩ := value_bind_eq_some_iff.1 h
    cases (value_pure_eq_some_iff.1 h).1
  | none =>
    simp only [hfault] at h
    obtain ⟨hsaid, rfl⟩ := value_pure_eq_some_iff.1 h
    obtain rfl := Option.some.inj hsaid
    obtain ⟨left, hleft, -, htakesLeft⟩ := takes_of_value_register hvirt
    obtain ⟨hkind, htakesArrow⟩ := takes_of_value_take harrow
    obtain ⟨right, hright, -, htakesRight⟩ := takes_of_value_register hreal
    exact ⟨_, .assignment hleft hkind hright, Cursor.takes_cons_iff.2 ⟨_, htakesLeft,
      Cursor.takes_cons_iff.2 ⟨_, htakesArrow, htakesRight⟩⟩⟩

/-- An item that is read is what a sentence at the front of the line says. -/
theorem sentence_of_value_item {first : Token} {said : Item}
    (h : (item first context start).value = some (some said, stop)) :
    ∃ tokens, Sentence tokens said ∧ start.Takes tokens stop := by
  unfold item at h
  cases hkind : first.kind with
  | register =>
    simp only [hkind] at h
    exact sentence_of_value_assignment h
  | name =>
    simp only [hkind] at h
    obtain ⟨inst, middle, hinst, hreturn⟩ := value_bind_eq_some_iff.1 h
    obtain ⟨hsaid, rfl⟩ := value_pure_eq_some_iff.1 hreturn
    obtain rfl := Option.some.inj hsaid
    exact sentence_of_value_instruction hinst
  | _ =>
    simp only [hkind] at h
    cases h

end LineReader

/-- An item of a line is what a sentence at the front of the line says, whatever is reported. -/
theorem Line.sentence_of_item {bank? : Option Bank} {line : Line} {said : Item} {span : Span}
    (h : (line.read bank?).item? = some (said, span)) :
    line.invalidTokens = [] ∧
      ∃ tokens rest, Sentence tokens said ∧ line.tokens = tokens ++ rest := by
  cases hinvalid : line.invalidTokens with
  | cons token later =>
    simp only [read, hinvalid] at h
    cases h
  | nil =>
    cases htokens : line.tokens with
    | nil =>
      simp only [read, hinvalid, htokens] at h
      cases h
    | cons first later =>
      simp only [read, hinvalid, htokens] at h
      cases hvalue : (LineReader.item first ⟨bank?, line.terminator⟩
        ⟨first.span, first :: later⟩).value with
      | none =>
        simp only [hvalue] at h
        cases h
      | some result =>
        obtain ⟨item?, stop⟩ := result
        simp only [hvalue] at h
        obtain ⟨item, rfl, hplaced⟩ := Option.map_eq_some_iff.1 h
        obtain ⟨rfl, -⟩ := Prod.mk.inj hplaced
        obtain ⟨tokens, hsentence, htakes⟩ := LineReader.sentence_of_value_item hvalue
        exact ⟨rfl, tokens, stop.rest, hsentence, Cursor.rest_eq_of_takes htakes⟩

end RegisterMapping
