import RegisterMapping.Instr.Text
import RegisterMapping.Proofs.Listing.Acceptance
import RegisterMapping.Proofs.Listing.Scan

/-!
# Reading back what is written

A `Draft` writes items one to a line, instructions in their plain text and assignments with an
arrow. If its items keep the rules, then parsing it gives the items back, each at the span of its
own text (`parse_draft`). The phrases come first: the text of an operand is cut into a phrase that
says the operand, whatever stands behind it, as long as no word runs on.
-/

set_option autoImplicit false

namespace RegisterMapping

/-! ## Written phrases -/

theorem Lexeme.first_minus {rest : List Char} (h : rest.head? ≠ some '>') :
    first '-' rest = .token .minus 0 := by
  show (if rest.head? = some '>' then token .arrow 1 else token .minus 0) = _
  rw [if_neg h]

namespace Written

variable {rest text : List Char} {P Q : List Token → Prop}

theorem mark {c : Char} {kind : TokenKind} (h : Lexeme.first c rest = .token kind 0) :
    Written rest [c] (Lone fun token => token.kind = kind) := by
  refine mono (of_first (by simpa using h)) ?_
  rintro _ ⟨token, rfl, hkind, -⟩
  exact lone_singleton.2 hkind

/-- A register, a comma and a blank go in front of a phrase. -/
theorem listed (r : Register) (h : Written rest text P)
    (himp : ∀ {name comma tokens}, name.Names r → comma.kind = .comma → P tokens →
      Q (name :: comma :: tokens)) :
    Written rest (r.text.toList ++ ',' :: ' ' :: text) Q := by
  have hcomma : Written rest ([','] ++ ' ' :: text)
      (fun tokens => ∃ comma later, tokens = comma :: later ∧ comma.kind = .comma ∧ P later) := by
    refine append_spaced (mark rfl) h ?_
    rintro _ later ⟨comma, rfl, hkind⟩ hphrase
    exact ⟨comma, later, rfl, hkind, hphrase⟩
  refine append (register r (wordEnds_cons rfl)) hcomma ?_
  rintro _ _ ⟨name, rfl, hnames⟩ ⟨comma, later, rfl, hkind, hphrase⟩
  exact himp hnames hkind hphrase

theorem pair (a b : Register) (h : WordEnds rest) :
    Written rest (a.text.toList ++ ',' :: ' ' :: b.text.toList)
      (fun tokens => PairPhrase tokens a b) := by
  refine listed a (register b h) ?_
  rintro left comma _ hleft hcomma ⟨right, rfl, hright⟩
  exact .mk hleft hcomma hright

theorem constant (word : Int64) (h : WordEnds rest) :
    Written rest (toString word.toInt).toList (fun tokens => ConstantPhrase tokens word) := by
  by_cases hneg : word.toInt < 0
  · rw [toList_toString_of_neg hneg]
    -- A digit follows the sign, so the sign is not the front of an arrow.
    have hminus : Lexeme.first '-' (Nat.toDigits 10 word.toInt.natAbs ++ rest) =
        .token .minus 0 := by
      apply Lexeme.first_minus
      intro hhead
      rw [List.head?_append_of_ne_nil _ Nat.toDigits_ne_nil] at hhead
      have hdigit := Nat.isDigit_of_mem_toDigits (by decide) (by decide) (List.mem_of_head? hhead)
      cases hdigit
    refine append (mark hminus) (digits word.toInt.natAbs h) ?_
    rintro _ _ ⟨minus, rfl, hkind⟩ ⟨number, rfl, hnumber, htext⟩
    refine .negated hkind ⟨hnumber, ?_⟩
    rw [htext]
    exact toInt_eq_signedValue_of_neg hneg
  · have hnonneg : 0 ≤ word.toInt := by omega
    rw [toList_toString_of_nonneg hnonneg]
    refine (digits word.toInt.natAbs h).mono ?_
    rintro _ ⟨number, rfl, hnumber, htext⟩
    refine .plain ⟨hnumber, ?_⟩
    rw [htext]
    exact toInt_eq_signedValue_of_nonneg hnonneg

/-- A base with a written distance behind it goes into brackets. -/
theorem bracketed {r : Register} {word : Int64} {inner : List Char}
    (h : Written (']' :: rest) inner fun tokens =>
      ∃ base distance, tokens = base :: distance ∧ base.Names r ∧ DistancePhrase distance word) :
    Written rest ('[' :: (inner ++ [']'])) (fun tokens => AddressPhrase tokens ⟨.reg r, word⟩) := by
  have hclosed : Written rest (inner ++ [']']) fun tokens =>
      ∃ base distance right, tokens = base :: (distance ++ [right]) ∧ base.Names r ∧
        DistancePhrase distance word ∧ right.kind = .rightBracket := by
    refine append h (mark rfl) ?_
    rintro _ _ ⟨base, distance, rfl, hbase, hdistance⟩ ⟨right, rfl, hright⟩
    exact ⟨base, distance, right, rfl, hbase, hdistance, hright⟩
  refine append (a := ['[']) (mark rfl) hclosed ?_
  rintro _ _ ⟨left, rfl, hleft⟩ ⟨base, distance, right, rfl, hbase, hdistance, hright⟩
  exact .mk hleft hbase hdistance hright

/-- A distance is written as a sign, set apart, and the digits of its absolute value. -/
theorem signed {kind : TokenKind} {sign : Char} {n : Nat} (h : WordEnds rest)
    (hsign : ∀ later, Lexeme.first sign (' ' :: later) = .token kind 0)
    (himp : ∀ {mark number : Token}, mark.kind = kind → number.kind = .number →
      number.text = Nat.toDigits 10 n → P [mark, number]) :
    Written rest (sign :: ' ' :: Nat.toDigits 10 n) P := by
  refine append_spaced (a := [sign]) (mark (hsign _)) (digits n h) ?_
  rintro _ _ ⟨token, rfl, hkind⟩ ⟨number, rfl, hnumber, htext⟩
  exact himp hkind hnumber htext

/-- A base in front of a written distance. -/
theorem based {r : Register} {word : Int64}
    (h : Written rest text fun tokens => DistancePhrase tokens word) :
    Written rest (r.text.toList ++ ' ' :: text) fun tokens =>
      ∃ base distance, tokens = base :: distance ∧ base.Names r ∧ DistancePhrase distance word := by
  refine append_spaced (register r (wordEnds_cons rfl)) h ?_
  rintro _ distance ⟨base, rfl, hbase⟩ hdistance
  exact ⟨base, distance, rfl, hbase, hdistance⟩

theorem address (r : Register) (word : Int64) :
    Written rest (Address.textWith Handle.text ⟨.reg r, word⟩).toList
      (fun tokens => AddressPhrase tokens ⟨.reg r, word⟩) := by
  have hbracket : WordEnds (']' :: rest) := wordEnds_cons rfl
  rw [Address.textWith]
  -- A distance of zero is not written, and of any other the sign is written apart.
  by_cases hzero : word.toInt = 0
  · have hword : word = 0 := Int64.toInt_inj.1 hzero
    simp only [hzero, if_true, String.toList_append]
    refine bracketed ((register r hbracket).mono ?_)
    rintro _ ⟨base, rfl, hbase⟩
    rw [hword]
    exact ⟨base, [], rfl, hbase, .absent⟩
  · by_cases hneg : word.toInt < 0
    · have htext : ("[" ++ r.text ++ " - " ++ toString word.toInt.natAbs ++ "]").toList =
          '[' :: ((r.text.toList ++ ' ' :: '-' :: ' ' :: Nat.toDigits 10 word.toInt.natAbs) ++
            [']']) := by simp
      simp only [hzero, hneg, if_false, if_true]
      rw [Handle.text, htext]
      refine bracketed (based (signed hbracket (fun _ => rfl) ?_))
      intro minus number hminus hnumber hdigits
      refine .subtracted hminus ⟨hnumber, ?_⟩
      rw [hdigits]
      exact toInt_eq_signedValue_of_neg hneg
    · have htext : ("[" ++ r.text ++ " + " ++ toString word.toInt.natAbs ++ "]").toList =
          '[' :: ((r.text.toList ++ ' ' :: '+' :: ' ' :: Nat.toDigits 10 word.toInt.natAbs) ++
            [']']) := by simp
      simp only [hzero, hneg, if_false]
      rw [Handle.text, htext]
      refine bracketed (based (signed hbracket (fun _ => rfl) ?_))
      intro plus number hplus hnumber hdigits
      refine .added hplus ⟨hnumber, ?_⟩
      rw [hdigits]
      exact toInt_eq_signedValue_of_nonneg (by omega)

/-- The operands of a well-typed instruction. -/
theorem operands {inst : Instr} (htyped : inst.wellTyped = true) (h : WordEnds rest) :
    Written rest (", ".intercalate (inst.writtenOperands Handle.text)).toList
      (fun tokens => OperandPhrase inst.mnemonic tokens inst) := by
  -- An instruction has at most three written operands.
  have hone : ∀ r : Register, (", ".intercalate [r.text]).toList = r.text.toList := by simp
  have htwo : ∀ (r : Register) (b : String),
      (", ".intercalate [r.text, b]).toList = r.text.toList ++ ',' :: ' ' :: b.toList := by simp
  have hthree : ∀ (r : Register) (b c : String), (", ".intercalate [r.text, b, c]).toList =
      r.text.toList ++ ',' :: ' ' :: (", ".intercalate [b, c]).toList := by simp
  match inst with
  | .li (.reg dst) imm =>
    simp only [Instr.writtenOperands, Handle.text, htwo]
    exact listed dst (constant imm h) .li
  | .mov (.reg dst) (.reg src) =>
    simp only [Instr.writtenOperands, Handle.text, htwo]
    exact (pair dst src h).mono .mov
  | .alu op (.reg dst) (.reg src) =>
    simp only [Instr.writtenOperands, Handle.text, htwo]
    exact (pair dst src h).mono .alu
  | .neg (.reg dst) =>
    simp only [Instr.writtenOperands, Handle.text, hone]
    refine (register dst h).mono ?_
    rintro _ ⟨name, rfl, hnames⟩
    exact .neg hnames
  | .ld (.reg dst) ⟨.reg base, offset⟩ =>
    simp only [Instr.writtenOperands, htwo, Handle.text]
    exact listed dst (address base offset) .ld
  | .st (.reg src) ⟨.reg base, offset⟩ =>
    simp only [Instr.writtenOperands, htwo, Handle.text]
    exact listed src (address base offset) .st
  | .fma (.reg dst) (.reg a) (.reg b) =>
    simp only [Instr.writtenOperands, Handle.text, hthree, htwo]
    exact listed dst (pair a b h) .fma
  | .cmp (.reg left) (.reg right) =>
    simp only [Instr.writtenOperands, Handle.text, htwo]
    exact (pair left right h).mono .cmp
  | .ret (.reg src) =>
    simp only [Instr.writtenOperands, Handle.text, hone]
    refine (register src h).mono ?_
    rintro _ ⟨name, rfl, hnames⟩
    exact .ret hnames

end Written

/-! ## Items -/

/-- An instruction in its plain text, or an assignment with an arrow. -/
def Item.text : Item → String
  | .instr inst => inst.text
  | .assignment virt real => virt.text ++ " -> " ++ real.text

theorem Written.item {rest : List Char} {item : Item} (htyped : item.wellTyped = true)
    (h : WordEnds rest) : Written rest item.text.toList (fun tokens => Sentence tokens item) := by
  cases item with
  | instr inst =>
    have htext : inst.text.toList = inst.mnemonic.text.toList ++
        ' ' :: (", ".intercalate (inst.writtenOperands Handle.text)).toList := by
      show (inst.textWith Handle.text).toList = _
      simp [Instr.textWith]
    rw [Item.text, htext]
    refine append_spaced (mnemonic inst.mnemonic (wordEnds_cons rfl)) (operands htyped h) ?_
    rintro _ tokens ⟨name, rfl, hcalls⟩ hphrase
    exact .instr hcalls hphrase
  | assignment virt real =>
    have htext : (virt.text ++ " -> " ++ real.text).toList =
        virt.text.toList ++ ' ' :: (['-', '>'] ++ ' ' :: real.text.toList) := by simp
    -- The arrow and what it points to come first, since a phrase is extended at its front.
    have harrow : Written rest (['-', '>'] ++ ' ' :: real.text.toList) fun tokens =>
        ∃ arrow right, tokens = [arrow, right] ∧ arrow.kind = .arrow ∧ right.Names real := by
      refine append_spaced (of_first rfl) (register real h) ?_
      rintro _ _ ⟨arrow, rfl, hkind, -⟩ ⟨right, rfl, hright⟩
      exact ⟨arrow, right, rfl, hkind, hright⟩
    rw [Item.text, htext]
    refine append_spaced (register virt (wordEnds_cons rfl)) harrow ?_
    rintro _ _ ⟨left, rfl, hleft⟩ ⟨arrow, right, rfl, hkind, hright⟩
    exact .assignment hleft hkind hright

/-- Where an item that keeps the rules is written, its text says it. -/
theorem Item.Admissible.exists_cut {bank? : Option Bank} {item : Item} {rest : List Char}
    (h : item.Admissible bank?) (hends : WordEnds rest) (file offset : Nat) :
    ∃ tokens, Cut file offset item.text.toList rest tokens ∧ Says bank? tokens
      (item, ⟨file, offset, offset + item.text.utf8ByteSize⟩) := by
  obtain ⟨tokens, hcut, hsentence⟩ := Written.item h.1 hends file offset
  refine ⟨tokens, hcut, hsentence, h, ?_⟩
  rw [← byteLength_toList]
  exact hcut.row.phraseSpan?_eq

/-! ## Drafts -/

/-- How a line is ended. -/
inductive LineEnding where
  | lf
  | crlf
  deriving DecidableEq, Repr

/-- The characters that end the line. -/
def LineEnding.text : LineEnding → String
  | .lf => "\n"
  | .crlf => "\r\n"

/-- Items to be written one to a line. The last line may be left without its ending. -/
inductive Draft where
  | done
  | unended (item : Item)
  | line (item : Item) (ending : LineEnding) (rest : Draft)

namespace Draft

/-- The items, in order. -/
def items : Draft → List Item
  | done => []
  | unended item => [item]
  | line item _ rest => item :: rest.items

/-- The written text. -/
def text : Draft → String
  | done => ""
  | unended item => item.text
  | line item ending rest => item.text ++ ending.text ++ rest.text

/-- The items with the spans of their texts, if the text stands at byte `offset` of the file. -/
def placed (file offset : Nat) : Draft → List (Item × Span)
  | done => []
  | unended item => [(item, ⟨file, offset, offset + item.text.utf8ByteSize⟩)]
  | line item ending rest =>
    (item, ⟨file, offset, offset + item.text.utf8ByteSize⟩) ::
      rest.placed file (offset + item.text.utf8ByteSize + ending.text.utf8ByteSize)

theorem map_fst_placed (file offset : Nat) (draft : Draft) :
    (draft.placed file offset).map Prod.fst = draft.items := by
  induction draft generalizing offset with
  | done => rfl
  | unended item => rfl
  | line item ending rest ih => exact congrArg (item :: ·) (ih _)

end Draft

/-! ## Spans -/

/-- In the source, the span holds the text. -/
def Span.Holds (span : Span) (source text : String) : Prop :=
  ∃ before after : String, source = before ++ text ++ after ∧
    span.start = before.utf8ByteSize ∧ span.stop = span.start + text.utf8ByteSize

namespace Draft

/-- The spans hold the texts of the items, also behind other text. -/
theorem holds_of_mem_placed (file : Nat) (draft : Draft) (front : String) :
    ∀ placed ∈ draft.placed file front.utf8ByteSize, placed.2.file = file ∧
      placed.2.Holds (front ++ draft.text) placed.1.text := by
  induction draft generalizing front with
  | done => simp [placed]
  | unended item =>
    intro placed hmem
    obtain rfl := List.mem_singleton.1 hmem
    exact ⟨rfl, front, "", by simp [text], rfl, rfl⟩
  | line item ending rest ih =>
    rw [Draft.placed, List.forall_mem_cons]
    refine ⟨⟨rfl, front, ending.text ++ rest.text, ?_, rfl, rfl⟩, ?_⟩
    · simp only [text, String.append_assoc]
    · have hfront : front.utf8ByteSize + item.text.utf8ByteSize + ending.text.utf8ByteSize =
          (front ++ item.text ++ ending.text).utf8ByteSize := by
        simp only [String.utf8ByteSize_append]
      rw [hfront]
      intro placed hmem
      obtain ⟨hfile, hholds⟩ := ih _ placed hmem
      refine ⟨hfile, ?_⟩
      simpa only [text, String.append_assoc] using hholds

theorem start_of_mem_placed {file offset : Nat} {draft : Draft} :
    ∀ placed ∈ draft.placed file offset, offset ≤ placed.2.start := by
  induction draft generalizing offset with
  | done => simp [placed]
  | unended item => simp [placed]
  | line item ending rest ih =>
    rw [Draft.placed, List.forall_mem_cons]
    refine ⟨Nat.le_refl _, fun placed hmem => ?_⟩
    have := ih placed hmem
    omega

/-- The spans lie apart, in the order of the items. -/
theorem pairwise_placed (file offset : Nat) (draft : Draft) :
    (draft.placed file offset).Pairwise fun a b => a.2.stop < b.2.start := by
  induction draft generalizing offset with
  | done => exact .nil
  | unended item => exact List.pairwise_singleton _ _
  | line item ending rest ih =>
    refine .cons (fun placed hmem => ?_) (ih _)
    -- The end of a line separates its item from the next one.
    have hending : 0 < ending.text.utf8ByteSize := by cases ending <;> decide
    have := start_of_mem_placed placed hmem
    show offset + item.text.utf8ByteSize < placed.2.start
    omega

/-! ## Parsing -/

theorem assignedRegisters_placed (file offset : Nat) (draft : Draft) :
    assignedRegisters (draft.placed file offset) = draft.items.filterMap Item.assigned? := by
  rw [← map_fst_placed file offset draft, List.filterMap_map]
  rfl

end Draft

theorem LineEnding.wordEnds (ending : LineEnding) (rest : List Char) :
    WordEnds (ending.text.toList ++ rest) := by
  cases ending <;> exact wordEnds_cons rfl

theorem LineEnding.exists_scan (ending : LineEnding) (file offset : Nat) (rest : List Char) :
    ∃ token : Token, token.kind = .newline ∧
      Token.scan file offset (ending.text.toList ++ rest) =
        token :: Token.scan file (offset + ending.text.utf8ByteSize) rest := by
  cases ending with
  | lf => exact ⟨_, rfl, @Token.scan_token file offset '\n' [] rest .newline rfl⟩
  | crlf => exact ⟨_, rfl, @Token.scan_token file offset '\r' ['\n'] rest .newline rfl⟩

theorem Sentence.newline_eq_false {tokens : List Token} {item : Item} (h : Sentence tokens item) :
    ∀ token ∈ tokens, decide (token.kind = .newline) = false := by
  intro token hmem
  exact decide_eq_false (h.ordinary token hmem).2

/-- The lines of a draft whose items keep the rules say the items, each at its place. -/
theorem Draft.forall₂_says {bank? : Option Bank} {draft : Draft}
    (h : ∀ item ∈ draft.items, item.Admissible bank?) (file offset : Nat) :
    List.Forall₂ (Says bank?)
      (((Token.scan file offset draft.text.toList).splitOnP fun token =>
        token.kind = .newline).filter fun tokens => !tokens.isEmpty)
      (draft.placed file offset) := by
  induction draft generalizing offset with
  | done =>
    rw [Draft.text, String.toList_empty, Token.scan]
    exact .nil
  | unended item =>
    obtain ⟨tokens, hcut, hmeans⟩ :=
      (h item (.head _)).exists_cut wordEnds_nil file offset
    have hscan : Token.scan file offset item.text.toList = tokens := by
      have := hcut.scan_eq
      rwa [List.append_nil, Token.scan, List.append_nil] at this
    rw [Draft.text, hscan, List.splitOnP_eq_singleton hmeans.1.newline_eq_false]
    simpa [hmeans.1.ne_nil, Draft.placed] using hmeans
  | line item ending rest ih =>
    obtain ⟨hitem, hrest⟩ := List.forall_mem_cons.1 h
    obtain ⟨tokens, hcut, hmeans⟩ :=
      hitem.exists_cut (ending.wordEnds rest.text.toList) file offset
    obtain ⟨newline, hnewline, hscan⟩ :=
      ending.exists_scan file (offset + item.text.utf8ByteSize) rest.text.toList
    rw [Draft.text, String.toList_append, String.toList_append, List.append_assoc, hcut.scan_eq,
      byteLength_toList, hscan,
      List.splitOnP_append_cons_of_forall_mem hmeans.1.newline_eq_false newline
        (decide_eq_true hnewline),
      List.filter_cons_of_pos (by simp [hmeans.1.ne_nil])]
    exact .cons hmeans (ih hrest _)

/-- Parsing what a draft writes gives back its items, each at the span of its text, if they keep
the rules and assign no register twice. -/
theorem parse_draft (draft : Draft) (file : Nat) (bank? : Option Bank)
    (hadmissible : ∀ item ∈ draft.items, item.Admissible bank?)
    (honce : (draft.items.filterMap Item.assigned?).Nodup) :
    Listing.parse draft.text file bank? = ⟨Listing.ofItems (draft.placed file 0), []⟩ ∧
      (draft.placed file 0).map Prod.fst = draft.items ∧
      (draft.placed file 0).Pairwise (fun a b => a.2.stop < b.2.start) ∧
      ∀ placed ∈ draft.placed file 0, placed.2.file = file ∧
        placed.2.Holds draft.text placed.1.text := by
  refine ⟨?_, draft.map_fst_placed file 0, draft.pairwise_placed file 0, ?_⟩
  · rw [Listing.parse, Listing.parseLines, Listing.linesOf]
    rw [join_settleLines_eq_clean_iff, Line.map_tokens_split]
    refine ⟨draft.placed file 0, Draft.forall₂_says hadmissible file 0, ⟨?_, ?_⟩, rfl⟩
    · rwa [Draft.assignedRegisters_placed]
    · intro v _
      simp [Unassigned]
  · intro placed hmem
    simpa using draft.holds_of_mem_placed file "" placed hmem

/-- An assignment, the least word and a negative distance, with both ways to end a line. -/
def Draft.sample : Draft :=
  .line (.assignment ⟨.int64, true, 7, by decide⟩ ⟨.int64, false, 3, by decide⟩) .crlf
    (.line (.instr (.li (.reg ⟨.int64, true, 7, by decide⟩) Int64.minValue)) .lf
      (.unended (.instr (.st (.reg ⟨.int64, false, 3, by decide⟩)
        ⟨.reg ⟨.int64, true, 7, by decide⟩, -8⟩))))

theorem parse_draft_sample :
    Draft.sample.text = "%vR7 -> %R3\r\nli %vR7, -9223372036854775808\nst %R3, [%vR7 - 8]" ∧
      (Draft.sample.placed 0 0).map Prod.snd = [⟨0, 0, 11⟩, ⟨0, 13, 42⟩, ⟨0, 43, 61⟩] ∧
      Listing.parse Draft.sample.text 0 (Bank.ofArchitecture? .riscv64) =
        ⟨Listing.ofItems (Draft.sample.placed 0 0), []⟩ :=
  ⟨rfl, rfl,
    (parse_draft Draft.sample 0 (Bank.ofArchitecture? .riscv64) (by decide) (by decide)).1⟩

end RegisterMapping
