import RegisterMapping.Listing.Parse

/-!
# What readers are put together from

The readers of a line are put together from a few that do one thing each: give a value, report a
fault, give up, take a token, or ask whether a register is in the bank. `LineReader.Built` says that
a reader is. What holds of these few and goes through sequencing therefore holds of every reader,
by induction on how it is built (`LineReader.built_item`).

A reader that asks about no register is told apart from one that may, since all that is ever said
about the bank is the answer to that question. The readers of instructions are told apart from that
of assignments too: they give up at a fault in the form of the line, and otherwise report faults in
the classes of operands alone (`LineReader.Graded`).
-/

set_option autoImplicit false

namespace RegisterMapping

namespace Fault

/-- The fault is in the form of a line, up to the end of its item. -/
def isAboutForm : Fault → Bool
  | expectedLine => true
  | unknownInstruction _ => true
  | expected _ _ => true
  | malformedRegister _ => true
  | numberTooLarge _ => true
  | _ => false

/-- The fault is in the classes of operands. -/
def isAboutClasses : Fault → Bool
  | operandClasses _ _ => true
  | notInteger _ => true
  | _ => false

/-- A fault in the form of a line is not about the bank. -/
theorem code_ne_of_isAboutForm {fault : Fault} (h : fault.isAboutForm = true) :
    fault.code ≠ "EB00" := by
  cases fault with
  | notInBank arch r => cases h
  | _ => simp [code]

theorem code_ne_of_isAboutClasses {fault : Fault} (h : fault.isAboutClasses = true) :
    fault.code ≠ "EB00" := by
  cases fault with
  | notInBank arch r => cases h
  | _ => simp [code]

end Fault

namespace LineReader

variable {α β : Type} {asks : Prop}

/-- The reader is put together from basic ones. It asks whether a register is in the bank only if
`asks` holds, and what it reports is not about the bank. -/
inductive Built (asks : Prop) : {α : Type} → LineReader α → Prop
  | pure {α : Type} (a : α) : Built asks (pure a)
  | bind {α β : Type} {reader : LineReader α} {next : α → LineReader β} :
      Built asks reader → (∀ a, Built asks (next a)) → Built asks (reader >>= next)
  | report {fault : Fault} (span : Span) :
      fault.code ≠ "EB00" → Built asks (report fault span)
  | fail {α : Type} {fault : Fault} (span : Span) :
      fault.code ≠ "EB00" → Built asks (fail fault span : LineReader α)
  | take (kind : TokenKind) : Built asks (take kind)
  | takeIf (kind : TokenKind) : Built asks (takeIf kind)
  | checkBank (r : Register) (span : Span) : asks → Built asks (checkBank r span)

/-- A check reports when it fails. -/
theorem Built.check {condition : Prop} [Decidable condition] {fault : Fault} {span : Span}
    {next : LineReader α} (h : Built asks next) (hfault : fault.code ≠ "EB00") :
    Built asks (if condition then (do LineReader.report fault span; next) else next) := by
  split
  · apply (Built.report span hfault).bind
    intro reported
    exact h
  · exact h

/-- The reader is put together from basic ones, of which those that give up do so at a fault in the
form of the line, and those that go on report a fault in the classes of operands. -/
inductive Graded (asks : Prop) : {α : Type} → LineReader α → Prop
  | pure {α : Type} (a : α) : Graded asks (pure a)
  | bind {α β : Type} {reader : LineReader α} {next : α → LineReader β} :
      Graded asks reader → (∀ a, Graded asks (next a)) → Graded asks (reader >>= next)
  | report {fault : Fault} (span : Span) :
      fault.isAboutClasses = true → Graded asks (report fault span)
  | fail {α : Type} {fault : Fault} (span : Span) :
      fault.isAboutForm = true → Graded asks (fail fault span : LineReader α)
  | take (kind : TokenKind) : Graded asks (take kind)
  | takeIf (kind : TokenKind) : Graded asks (takeIf kind)
  | checkBank (r : Register) (span : Span) : asks → Graded asks (checkBank r span)

/-- A graded reader is built from basic ones, and neither kind of its faults is about the bank. -/
theorem Graded.built {reader : LineReader α} (h : Graded asks reader) : Built asks reader := by
  induction h with
  | pure a => exact .pure a
  | bind _ _ hreader hnext => exact .bind hreader hnext
  | report span h => exact .report span (Fault.code_ne_of_isAboutClasses h)
  | fail span h => exact .fail span (Fault.code_ne_of_isAboutForm h)
  | take kind => exact .take kind
  | takeIf kind => exact .takeIf kind
  | checkBank r span h => exact .checkBank r span h

/-- A reader that chooses between two is graded if both are. -/
theorem graded_ite {condition : Prop} [Decidable condition] {first second : LineReader α}
    (hpos : Graded asks first) (hneg : Graded asks second) :
    Graded asks (if condition then first else second) := by
  split
  · exact hpos
  · exact hneg

theorem Graded.check {condition : Prop} [Decidable condition] {fault : Fault} {span : Span}
    {next : LineReader α} (h : Graded asks next) (hfault : fault.isAboutClasses = true) :
    Graded asks (if condition then (do LineReader.report fault span; next) else next) := by
  apply graded_ite
  · apply (Graded.report span hfault).bind
    intro reported
    exact h
  · exact h

/-! ## Operands -/

/-- What is said when the bank is asked about a register; the reading goes on where it was. -/
theorem checkBank_eq (bank : Bank) (terminator : Terminator) (r : Register) (span : Span)
    (start : Cursor) :
    checkBank r span ⟨some bank, terminator⟩ start =
      ⟨if r.isReal = true ∧ bank.contains r = false then [⟨.notInBank bank.arch r, span⟩] else [],
        some ((), start)⟩ := by
  rw [checkBank]
  show LineReader.bind bank? _ ⟨some bank, terminator⟩ start = _
  simp only [LineReader.bind, bank?, Bool.and_eq_true, Bool.not_eq_true', List.nil_append]
  split
  · rfl
  · rfl

theorem value_checkBank (r : Register) (span : Span) (context : LineContext) (start : Cursor) :
    (checkBank r span context start).value = some ((), start) := by
  obtain ⟨bank?, terminator⟩ := context
  cases bank? with
  | none => rfl
  | some bank => rw [checkBank_eq]

/-- A register is looked for in the bank, so this is graded only where the bank may be asked. -/
theorem graded_register (h : asks) : Graded asks register := by
  apply (Graded.take _).bind
  intro token
  split
  · apply (Graded.checkBank _ _ h).bind
    intro checked
    exact .pure _
  · exact .fail _ rfl

theorem graded_integerRegister (h : asks) : Graded asks integerRegister := by
  apply (graded_register h).bind
  intro placed
  exact (Graded.pure _).check rfl

theorem graded_number (negative : Bool) : Graded asks (number negative) := by
  apply (Graded.take _).bind
  intro token
  split
  · exact .pure _
  · exact .fail _ rfl

theorem graded_signedNumber : Graded asks signedNumber := (Graded.takeIf _).bind graded_number

/-- Registers of different classes are a fault in the classes, so that the reading goes on. -/
theorem graded_pair (h : asks) : Graded asks pair := by
  apply (graded_register h).bind
  intro left
  apply (Graded.take _).bind
  intro comma
  apply (graded_register h).bind
  intro right
  exact (Graded.pure _).check rfl

theorem graded_offset : Graded asks offset := by
  apply (Graded.takeIf _).bind
  intro plus
  apply graded_ite
  · exact graded_number false
  · apply (Graded.takeIf _).bind
    intro minus
    exact graded_ite (graded_number true) (.pure _)

theorem graded_address (h : asks) : Graded asks address := by
  apply (Graded.take _).bind
  intro left
  apply (graded_integerRegister h).bind
  intro base
  apply graded_offset.bind
  intro word
  apply (Graded.take _).bind
  intro right
  exact .pure _

/-! ## Items -/

theorem graded_operands (h : asks) (mnemonic : Mnemonic) : Graded asks (operands mnemonic) := by
  cases mnemonic with
  | li =>
    apply (graded_integerRegister h).bind
    intro dst
    apply (Graded.take _).bind
    intro comma
    apply graded_signedNumber.bind
    intro imm
    exact .pure _
  | mov | alu | cmp =>
    apply (graded_pair h).bind
    intro registers
    exact .pure _
  | neg | ret =>
    apply (graded_register h).bind
    intro placed
    exact .pure _
  | ld | st =>
    apply (graded_register h).bind
    intro placed
    apply (Graded.take _).bind
    intro comma
    apply (graded_address h).bind
    intro target
    exact .pure _
  | fma =>
    apply (graded_register h).bind
    intro dst
    apply (Graded.take _).bind
    intro comma
    apply (graded_pair h).bind
    intro factors
    exact (Graded.pure _).check rfl

theorem graded_instruction (h : asks) : Graded asks instruction := by
  apply (Graded.take _).bind
  intro token
  split
  · exact graded_operands h _
  · exact .fail _ rfl

/-- The fault of an assignment is in one of its registers, or in the classes of the two. -/
theorem assignmentFault?_cases {virt real : Register} {virtSpan realSpan : Span}
    {diagnostic : Diagnostic}
    (h : assignmentFault? virt real virtSpan realSpan = some diagnostic) :
    diagnostic = ⟨.assignsReal virt, virtSpan⟩ ∨ diagnostic = ⟨.assignsToVirtual real, realSpan⟩ ∨
      diagnostic = ⟨.assignmentClasses virt real, virtSpan.cover realSpan⟩ := by
  unfold assignmentFault? at h
  split at h
  · exact .inl (Option.some.inj h).symm
  · split at h
    · exact .inr (.inl (Option.some.inj h).symm)
    · split at h
      · exact .inr (.inr (Option.some.inj h).symm)
      · cases h

/-- The faults of an assignment are not about the bank. -/
theorem code_of_assignmentFault? {virt real : Register} {virtSpan realSpan : Span}
    {diagnostic : Diagnostic}
    (h : assignmentFault? virt real virtSpan realSpan = some diagnostic) :
    diagnostic.fault.code ≠ "EB00" := by
  rcases assignmentFault?_cases h with rfl | rfl | rfl <;> simp [Fault.code]

/-- What is done about the fault of an assignment, if it has one. -/
theorem built_settled {fault? : Option Diagnostic}
    (h : ∀ diagnostic ∈ fault?, diagnostic.fault.code ≠ "EB00") (said : Item) :
    Built asks
      (match fault? with
      | some diagnostic => do
        report diagnostic.fault diagnostic.span
        return none
      | none => return some said) := by
  cases fault? with
  | none => exact .pure _
  | some diagnostic =>
    apply (Built.report diagnostic.span (h diagnostic rfl)).bind
    intro reported
    exact .pure _

theorem built_assignment (h : asks) : Built asks assignment := by
  apply (graded_register h).built.bind
  intro virt
  apply (Built.take _).bind
  intro arrow
  apply (graded_register h).built.bind
  intro real
  exact built_settled (fun _ hfault => code_of_assignmentFault? hfault) _

/-- The reader of a line that starts with the token is put together from basic ones. -/
theorem built_item (h : asks) (first : Token) : Built asks (item first) := by
  rw [item]
  split
  · exact built_assignment h
  · apply (graded_instruction h).built.bind
    intro inst
    exact .pure _
  · exact .fail _ (by simp [Fault.code])

end LineReader

end RegisterMapping
