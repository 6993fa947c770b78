import RegisterMapping.Proofs.Listing.Parts

/-!
# What costs a line its item

A line that is not blank either says an instruction or an assignment, or has a diagnostic that costs
it this item. There are two kinds of these: faults in the form of the line, at which a reader gives
up, and faults of an assignment, which is then not made. Everything else that is reported leaves the
item as it is.

A reader is `Accountable` if it gives nothing exactly when it reports such a fault. This holds of
the readers that instructions are put together from, and goes through sequencing, so that it holds
of the reader of whole lines (`LineReader.accountable_item`).
-/

set_option autoImplicit false

namespace RegisterMapping

namespace Diagnostic

/-- The line has no item because of this diagnostic. -/
def costsItem (diagnostic : Diagnostic) : Bool :=
  diagnostic.code ∈ ["EL01", "EL02", "EL03", "EL04", "EL05", "EA00", "EA01", "EA02", "EA03"]

theorem costsItem_of_isAboutForm {fault : Fault} (h : fault.isAboutForm = true) (span : Span) :
    costsItem ⟨fault, span⟩ = true := by
  cases fault <;> first | rfl | cases h

theorem costsItem_of_isAboutClasses {fault : Fault} (h : fault.isAboutClasses = true)
    (span : Span) : costsItem ⟨fault, span⟩ = false := by
  cases fault <;> first | rfl | cases h

/-- A faulty assignment is not made. -/
theorem costsItem_of_assignmentFault? {virt real : Register} {virtSpan realSpan : Span}
    {diagnostic : Diagnostic}
    (h : LineReader.assignmentFault? virt real virtSpan realSpan = some diagnostic) :
    diagnostic.costsItem = true := by
  rcases LineReader.assignmentFault?_cases h with rfl | rfl | rfl <;> rfl

end Diagnostic

namespace LineReader

variable {α β : Type} {asks : Prop}

/-- The reader gives no value, or one that is `lost`, exactly if it reports something that costs the
line its item. -/
def Accountable (lost : α → Prop) (reader : LineReader α) : Prop :=
  ∀ context start, (∀ result ∈ (reader context start).value, lost result.1) ↔
    ∃ diagnostic ∈ (reader context start).diagnostics, diagnostic.costsItem = true

theorem accountable_pure {lost : α → Prop} {a : α} (h : ¬ lost a) : Accountable lost (pure a) := by
  intro context start
  show (∀ result ∈ some (a, start), lost result.1) ↔ ∃ diagnostic ∈ [], _
  simp [h]

/-- A sequence gives nothing if its first part gives up or its second part gives nothing. -/
theorem Accountable.bind {lost : β → Prop} {reader : LineReader α} {next : α → LineReader β}
    (h : Accountable (fun _ => False) reader) (hnext : ∀ a, Accountable lost (next a)) :
    Accountable lost (reader >>= next) := by
  intro context start
  have hfirst := h context start
  show (∀ result ∈ (LineReader.bind reader next context start).value, _) ↔
    ∃ diagnostic ∈ (LineReader.bind reader next context start).diagnostics, _
  rw [LineReader.bind]
  -- Either the first part has given up and said so, or it is for the second part to say.
  cases hvalue : (reader context start).value with
  | none =>
    rw [hvalue] at hfirst
    simpa using hfirst
  | some pair =>
    have hnothing : ¬ ∃ diagnostic ∈ (reader context start).diagnostics,
        diagnostic.costsItem = true := by
      rw [← hfirst, hvalue]
      exact fun hlost => hlost pair rfl
    have hsecond := hnext pair.1 context pair.2
    simp only [List.mem_append, or_and_right, exists_or]
    rw [hsecond]
    exact (or_iff_right hnothing).symm

theorem accountable_report {fault : Fault} (span : Span)
    (h : (⟨fault, span⟩ : Diagnostic).costsItem = false) :
    Accountable (fun _ => False) (report fault span) := by
  intro context start
  simp [report, h]

theorem accountable_fail {lost : α → Prop} {fault : Fault} (span : Span)
    (h : (⟨fault, span⟩ : Diagnostic).costsItem = true) : Accountable lost (fail fault span) := by
  intro context start
  simp [fail, h]

/-- A missing token costs the line its item, as the reader gives up there. -/
theorem accountable_take (kind : TokenKind) : Accountable (fun _ => False) (take kind) := by
  have hcosts (found : Option TokenKind) (span : Span) :
      (⟨.expected kind found, span⟩ : Diagnostic).costsItem = true := rfl
  rintro context ⟨last, rest⟩
  cases rest with
  | nil => simp [take, hcosts]
  | cons token rest =>
    by_cases h : token.kind = kind
    · simp [take, h]
    · simp [take, h, hcosts]

theorem accountable_takeIf (kind : TokenKind) : Accountable (fun _ => False) (takeIf kind) := by
  rintro context ⟨last, rest⟩
  cases rest with
  | nil => simp [takeIf]
  | cons token rest =>
    by_cases h : token.kind = kind
    · simp [takeIf, h]
    · simp [takeIf, h]

theorem accountable_checkBank (r : Register) (span : Span) :
    Accountable (fun _ => False) (checkBank r span) := by
  rintro ⟨bank?, terminator⟩ start
  rw [value_checkBank]
  have hcosts (arch : Architecture) :
      (⟨.notInBank arch r, span⟩ : Diagnostic).costsItem = false := rfl
  cases bank? with
  | none =>
    show (∀ result ∈ some ((), start), False) ↔ ∃ diagnostic ∈ [], _
    simp
  | some bank =>
    rw [checkBank_eq]
    split
    · simp [hcosts]
    · simp

/-- What an instruction is read with gives up exactly where this is reported. -/
theorem Graded.accountable {reader : LineReader α} (h : Graded asks reader) :
    Accountable (fun _ => False) reader := by
  induction h with
  | pure a => exact accountable_pure not_false
  | bind _ _ hreader hnext => exact hreader.bind hnext
  | report span h => exact accountable_report span (Diagnostic.costsItem_of_isAboutClasses h span)
  | fail span h => exact accountable_fail span (Diagnostic.costsItem_of_isAboutForm h span)
  | take kind => exact accountable_take kind
  | takeIf kind => exact accountable_takeIf kind
  | checkBank r span _ => exact accountable_checkBank r span

/-- What is done about the fault of an assignment, if it has one. -/
theorem accountable_settled {fault? : Option Diagnostic}
    (h : ∀ diagnostic ∈ fault?, diagnostic.costsItem = true) (said : Item) :
    Accountable (· = none)
      (match fault? with
      | some diagnostic => do
        report diagnostic.fault diagnostic.span
        return none
      | none => return some said) := by
  cases fault? with
  | none => exact accountable_pure (Option.some_ne_none said)
  | some diagnostic =>
    intro context start
    have hcosts : diagnostic.costsItem = true := h diagnostic rfl
    show (∀ result ∈ some (none, start), _) ↔ ∃ told ∈ [diagnostic], _
    simp [hcosts]

/-- A faulty assignment is reported, and then it is not given. -/
theorem accountable_assignment : Accountable (· = none) assignment := by
  apply (graded_register trivial).accountable.bind
  intro virt
  apply (accountable_take _).bind
  intro arrow
  apply (graded_register trivial).accountable.bind
  intro real
  exact accountable_settled (fun _ hfault => Diagnostic.costsItem_of_assignmentFault? hfault) _

/-- The reader of a line that starts with the token gives no item exactly if it reports why. -/
theorem accountable_item (first : Token) : Accountable (· = none) (item first) := by
  rw [item]
  split
  · exact accountable_assignment
  · apply (graded_instruction trivial).accountable.bind
    intro inst
    exact accountable_pure (Option.some_ne_none _)
  · exact accountable_fail first.span rfl

end LineReader

end RegisterMapping
