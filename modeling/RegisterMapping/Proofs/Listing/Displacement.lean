import Mathlib.Order.MinMax
import RegisterMapping.Listing.Parse

/-!
# Lines in another place

How a line is read does not depend on where its tokens stand, and of what ends it only the kind is
ever named. A `Displacement` says what becomes of places, of the ends of lines and of diagnostics,
so that the three go together: a diagnostic about a token that is there moves with its span, and one
about a token that is missing is about the new end of the line. What is read of a displaced line is
what was read, displaced (`Line.read_displaced`), and so it is for everything that is put together
from lines (`ParsedListing.join_settleLines_displaced`).

The places of a file can be moved by any function of offsets that keeps their order
(`Displacement.byOffset`); this changes nothing in what a diagnostic says.

For readers this is `LineReader.Follows`. It goes through sequencing (`Follows.bind`), so that each
reader follows itself if its parts do; a reader that is given a token follows the reader that is
given the displaced token.
-/

set_option autoImplicit false

namespace RegisterMapping

/-- The fault is about tokens that are there, and points to no other place. -/
def Fault.isPlain : Fault → Bool
  | .expected _ none => false
  | .assignedTwice _ _ => false
  | _ => true

/-- What becomes of places, of the ends of lines and of what is said about them. -/
structure Displacement where
  span : Span → Span
  terminator : Terminator → Terminator
  diagnostic : Diagnostic → Diagnostic
  cover_span (a b : Span) : (span a).cover (span b) = span (a.cover b)
  terminator_newline (place : Span) :
    terminator ⟨some .newline, place⟩ = ⟨some .newline, span place⟩
  diagnostic_plain {fault : Fault} (place : Span) (h : fault.isPlain = true) :
    diagnostic ⟨fault, place⟩ = ⟨fault, span place⟩
  diagnostic_expected (what : TokenKind) (line : Terminator) :
    diagnostic ⟨.expected what line.kind, line.span⟩ =
      ⟨.expected what (terminator line).kind, (terminator line).span⟩
  diagnostic_assignedTwice (virt : Register) (first place : Span) :
    diagnostic ⟨.assignedTwice virt first, place⟩ = ⟨.assignedTwice virt (span first), span place⟩

namespace Displacement

variable (move : Displacement)

/-- The same token in its new place. -/
def token (token : Token) : Token := ⟨token.kind, token.text, move.span token.span⟩

/-- The same line in its new place. -/
def line (line : Line) : Line := ⟨line.tokens.map move.token, move.terminator line.terminator⟩

/-- A thing with its new place. -/
def placed {α : Type} (placed : α × Span) : α × Span := (placed.1, move.span placed.2)

/-- What a reader knows about its line, once the line is displaced. -/
def context (context : LineContext) : LineContext :=
  ⟨context.bank?, move.terminator context.terminator⟩

/-- The same place in a displaced line. -/
def cursor (cursor : Cursor) : Cursor := ⟨move.span cursor.last, cursor.rest.map move.token⟩

/-- What was read, displaced; `f` is what that makes of the value. -/
def outcome {α : Type} (f : α → α) (reading : Reading α) : Reading α :=
  ⟨reading.diagnostics.map move.diagnostic,
    reading.value.map fun (a, place) => (f a, move.cursor place)⟩

/-- What was read from a line, displaced. -/
def reading (reading : LineReading) : LineReading :=
  ⟨reading.diagnostics.map move.diagnostic, reading.item?.map move.placed,
    reading.trailing.map move.diagnostic⟩

/-- The same assignment in its new place. -/
def assignment (assignment : Assignment) : Assignment :=
  ⟨assignment.virt, assignment.real, move.span assignment.span⟩

/-- The same listing and diagnostics in their new places. -/
def parsed (parsed : ParsedListing) : ParsedListing :=
  ⟨⟨parsed.listing.insts.map move.placed, parsed.listing.assignments.map move.assignment⟩,
    parsed.diagnostics.map move.diagnostic⟩

end Displacement

/-! ## Offsets moved -/

section Move

variable (f : Nat → Nat)

/-- The stretch between the places that the two ends are moved to. -/
def Span.move (span : Span) : Span := ⟨span.file, f span.start, f span.stop⟩

/-- The same end of a line, moved. -/
def Terminator.move (terminator : Terminator) : Terminator :=
  ⟨terminator.kind, terminator.span.move f⟩

/-- The same fault, with the place that it points to moved. -/
def Fault.move : Fault → Fault
  | .assignedTwice virt first => .assignedTwice virt (first.move f)
  | fault => fault

/-- The same diagnostic, moved. -/
def Diagnostic.move (diagnostic : Diagnostic) : Diagnostic :=
  ⟨diagnostic.fault.move f, diagnostic.span.move f⟩

/-- The same label, moved. -/
def Label.move (label : Label) : Label := ⟨label.primary, label.span.move f, label.message⟩

/-- The same assignment, moved. -/
def Assignment.move (assignment : Assignment) : Assignment :=
  ⟨assignment.virt, assignment.real, assignment.span.move f⟩

/-- The same listing and diagnostics, moved. -/
def ParsedListing.move (parsed : ParsedListing) : ParsedListing :=
  ⟨⟨parsed.listing.insts.map fun (inst, span) => (inst, span.move f),
      parsed.listing.assignments.map (Assignment.move f)⟩,
    parsed.diagnostics.map (Diagnostic.move f)⟩

end Move

/-- A move of offsets that keeps their order, as a change of places. -/
def Displacement.byOffset {f : Nat → Nat} (h : Monotone f) : Displacement where
  span := Span.move f
  terminator := Terminator.move f
  diagnostic := Diagnostic.move f
  cover_span a b := by
    simp only [Span.cover, Span.move, h.map_min, h.map_max]
  terminator_newline _ := rfl
  diagnostic_plain {fault} _ h := by
    cases fault with
    | assignedTwice virt first => cases h
    | _ => rfl
  diagnostic_expected _ _ := rfl
  diagnostic_assignedTwice _ _ _ := rfl

namespace Diagnostic

variable (f : Nat → Nat) (diagnostic : Diagnostic)

/-- The code of a diagnostic stays when its places are moved. -/
theorem code_move : (diagnostic.move f).code = diagnostic.code := by
  obtain ⟨fault, span⟩ := diagnostic
  cases fault <;> rfl

theorem message_move : (diagnostic.move f).message = diagnostic.message := by
  obtain ⟨fault, span⟩ := diagnostic
  cases fault <;> rfl

theorem notes_move : (diagnostic.move f).notes = diagnostic.notes := by
  obtain ⟨fault, span⟩ := diagnostic
  cases fault <;> rfl

/-- The labels of a moved diagnostic are its labels, moved. -/
theorem labels_move : (diagnostic.move f).labels = diagnostic.labels.map (Label.move f) := by
  obtain ⟨fault, span⟩ := diagnostic
  cases fault <;> rfl

end Diagnostic

variable {move : Displacement}

/-! ## Readers -/

namespace LineReader

variable {α β : Type}

/-- On a displaced line the second reader does what the first one does; `f` relates the values that
they give. -/
def Follows (move : Displacement) (f : α → α) (reader later : LineReader α) : Prop :=
  ∀ context start, later (move.context context) (move.cursor start) =
    move.outcome f (reader context start)

theorem follows_pure {f : α → α} {a b : α} (h : b = f a) :
    Follows move f (pure a) (pure b) := by
  intro context start
  subst h
  rfl

/-- Two sequences follow each other if their parts do, where the second part is given what the first
one gave. -/
theorem Follows.bind {f : α → α} {g : β → β} {reader later : LineReader α}
    {next laterNext : α → LineReader β} (h : Follows move f reader later)
    (hnext : ∀ a, Follows move g (next a) (laterNext (f a))) :
    Follows move g (reader >>= next) (later >>= laterNext) := by
  intro context start
  have hfirst := h context start
  show LineReader.bind later laterNext _ _ =
    move.outcome g (LineReader.bind reader next context start)
  rw [LineReader.bind, LineReader.bind, hfirst]
  -- Both give up after the first part, or both go on from the same place.
  cases hvalue : (reader context start).value with
  | none => simp only [Displacement.outcome, hvalue, Option.map_none]
  | some pair =>
    obtain ⟨a, place⟩ := pair
    have hsecond := hnext a context place
    simp only [Displacement.outcome, hvalue, Option.map_some, List.map_append] at hsecond ⊢
    rw [hsecond]

/-- What is reported of a place is reported of its new place. -/
theorem follows_report {fault : Fault} (span : Span) (h : fault.isPlain = true) :
    Follows move id (report fault span) (report fault (move.span span)) := by
  intro context start
  simp only [report, Displacement.outcome, List.map_cons, List.map_nil,
    move.diagnostic_plain span h, Option.map_some, id]

theorem follows_fail {f : α → α} {fault : Fault} (span : Span) (h : fault.isPlain = true) :
    Follows move f (fail fault span) (fail fault (move.span span)) := by
  intro context start
  simp only [fail, Displacement.outcome, List.map_cons, List.map_nil,
    move.diagnostic_plain span h, Option.map_none]

theorem follows_ite {condition : Prop} [Decidable condition] {f : α → α}
    {first firstLater second secondLater : LineReader α}
    (hpos : Follows move f first firstLater) (hneg : Follows move f second secondLater) :
    Follows move f (if condition then first else second)
      (if condition then firstLater else secondLater) := by
  split
  · exact hpos
  · exact hneg

/-- A check that reports when it fails says the same of the new place. -/
theorem Follows.check {condition : Prop} [Decidable condition] {f : α → α} {fault : Fault}
    {span : Span} {next later : LineReader α} (h : Follows move f next later)
    (hfault : fault.isPlain = true) :
    Follows move f (if condition then (do report fault span; next) else next)
      (if condition then (do report fault (move.span span); later) else later) := by
  apply follows_ite
  · apply (follows_report span hfault).bind
    intro reported
    exact h
  · exact h

theorem follows_bank? : Follows move id bank? bank? := by
  intro context start
  rfl

/-- A token that is taken is taken from its new place; if it is missing or of another kind, the same
is said of the line or of the token that stands there. -/
theorem follows_take (kind : TokenKind) : Follows move move.token (take kind) (take kind) := by
  intro context start
  obtain ⟨last, rest⟩ := start
  cases rest with
  | nil =>
    have hexpected := move.diagnostic_expected kind context.terminator
    simp only [take, Displacement.cursor, Displacement.context, Displacement.outcome, List.map_nil,
      List.map_cons, hexpected, Option.map_none]
  | cons token rest =>
    by_cases h : token.kind = kind
    · simp only [take, Displacement.cursor, List.map_cons, Displacement.token, if_pos h]
      rfl
    · have hfound : (Fault.expected kind (some token.kind)).isPlain = true := rfl
      simp only [take, Displacement.cursor, List.map_cons, Displacement.token, if_neg h,
        Displacement.outcome, move.diagnostic_plain token.span hfound, List.map_nil,
        Option.map_none]

/-- Whether a token of a kind comes next does not depend on its place. -/
theorem follows_takeIf (kind : TokenKind) : Follows move id (takeIf kind) (takeIf kind) := by
  intro context start
  obtain ⟨last, rest⟩ := start
  cases rest with
  | nil => rfl
  | cons token rest =>
    by_cases h : token.kind = kind
    · simp only [takeIf, Displacement.cursor, List.map_cons, Displacement.token, if_pos h]
      rfl
    · simp only [takeIf, Displacement.cursor, List.map_cons, Displacement.token, if_neg h]
      rfl

/-! ### Operands -/

/-- Whether the bank has a register does not depend on where it is written. -/
theorem follows_checkBank (r : Register) (span : Span) :
    Follows move id (checkBank r span) (checkBank r (move.span span)) := by
  apply follows_bank?.bind
  intro found
  cases found with
  | none => exact follows_pure rfl
  | some bank => exact follows_ite (follows_report span rfl) (follows_pure rfl)

/-- A register is given with the place of its token, so this place is moved as well. -/
theorem follows_register : Follows move move.placed register register := by
  apply (follows_take _).bind
  intro token
  have htext : (move.token token).text = token.text := rfl
  rw [htext]
  cases Register.parse token.text with
  | error cause => exact follows_fail token.span rfl
  | ok r =>
    apply (follows_checkBank r token.span).bind
    intro checked
    exact follows_pure rfl

theorem follows_integerRegister : Follows move id integerRegister integerRegister := by
  apply follows_register.bind
  intro placed
  exact (follows_pure rfl).check rfl

theorem follows_number (negative : Bool) :
    Follows move id (number negative) (number negative) := by
  apply (follows_take _).bind
  intro token
  have htext : (move.token token).text = token.text := rfl
  rw [htext]
  cases constant? negative token.text with
  | none => exact follows_fail token.span rfl
  | some value => exact follows_pure rfl

theorem follows_signedNumber : Follows move id signedNumber signedNumber :=
  (follows_takeIf _).bind follows_number

/-- Registers of different classes are reported with the least place that holds both, which is moved
with them. -/
theorem follows_pair : Follows move id pair pair := by
  apply follows_register.bind
  intro left
  apply (follows_take _).bind
  intro comma
  apply follows_register.bind
  intro right
  have hcover := move.cover_span left.2 right.2
  show Follows move id _ (if left.1.cls ≠ right.1.cls then
    (do report _ ((move.span left.2).cover (move.span right.2)); pure (left.1, right.1))
    else pure (left.1, right.1))
  rw [hcover]
  exact (follows_pure rfl).check rfl

theorem follows_offset : Follows move id offset offset := by
  apply (follows_takeIf _).bind
  intro plus
  apply follows_ite
  · exact follows_number false
  · apply (follows_takeIf _).bind
    intro minus
    exact follows_ite (follows_number true) (follows_pure rfl)

theorem follows_address : Follows move id address address := by
  apply (follows_take _).bind
  intro left
  apply follows_integerRegister.bind
  intro base
  apply follows_offset.bind
  intro word
  apply (follows_take _).bind
  intro right
  exact follows_pure rfl

/-! ### Items -/

/-- The operands of an instruction are read by the form of its mnemonic, part by part. -/
theorem follows_operands (mnemonic : Mnemonic) :
    Follows move id (operands mnemonic) (operands mnemonic) := by
  cases mnemonic with
  | li =>
    apply follows_integerRegister.bind
    intro dst
    apply (follows_take _).bind
    intro comma
    apply follows_signedNumber.bind
    intro imm
    exact follows_pure rfl
  | mov | alu | cmp =>
    apply follows_pair.bind
    intro registers
    exact follows_pure rfl
  | neg | ret =>
    apply follows_register.bind
    intro placed
    exact follows_pure rfl
  | ld | st =>
    apply follows_register.bind
    intro placed
    apply (follows_take _).bind
    intro comma
    apply follows_address.bind
    intro target
    exact follows_pure rfl
  | fma =>
    apply follows_register.bind
    intro dst
    apply (follows_take _).bind
    intro comma
    apply follows_pair.bind
    intro factors
    exact (follows_pure rfl).check rfl

theorem follows_instruction : Follows move id instruction instruction := by
  apply (follows_take _).bind
  intro token
  have htext : (move.token token).text = token.text := rfl
  rw [htext]
  cases Mnemonic.ofText? token.text with
  | none => exact follows_fail token.span rfl
  | some mnemonic => exact follows_operands mnemonic

/-- A displaced assignment has the same fault, which is never that it is a second one, as that is
not for the line to know. -/
theorem assignmentFault?_displaced (move : Displacement) (virt real : Register)
    (virtSpan realSpan : Span) :
    assignmentFault? virt real (move.span virtSpan) (move.span realSpan) =
        (assignmentFault? virt real virtSpan realSpan).map move.diagnostic ∧
      ∀ diagnostic ∈ assignmentFault? virt real virtSpan realSpan,
        diagnostic.fault.isPlain = true := by
  have htold (fault : Fault) (place : Span) (h : fault.isPlain = true) :
      some (⟨fault, move.span place⟩ : Diagnostic) =
          (some (⟨fault, place⟩ : Diagnostic)).map move.diagnostic ∧
        ∀ diagnostic ∈ some (⟨fault, place⟩ : Diagnostic), diagnostic.fault.isPlain = true := by
    refine ⟨congrArg some (move.diagnostic_plain place h).symm, ?_⟩
    rintro _ ⟨⟩
    exact h
  rw [assignmentFault?, assignmentFault?, move.cover_span]
  split
  · exact htold _ _ rfl
  · split
    · exact htold _ _ rfl
    · split
      · exact htold _ _ rfl
      · exact ⟨rfl, fun _ hmem => by cases hmem⟩

/-- What is done about the fault of an assignment, if it has one. -/
theorem follows_settled (move : Displacement) {fault? : Option Diagnostic}
    (h : ∀ diagnostic ∈ fault?, diagnostic.fault.isPlain = true) (said : Item) :
    Follows move id
      (match fault? with
      | some diagnostic => do
        report diagnostic.fault diagnostic.span
        return none
      | none => return some said)
      (match fault?.map move.diagnostic with
      | some diagnostic => do
        report diagnostic.fault diagnostic.span
        return none
      | none => return some said) := by
  cases fault? with
  | none => exact follows_pure rfl
  | some diagnostic =>
    have hplain : diagnostic.fault.isPlain = true := h diagnostic rfl
    rw [Option.map_some, move.diagnostic_plain diagnostic.span hplain]
    apply (follows_report diagnostic.span hplain).bind
    intro reported
    exact follows_pure rfl

/-- The fault of an assignment is about its registers, and is moved with them. -/
theorem follows_assignment : Follows move id assignment assignment := by
  apply follows_register.bind
  rintro ⟨virt, virtSpan⟩
  apply (follows_take _).bind
  intro arrow
  apply follows_register.bind
  rintro ⟨real, realSpan⟩
  obtain ⟨hsame, hplain⟩ := assignmentFault?_displaced move virt real virtSpan realSpan
  have hsettled := follows_settled move hplain (.assignment virt real)
  rw [← hsame] at hsettled
  exact hsettled

/-- Which form an item has is known from the kind of its first token, which stays. -/
theorem follows_item (move : Displacement) (first : Token) :
    Follows move id (item first) (item (move.token first)) := by
  have hkind : (move.token first).kind = first.kind := rfl
  rw [item, item, hkind]
  split
  · exact follows_assignment
  · apply follows_instruction.bind
    intro inst
    exact follows_pure rfl
  · exact follows_fail first.span rfl

end LineReader

/-! ## Whole lines -/

namespace Line

/-- The invalid tokens of a displaced line are those of the line, displaced. -/
theorem invalidTokens_displaced (move : Displacement) (line : Line) :
    (move.line line).invalidTokens = line.invalidTokens.map move.token := by
  rw [invalidTokens, invalidTokens, Displacement.line, List.filter_map]
  rfl

/-- Tokens that are left over are reported from the first to the last of them, in their new places.
-/
theorem trailing_displaced (move : Displacement) (tokens : List Token) :
    trailing (tokens.map move.token) = (trailing tokens).map move.diagnostic := by
  cases tokens with
  | nil => rfl
  | cons token rest =>
    have hlast : ((token :: rest).map move.token).getLast (by simp) =
        move.token ((token :: rest).getLast (List.cons_ne_nil _ _)) := List.getLast_map _
    have hplain : Fault.expectedLineEnd.isPlain = true := rfl
    simp only [List.map_cons] at hlast
    simp only [trailing, List.map_cons, List.map_nil, hlast, move.diagnostic_plain _ hplain]
    rw [← move.cover_span]
    rfl

/-- What is read of a displaced line is what was read, displaced. -/
theorem read_displaced (move : Displacement) (bank? : Option Bank) (line : Line) :
    (move.line line).read bank? = move.reading (line.read bank?) := by
  rw [read, read, invalidTokens_displaced]
  cases hinvalid : line.invalidTokens with
  | cons token tokens =>
    have htold (token : Token) : move.diagnostic ⟨.invalidCharacter, token.span⟩ =
        ⟨.invalidCharacter, (move.token token).span⟩ := move.diagnostic_plain token.span rfl
    simp only [Displacement.reading, List.map_cons, List.map_map, Option.map_none, List.map_nil,
      Function.comp_def, htold]
  | nil =>
    obtain ⟨tokens, terminator⟩ := line
    cases tokens with
    | nil => rfl
    | cons first rest =>
      have hitem := LineReader.follows_item move first ⟨bank?, terminator⟩
        ⟨first.span, first :: rest⟩
      simp only [Displacement.context, Displacement.cursor, List.map_cons] at hitem
      have hspan : (move.token first).span = move.span first.span := rfl
      simp only [Displacement.line, List.map_cons, List.map_nil, hspan, hitem,
        Displacement.outcome]
      -- The same is given, in its new place, or nothing is.
      cases hvalue :
        (LineReader.item first ⟨bank?, terminator⟩ ⟨first.span, first :: rest⟩).value with
      | none => rfl
      | some result =>
        obtain ⟨item?, cursor⟩ := result
        simp only [Option.map_some, Displacement.cursor, trailing_displaced, move.cover_span]
        cases item? <;> rfl

theorem map_read_displaced (move : Displacement) (bank? : Option Bank) (lines : List Line) :
    (lines.map move.line).map (read bank?) = (lines.map (read bank?)).map move.reading := by
  rw [List.map_map, List.map_map]
  exact List.map_congr_left fun line _ => read_displaced move bank? line

end Line

/-! ## Whole texts -/

/-- What a displaced line adds behind displaced assignments is what it added, displaced. -/
theorem LineReading.settle_displaced (move : Displacement) (earlier : List Assignment)
    (reading : LineReading) :
    (move.reading reading).settle (earlier.map move.assignment) =
      move.parsed (reading.settle earlier) := by
  obtain ⟨diagnostics, item?, trailing⟩ := reading
  cases item? with
  | none => simp [settle, Displacement.reading, Displacement.parsed, Listing.empty]
  | some placed =>
    obtain ⟨item, span⟩ := placed
    cases item with
    | instr inst =>
      simp [settle, Displacement.reading, Displacement.parsed, Displacement.placed]
    | assignment virt real =>
      have hfind : ((earlier.map move.assignment).find? fun assignment =>
          assignment.virt = .reg virt) =
          (earlier.find? fun assignment => assignment.virt = .reg virt).map move.assignment := by
        rw [List.find?_map]
        rfl
      simp only [settle, Displacement.reading, Option.map_some, Displacement.placed, hfind]
      cases earlier.find? fun assignment => assignment.virt = .reg virt with
      | none => simp [Displacement.parsed, Displacement.assignment]
      | some first =>
        simp [Displacement.parsed, Displacement.assignment, Listing.empty,
          move.diagnostic_assignedTwice]

namespace ParsedListing

/-- Displaced parts, put together, are the parts put together and then displaced. -/
theorem append_displaced (move : Displacement) (a b : ParsedListing) :
    (move.parsed a).append (move.parsed b) = move.parsed (a.append b) := by
  simp only [append, Displacement.parsed, List.map_append]

/-- What displaced lines add is what they added, displaced. -/
theorem join_settleLines_displaced (move : Displacement) (earlier : List Assignment)
    (readings : List LineReading) :
    join (settleLines (earlier.map move.assignment) (readings.map move.reading)) =
      move.parsed (join (settleLines earlier readings)) := by
  induction readings generalizing earlier with
  | nil => rfl
  | cons reading rest ih =>
    have hassignments : earlier.map move.assignment ++
        (move.parsed (reading.settle earlier)).listing.assignments =
        (earlier ++ (reading.settle earlier).listing.assignments).map move.assignment :=
      List.map_append.symm
    rw [List.map_cons, settleLines, LineReading.settle_displaced, hassignments]
    show (move.parsed _).append (join _) = move.parsed (append _ (join _))
    rw [ih, append_displaced]

end ParsedListing

/-- If tokens are moved, except that newlines may be written differently, then lines are moved. -/
theorem Line.split_displaced (move : Displacement) {endOfFile moved : Span} (write : Token → Token)
    (hnewline : ∀ token, token.kind = .newline →
      (write token).kind = .newline ∧ (write token).span = move.span token.span)
    (hother : ∀ token, token.kind ≠ .newline → write token = move.token token)
    (hend : move.terminator ⟨none, endOfFile⟩ = ⟨none, moved⟩) (tokens : List Token) :
    split moved (tokens.map write) = (split endOfFile tokens).map move.line := by
  induction tokens with
  | nil =>
    show [(⟨[], ⟨none, moved⟩⟩ : Line)] = [⟨[], move.terminator ⟨none, endOfFile⟩⟩]
    rw [hend]
  | cons token rest ih =>
    rw [List.map_cons, split, split, ih]
    by_cases h : token.kind = .newline
    · obtain ⟨hkind, hspan⟩ := hnewline token h
      rw [if_pos h, if_pos hkind, hspan, ← move.terminator_newline]
      rfl
    · have hkind : (write token).kind ≠ .newline := by
        rw [hother token h]
        exact h
      rw [if_neg h, if_neg hkind, hother token h]
      obtain ⟨line, lines, hsplit⟩ := List.exists_cons_of_ne_nil (split_ne_nil endOfFile rest)
      rw [hsplit]
      rfl

end RegisterMapping
