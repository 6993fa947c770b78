import RegisterMapping.Proofs.Listing.Acceptance
import RegisterMapping.Proofs.Listing.Positions
import RegisterMapping.Proofs.Listing.Values

/-!
# Parts of the pass and readers

Each part of the pass by position simulates the reader that has its place: from a position that
stands where a cursor stands, it gives a related value and stands where the reader stands then, or
it gives up where the reader does, and it reports the same (`Simulates`). None of the steps that can
fail does. Simulation goes through sequencing (`Agrees.bind`), so the parts are put together like
the readers, up to the item of a line (`agrees_item`), which is also added to the listing.
-/

set_option autoImplicit false

namespace RegisterMapping

/-! ## Positions and cursors -/

/-- The context is that of a line that ends at position `stop`, in tokens of one file. -/
structure Encloses (input : ParserInput) (context : LineContext) (stop : Nat) : Prop where
  bank : context.bank? = input.bank?
  at_end : input.tokens[stop]? = none → context.terminator = ⟨none, input.endOfFile⟩
  at_newline : ∀ token, input.tokens[stop]? = some token →
    token.kind = .newline ∧ context.terminator = ⟨some .newline, token.span⟩
  one_file : ∀ token ∈ input.tokens, token.span.file = input.endOfFile.file

/-- In a line that ends at `stop`, the position is where the cursor stands. If the line is begun,
the last token that was taken stands before the position. -/
structure Stands (input : ParserInput) (begun : Prop) (stop : Nat) (cursor : Cursor)
    (position : Nat) : Prop where
  length_eq : position + cursor.rest.length = stop
  drop_eq : input.tokens.drop position = cursor.rest ++ input.tokens.drop stop
  last_eq : begun → ∃ before token, position = before + 1 ∧
    input.tokens[before]? = some token ∧ token.span = cursor.last

namespace Stands

variable {input : ParserInput} {begun : Prop} {stop position : Nat} {last : Span} {token : Token}
  {rest : List Token}

/-- The token at the cursor is the token at the position. -/
theorem getElem?_eq (h : Stands input begun stop ⟨last, token :: rest⟩ position) :
    input.tokens[position]? = some token := by
  have hdrop := h.drop_eq
  rw [← Nat.add_zero position, ← List.getElem?_drop, hdrop]
  rfl

theorem mem (h : Stands input begun stop ⟨last, token :: rest⟩ position) :
    token ∈ input.tokens :=
  List.mem_of_getElem? h.getElem?_eq

/-- Going past the token at the position is taking it from the cursor, and begins the line. -/
theorem advance (h : Stands input begun stop ⟨last, token :: rest⟩ position) (begun' : Prop) :
    Stands input begun' stop ⟨token.span, rest⟩ (position + 1) where
  length_eq := by
    have := h.length_eq
    simp only [List.length_cons] at this ⊢
    omega
  drop_eq := by
    rw [← List.drop_drop, h.drop_eq]
    rfl
  last_eq := fun _ => ⟨position, token, rfl, h.getElem?_eq, rfl⟩

/-- Less is known of a line of which it is not known that it is begun. -/
theorem weaken {cursor : Cursor} (h : Stands input begun stop cursor position) :
    Stands input False stop cursor position :=
  ⟨h.length_eq, h.drop_eq, False.elim⟩

/-- Where the line has no token left, the position is its end. -/
theorem eq_stop (h : Stands input begun stop ⟨last, []⟩ position) : position = stop := h.length_eq

end Stands

/-! ## States -/

namespace ParserState

/-- The state at a new position, with more found. -/
def add (state : ParserState) (position : Nat) (found : ParsedListing) : ParserState where
  position := position
  assigned := state.assigned ++
    found.listing.assignments.map fun assignment => (assignment.virt, assignment.span)
  listing := ⟨state.listing.insts ++ found.listing.insts,
    state.listing.assignments ++ found.listing.assignments⟩
  diagnostics := state.diagnostics ++ found.diagnostics

/-- The state at a new position, with more reported. -/
def told (state : ParserState) (position : Nat) (diagnostics : List Diagnostic) : ParserState :=
  state.add position ⟨Listing.empty, diagnostics⟩

theorem add_add (state : ParserState) (p q : Nat) (a b : ParsedListing) :
    (state.add p a).add q b = state.add q (a.append b) := by
  simp [add, ParsedListing.append]

theorem told_told (state : ParserState) (p q : Nat) (a b : List Diagnostic) :
    (state.told p a).told q b = state.told q (a ++ b) := by
  rw [told, told, add_add]
  rfl

theorem told_eq (state : ParserState) (p : Nat) (a : List Diagnostic) :
    state.told p a = { state with position := p, diagnostics := state.diagnostics ++ a } := by
  simp [told, add, Listing.empty]

theorem told_nil (state : ParserState) (p : Nat) :
    state.told p [] = { state with position := p } := by
  rw [told_eq, List.append_nil]

@[simp]
theorem listing_told (state : ParserState) (p : Nat) (a : List Diagnostic) :
    (state.told p a).listing = state.listing := by
  rw [told_eq]

/-- The places of the assignments are remembered. -/
def Remembers (state : ParserState) : Prop :=
  state.assigned =
    state.listing.assignments.map fun assignment => (assignment.virt, assignment.span)

/-- What is added to the listing is remembered. -/
theorem Remembers.add {state : ParserState} (h : state.Remembers) (p : Nat)
    (found : ParsedListing) : (state.add p found).Remembers := by
  unfold Remembers at h ⊢
  simp only [ParserState.add, h, List.map_append]

end ParserState

/-! ## Simulation -/

/-- What a part of the pass adds to the state, given what its reader read: nothing but what was
reported. -/
def onlyTold {β : Type} : β → Cursor → List Diagnostic → ParsedListing :=
  fun _ _ diagnostics => ⟨Listing.empty, diagnostics⟩

/-- The outcome of a part of the pass, begun in a state, is that of a reader: it gave up as the
reader did, or the values are related, the places the same, and `found` is what was added. -/
def Agrees {α β : Type} (input : ParserInput) (begun : Prop) (stop : Nat) (state : ParserState)
    (found : β → Cursor → List Diagnostic → ParsedListing)
    (outcome : Except ParserFailure (Option α × ParserState)) (reading : Reading β)
    (related : α → β → Prop) : Prop :=
  match reading.value with
  | none => ∃ position, outcome = .ok (none, state.told position reading.diagnostics)
  | some (b, cursor) => ∃ a position,
    outcome = .ok (some a, state.add position (found b cursor reading.diagnostics)) ∧
      related a b ∧ Stands input begun stop cursor position

/-- An outcome that goes well agrees with a reading that gives a related value at the same place. -/
theorem agrees_of_ok {α β : Type} {input : ParserInput} {begun : Prop} {stop position : Nat}
    {state : ParserState} {outcome : Except ParserFailure (Option α × ParserState)} {a : α} {b : β}
    {place : Cursor} {diagnostics : List Diagnostic} {related : α → β → Prop}
    (hplace : Stands input begun stop place position) (hrelated : related a b)
    (houtcome : outcome = .ok (some a, state.told position diagnostics)) :
    Agrees input begun stop state onlyTold outcome ⟨diagnostics, some (b, place)⟩ related :=
  ⟨a, position, houtcome, hrelated, hplace⟩

/-- From a position where its cursor stands, the part of the pass does what the reader does. -/
def Simulates {α β : Type} (input : ParserInput) (context : LineContext) (stop : Nat)
    (parser : PositionParser α) (reader : LineReader β) (related : α → β → Prop) : Prop :=
  ∀ begun cursor state, Stands input begun stop cursor state.position →
    Agrees input begun stop state onlyTold (parser input state) (reader context cursor) related

section Sequencing

variable {α β γ δ : Type} {input : ParserInput} {context : LineContext} {begun : Prop} {stop : Nat}
  {R : α → β → Prop} {S : γ → δ → Prop}

namespace PositionParser

variable {parser : PositionParser α} {f : α → PositionParser γ} {state next : ParserState}

theorem bind_of_ok {a : α} (h : parser input state = .ok (some a, next)) :
    (parser >>= f) input state = f a input next := by
  show PositionParser.bind parser f input state = _
  rw [PositionParser.bind, h]

theorem bind_of_giveUp (h : parser input state = .ok (none, next)) :
    (parser >>= f) input state = .ok (none, next) := by
  show PositionParser.bind parser f input state = _
  rw [PositionParser.bind, h]

end PositionParser

namespace LineReader

variable {reader : LineReader β} {g : β → LineReader δ} {cursor : Cursor}

theorem bind_of_value {b : β} {place : Cursor}
    (h : (reader context cursor).value = some (b, place)) :
    (reader >>= g) context cursor =
      ⟨(reader context cursor).diagnostics ++ (g b context place).diagnostics,
        (g b context place).value⟩ := by
  show LineReader.bind reader g context cursor = _
  rw [LineReader.bind]
  simp only [h]

theorem bind_of_giveUp (h : (reader context cursor).value = none) :
    (reader >>= g) context cursor = ⟨(reader context cursor).diagnostics, none⟩ := by
  show LineReader.bind reader g context cursor = _
  rw [LineReader.bind]
  simp only [h]

end LineReader

/-- What comes next has to agree from where the first part stopped, and what it finds may not
depend on what was reported before. -/
theorem Agrees.bind {parser : PositionParser α} {reader : LineReader β}
    {f : α → PositionParser γ} {g : β → LineReader δ} {state : ParserState} {cursor : Cursor}
    {begun' : Prop} {found : δ → Cursor → List Diagnostic → ParsedListing}
    (hfound : ∀ d place front later, found d place (front ++ later) =
      ParsedListing.append ⟨Listing.empty, front⟩ (found d place later))
    (h : Agrees input begun stop state onlyTold (parser input state) (reader context cursor) R)
    (hnext : ∀ a b place position diagnostics, R a b →
      (reader context cursor).value = some (b, place) → Stands input begun stop place position →
      Agrees input begun' stop (state.told position diagnostics) found
        (f a input (state.told position diagnostics)) (g b context place) S) :
    Agrees input begun' stop state found ((parser >>= f) input state)
      ((reader >>= g) context cursor) S := by
  rw [Agrees] at h
  cases hvalue : (reader context cursor).value with
  | none =>
    rw [hvalue] at h
    obtain ⟨position, hparser⟩ := h
    rw [PositionParser.bind_of_giveUp hparser, LineReader.bind_of_giveUp hvalue]
    exact ⟨position, rfl⟩
  | some result =>
    obtain ⟨b, place⟩ := result
    rw [hvalue] at h
    obtain ⟨a, position, hparser, hrelated, hstands⟩ := h
    have hagrees := hnext a b place position (reader context cursor).diagnostics hrelated hvalue
      hstands
    rw [PositionParser.bind_of_ok hparser, LineReader.bind_of_value hvalue]
    -- What the second part adds goes behind what the first part told.
    rw [Agrees] at hagrees ⊢
    cases hlater : (g b context place).value with
    | none =>
      rw [hlater] at hagrees
      obtain ⟨later, hf⟩ := hagrees
      refine ⟨later, ?_⟩
      rw [← ParserState.told_told]
      exact hf
    | some result =>
      rw [hlater] at hagrees
      obtain ⟨c, later, hf, hrest⟩ := hagrees
      refine ⟨c, later, ?_, hrest⟩
      rw [hfound, ← ParserState.add_add]
      exact hf

/-- Parts that simulate each other make sequences that do. -/
theorem Simulates.bind {parser : PositionParser α} {reader : LineReader β}
    {f : α → PositionParser γ} {g : β → LineReader δ}
    (h : Simulates input context stop parser reader R)
    (hnext : ∀ a b, R a b → Simulates input context stop (f a) (g b) S) :
    Simulates input context stop (parser >>= f) (reader >>= g) S :=
  fun begun cursor state hstands => by
    refine Agrees.bind (fun _ _ _ _ => rfl) (h begun cursor state hstands) ?_
    intro a b place position diagnostics hrelated _ hplace
    exact hnext a b hrelated begun place (state.told position diagnostics) hplace

theorem simulates_pure {a : α} {b : β} (h : R a b) :
    Simulates input context stop (pure a) (pure b) R := by
  intro begun cursor state hstands
  refine agrees_of_ok hstands h ?_
  rw [ParserState.told_nil]
  rfl

/-- What comes after looking at the next token is told what stands at the position. -/
theorem PositionParser.peek_bind {f : Option Token → PositionParser γ} {state : ParserState}
    {found : Option Token} (h : input.tokens[state.position]? = found) :
    (PositionParser.peek >>= f) input state = f found input state := by
  rw [← h]
  rfl

/-- Two spans of one file can be joined. -/
theorem PositionParser.joined_eq {a b : Span} (h : a.file = b.file) :
    PositionParser.joined a b = pure (a.cover b) := by
  rw [PositionParser.joined, Span.join?, if_pos h]

theorem PositionParser.report_eq (input : ParserInput) (fault : Fault) (span : Span)
    (state : ParserState) :
    PositionParser.report fault span input state =
      .ok (some (), state.told state.position [⟨fault, span⟩]) := by
  rw [ParserState.told_eq]
  rfl

theorem simulates_report (fault : Fault) (span : Span) :
    Simulates input context stop (PositionParser.report fault span)
      (LineReader.report fault span) (fun _ _ => True) := by
  intro begun cursor state hstands
  exact agrees_of_ok hstands trivial (PositionParser.report_eq input fault span state)

/-- Reporting a fault and giving up is failing with it. -/
theorem simulates_fail (fault : Fault) (span : Span) :
    Simulates input context stop
      (PositionParser.report fault span >>= fun _ => PositionParser.giveUp)
      (LineReader.fail fault span) R := by
  intro begun cursor state hstands
  refine ⟨state.position, ?_⟩
  rw [ParserState.told_eq]
  rfl

/-- Both decide the same condition. -/
theorem simulates_ite {p : Prop} [Decidable p] {first second : PositionParser α}
    {third fourth : LineReader β} (hpos : Simulates input context stop first third R)
    (hneg : Simulates input context stop second fourth R) :
    Simulates input context stop (if p then first else second) (if p then third else fourth) R := by
  split
  · exact hpos
  · exact hneg

theorem simulates_ite_and {p q : Prop} [Decidable p] [Decidable q]
    {first second : PositionParser α} {third fourth : LineReader β}
    (hpos : Simulates input context stop first (if q then third else fourth) R)
    (hneg : Simulates input context stop second fourth R) :
    Simulates input context stop (if p then first else second)
      (if p ∧ q then third else fourth) R := by
  rw [ite_and]
  exact simulates_ite hpos hneg

/-- A handle that holds a register can be asked for every attribute. -/
theorem Simulates.asked {requested : Attribute} {r : Register} {f : Register → PositionParser γ}
    {reader : LineReader δ} (h : Simulates input context stop (f r) reader S) :
    Simulates input context stop (PositionParser.asked requested (.reg r) >>= f) reader S := h

theorem Simulates.joined {a b : Span} {f : Span → PositionParser γ} {reader : LineReader δ}
    (hfile : a.file = b.file) (h : Simulates input context stop (f (a.cover b)) reader S) :
    Simulates input context stop (PositionParser.joined a b >>= f) reader S := by
  rw [PositionParser.joined_eq hfile]
  exact h

end Sequencing

/-! ## Tokens -/

section Readers

variable {input : ParserInput} {context : LineContext} {stop : Nat}

/-- A token that was taken comes from the file. -/
def Taken (input : ParserInput) (a b : Token) : Prop :=
  a = b ∧ b.span.file = input.endOfFile.file

/-- A token is expected where the reader takes it. Where the line has none left, the pass sees what
ends the line. -/
theorem simulates_expect (hline : Encloses input context stop) {kind : TokenKind}
    (hkind : kind ≠ .newline) :
    Simulates input context stop (PositionParser.expect kind) (LineReader.take kind)
      (Taken input) := by
  rintro begun ⟨last, rest⟩ state hstands
  cases rest with
  | cons token rest =>
    rw [PositionParser.expect, PositionParser.peek_bind hstands.getElem?_eq]
    by_cases h : token.kind = kind
    · simp only [LineReader.take, h, if_true]
      refine agrees_of_ok (hstands.advance begun) ⟨rfl, hline.one_file token hstands.mem⟩ ?_
      rw [ParserState.told_nil]
      rfl
    · simp only [LineReader.take, h, if_false]
      refine ⟨state.position, ?_⟩
      rw [ParserState.told_eq]
      rfl
  | nil =>
    obtain rfl := hstands.eq_stop
    refine ⟨state.position, ?_⟩
    cases hfound : input.tokens[state.position]? with
    | none =>
      rw [PositionParser.expect, PositionParser.peek_bind hfound, ParserState.told_eq,
        LineReader.take, hline.at_end hfound]
      rfl
    | some token =>
      obtain ⟨hnewline, hterminator⟩ := hline.at_newline token hfound
      rw [PositionParser.expect, PositionParser.peek_bind hfound, ParserState.told_eq]
      simp only [LineReader.take, hterminator, hnewline, hkind.symm, if_false]
      rw [PositionParser.expected, hnewline]
      rfl

theorem simulates_expectIf (hline : Encloses input context stop) {kind : TokenKind}
    (hkind : kind ≠ .newline) :
    Simulates input context stop (PositionParser.expectIf kind) (LineReader.takeIf kind) Eq := by
  rintro begun ⟨last, rest⟩ state hstands
  cases rest with
  | cons token rest =>
    rw [PositionParser.expectIf, PositionParser.peek_bind hstands.getElem?_eq]
    by_cases h : token.kind = kind
    · simp only [LineReader.takeIf, h, if_true]
      refine agrees_of_ok (hstands.advance begun) rfl ?_
      rw [ParserState.told_nil]
      rfl
    · simp only [LineReader.takeIf, h, if_false]
      refine agrees_of_ok hstands rfl ?_
      rw [ParserState.told_nil]
      rfl
  -- No line is ended by a token that can be taken.
  | nil =>
    obtain rfl := hstands.eq_stop
    refine agrees_of_ok hstands rfl ?_
    cases hfound : input.tokens[state.position]? with
    | none =>
      rw [PositionParser.expectIf, PositionParser.peek_bind hfound, ParserState.told_nil]
      rfl
    | some token =>
      have hnewline := (hline.at_newline token hfound).1
      rw [PositionParser.expectIf, PositionParser.peek_bind hfound, ParserState.told_nil]
      simp only [hnewline, hkind.symm, if_false]
      rfl

/-! ## Operands -/

/-- A handle that was read holds the register. -/
def Held (h : Handle) (r : Register) : Prop := h = .reg r

/-- Two handles that were read hold the two registers. -/
def BothHeld (h : Handle × Handle) (r : Register × Register) : Prop :=
  h = (.reg r.1, .reg r.2)

/-- A handle that was read with its place holds the register, and the place is in the file. -/
def HeldAt (input : ParserInput) (h : Handle × Span) (r : Register × Span) : Prop :=
  h = (.reg r.1, r.2) ∧ r.2.file = input.endOfFile.file

/-- A bank can be asked about what a handle holds, if it holds a register. -/
theorem PositionParser.contained_reg (bank : Bank) (r : Register) :
    PositionParser.contained bank (.reg r) = pure (bank.contains r) := by
  have hasked : PositionParser.contained bank (.reg r) =
      if r.isReal then pure (decide (r.index < bank.count r.cls)) else pure false := rfl
  rw [hasked, Bank.contains]
  cases r.isReal with
  | true => rfl
  | false => rfl

theorem simulates_checkBank (hline : Encloses input context stop) (r : Register) (span : Span) :
    Simulates input context stop (PositionParser.checkBank (.reg r) span)
      (LineReader.checkBank r span) (fun _ _ => True) := by
  intro begun cursor state hstands
  have hinput : PositionParser.input input state = .ok (some input, state) := rfl
  have hasked : (LineReader.bank? context cursor).value = some (input.bank?, cursor) := by
    rw [← hline.bank]
    rfl
  rw [PositionParser.checkBank, PositionParser.bind_of_ok hinput, LineReader.checkBank,
    LineReader.bind_of_value hasked]
  have hdone : Simulates input context stop (pure ()) (pure ()) (fun _ _ => True) :=
    simulates_pure trivial
  cases input.bank? with
  | none => exact hdone begun cursor state hstands
  | some bank =>
    -- The pass asks whether the register is real before it asks the bank, the reader asks both.
    simp only [PositionParser.contained_reg, Bool.and_eq_true]
    exact Simulates.asked (simulates_ite_and (simulates_ite (simulates_report _ _) hdone) hdone)
      begun cursor state hstands

/-- Both ask the bank about the register that the token at their place names. -/
theorem simulates_register (hline : Encloses input context stop) :
    Simulates input context stop PositionParser.register LineReader.register (HeldAt input) := by
  refine (simulates_expect hline (by decide)).bind ?_
  rintro token _ ⟨rfl, hfile⟩
  cases Register.parse token.text with
  | error cause => exact simulates_fail _ _
  | ok r =>
    refine (simulates_checkBank hline r token.span).bind fun _ _ _ => ?_
    exact simulates_pure ⟨rfl, hfile⟩

theorem simulates_integerRegister (hline : Encloses input context stop) :
    Simulates input context stop PositionParser.integerRegister LineReader.integerRegister
      Held := by
  refine (simulates_register hline).bind ?_
  rintro _ ⟨r, span⟩ ⟨rfl, -⟩
  refine Simulates.asked ?_
  have hreturn : Simulates input context stop (pure (.reg r)) (pure r) Held := simulates_pure rfl
  exact simulates_ite ((simulates_report _ _).bind fun _ _ _ => hreturn) hreturn

theorem simulates_number (hline : Encloses input context stop) (negative : Bool) :
    Simulates input context stop (PositionParser.number negative) (LineReader.number negative)
      Eq := by
  refine (simulates_expect hline (by decide)).bind ?_
  rintro token _ ⟨rfl, -⟩
  cases constant? negative token.text with
  | none => exact simulates_fail _ _
  | some word => exact simulates_pure rfl

theorem simulates_signedNumber (hline : Encloses input context stop) :
    Simulates input context stop PositionParser.signedNumber LineReader.signedNumber Eq := by
  refine (simulates_expectIf hline (by decide)).bind ?_
  rintro negative _ rfl
  exact simulates_number hline negative

theorem simulates_pair (hline : Encloses input context stop) :
    Simulates input context stop PositionParser.pair LineReader.pair BothHeld := by
  refine (simulates_register hline).bind ?_
  rintro _ ⟨left, leftSpan⟩ ⟨rfl, hleft⟩
  refine (simulates_expect hline (by decide)).bind fun _ _ _ => ?_
  refine (simulates_register hline).bind ?_
  rintro _ ⟨right, rightSpan⟩ ⟨rfl, hright⟩
  refine Simulates.asked (Simulates.asked ?_)
  have hreturn : Simulates input context stop (pure (.reg left, .reg right)) (pure (left, right))
      BothHeld := simulates_pure rfl
  refine simulates_ite (Simulates.joined (hleft.trans hright.symm) ?_) hreturn
  exact (simulates_report _ _).bind fun _ _ _ => hreturn

theorem simulates_offset (hline : Encloses input context stop) :
    Simulates input context stop PositionParser.offset LineReader.offset Eq := by
  refine (simulates_expectIf hline (by decide)).bind ?_
  rintro added _ rfl
  refine simulates_ite (simulates_number hline false) ?_
  refine (simulates_expectIf hline (by decide)).bind ?_
  rintro subtracted _ rfl
  exact simulates_ite (simulates_number hline true) (simulates_pure rfl)

theorem simulates_address (hline : Encloses input context stop) :
    Simulates input context stop PositionParser.address LineReader.address Eq := by
  refine (simulates_expect hline (by decide)).bind fun _ _ _ => ?_
  refine (simulates_integerRegister hline).bind ?_
  rintro _ base rfl
  refine (simulates_offset hline).bind ?_
  rintro distance _ rfl
  refine (simulates_expect hline (by decide)).bind fun _ _ _ => ?_
  exact simulates_pure rfl

theorem simulates_operands (hline : Encloses input context stop) (m : Mnemonic) :
    Simulates input context stop (PositionParser.operands m) (LineReader.operands m) Eq := by
  have hcomma : Simulates input context stop (PositionParser.expect .comma)
      (LineReader.take .comma) (Taken input) := simulates_expect hline (by decide)
  cases m with
  | li =>
    refine (simulates_integerRegister hline).bind ?_
    rintro _ dst rfl
    refine hcomma.bind fun _ _ _ => (simulates_signedNumber hline).bind ?_
    rintro imm _ rfl
    exact simulates_pure rfl
  | mov | alu op | cmp =>
    refine (simulates_pair hline).bind ?_
    rintro _ ⟨left, right⟩ rfl
    exact simulates_pure rfl
  | neg | ret =>
    refine (simulates_register hline).bind ?_
    rintro _ ⟨r, span⟩ ⟨rfl, -⟩
    exact simulates_pure rfl
  | ld | st =>
    refine (simulates_register hline).bind ?_
    rintro _ ⟨r, span⟩ ⟨rfl, -⟩
    refine hcomma.bind fun _ _ _ => (simulates_address hline).bind ?_
    rintro address _ rfl
    exact simulates_pure rfl
  | fma =>
    refine (simulates_register hline).bind ?_
    rintro _ ⟨dst, span⟩ ⟨rfl, -⟩
    refine hcomma.bind fun _ _ _ => (simulates_pair hline).bind ?_
    rintro _ ⟨a, b⟩ rfl
    refine Simulates.asked (Simulates.asked ?_)
    have hreturn : Simulates input context stop (pure (Instr.fma (.reg dst) (.reg a) (.reg b)))
        (pure (Instr.fma (.reg dst) (.reg a) (.reg b))) Eq := simulates_pure rfl
    -- The pass asks for the class of the destination only if the factors are of one class.
    refine simulates_ite_and (Simulates.asked ?_) hreturn
    exact simulates_ite ((simulates_report _ _).bind fun _ _ _ => hreturn) hreturn

/-! ## Items -/

/-- A mnemonic that comes next, and its operands, are read as an instruction. -/
theorem agrees_mnemonic (hline : Encloses input context stop) {last : Span} {first : Token}
    {rest : List Token} {state : ParserState}
    (hstands : Stands input False stop ⟨last, first :: rest⟩ state.position)
    (hkind : first.kind = .name) :
    Agrees input True stop state onlyTold (PositionParser.mnemonic first input state)
      (LineReader.instruction context ⟨last, first :: rest⟩) Eq := by
  -- From the mnemonic on the line is begun, so that a token stands before the position.
  have htake : Agrees input True stop state onlyTold (PositionParser.advance input state)
      (LineReader.take .name context ⟨last, first :: rest⟩) (fun _ token => token = first) := by
    simp only [LineReader.take, hkind, if_true]
    refine agrees_of_ok (a := ()) (hstands.advance True) rfl ?_
    rw [ParserState.told_nil]
    rfl
  refine Agrees.bind (fun _ _ _ _ => rfl) htake ?_
  rintro _ token place position diagnostics rfl _ hplace
  cases Mnemonic.ofText? token.text with
  | none => exact simulates_fail _ _ True place _ hplace
  | some m => exact simulates_operands hline m True place _ hplace

/-- What an item adds, given the assignments of earlier lines and the first token of its line. -/
def settledItem (earlier : List Assignment) (first : Token) :
    Option Item → Cursor → List Diagnostic → ParsedListing :=
  fun item? cursor diagnostics => LineReading.settle earlier
    ⟨diagnostics, item?.map fun item => (item, first.span.cover cursor.last), []⟩

theorem settledItem_append (earlier : List Assignment) (first : Token) (item? : Option Item)
    (cursor : Cursor) (front later : List Diagnostic) :
    settledItem earlier first item? cursor (front ++ later) =
      ParsedListing.append ⟨Listing.empty, front⟩
        (settledItem earlier first item? cursor later) := by
  unfold settledItem LineReading.settle ParsedListing.append
  cases item? with
  | none => simp [Listing.empty]
  | some item =>
    cases item with
    | instr inst => simp [Listing.empty]
    | assignment virt real =>
      simp only [Option.map_some]
      split <;> simp [Listing.empty]

/-- An instruction is added with the span from its mnemonic to the last token that was taken. -/
theorem agrees_instruction (hline : Encloses input context stop) {last : Span} {first : Token}
    {rest : List Token} {state : ParserState}
    (hstands : Stands input False stop ⟨last, first :: rest⟩ state.position)
    (hkind : first.kind = .name) :
    Agrees input False stop state (settledItem state.listing.assignments first)
      (PositionParser.instruction first input state)
      ((LineReader.instruction >>= fun inst => pure (some (.instr inst))) context
        ⟨last, first :: rest⟩) (fun _ _ => True) := by
  refine Agrees.bind (settledItem_append _ _) (agrees_mnemonic hline hstands hkind) ?_
  rintro inst _ place position diagnostics rfl - hplace
  -- The token before the position is the last one that the reader took.
  obtain ⟨before, token, rfl, htoken, hlast⟩ := hplace.last_eq trivial
  have hfile : first.span.file = token.span.file :=
    (hline.one_file first hstands.mem).trans
      (hline.one_file token (List.mem_of_getElem? htoken)).symm
  have hbefore : ∀ state : ParserState,
      PositionParser.tokenBefore (before + 1) input state = .ok (some token, state) := by
    intro state
    rw [PositionParser.tokenBefore, PositionParser.tokenAt, htoken]
  have hjoined := PositionParser.joined_eq hfile
  rw [hlast] at hjoined
  refine ⟨(), before + 1, ?_, trivial, hplace.weaken⟩
  have hnext : PositionParser.position input (state.told (before + 1) diagnostics) =
      .ok (some (before + 1), state.told (before + 1) diagnostics) := rfl
  rw [PositionParser.bind_of_ok hnext, PositionParser.bind_of_ok (hbefore _), hlast, hjoined]
  show PositionParser.addInstr inst (first.span.cover place.last) input _ =
    .ok (some (), ParserState.add _ (before + 1) ⟨⟨[(inst, first.span.cover place.last)], []⟩, []⟩)
  simp [PositionParser.addInstr, ParserState.told, ParserState.add]

/-- What is remembered of a register is the place of its assignment in the listing. -/
theorem PositionParser.assignedAt_eq {state : ParserState} (h : state.Remembers) (virt : Handle) :
    PositionParser.assignedAt virt input state =
      .ok (some ((state.listing.assignments.find? fun assignment =>
        assignment.virt = virt).map Assignment.span), state) := by
  rw [PositionParser.assignedAt, h, List.find?_map, Option.map_map]
  rfl

namespace PositionParser

variable {state : ParserState} {virt real : Register} {virtSpan realSpan : Span}

theorem joined_ok (h : virtSpan.file = realSpan.file) :
    joined virtSpan realSpan input state = .ok (some (virtSpan.cover realSpan), state) := by
  rw [joined_eq h]
  rfl

theorem asked_ok (requested : Attribute) (r : Register) :
    asked requested (.reg r) input state = .ok (some r, state) := rfl

/-- An assignment with a fault is reported and not added. -/
theorem assign_of_fault {diagnostic : Diagnostic} (hfile : virtSpan.file = realSpan.file)
    (h : LineReader.assignmentFault? virt real virtSpan realSpan = some diagnostic) :
    assign (.reg virt, virtSpan) (.reg real, realSpan) input state =
      .ok (some (), state.told state.position [diagnostic]) := by
  rw [LineReader.assignmentFault?, Register.isReal] at h
  rw [assign, bind_of_ok (joined_ok hfile), bind_of_ok (asked_ok _ _)]
  cases hvirt : virt.isVirtual with
  | false =>
    simp only [hvirt, Bool.not_false, if_true, Option.some.injEq] at h ⊢
    rw [← h]
    exact report_eq input _ _ state
  | true =>
    simp only [hvirt, Bool.not_true, Bool.false_eq_true, if_false] at h ⊢
    rw [bind_of_ok (asked_ok _ _), Register.isReal]
    cases hreal : real.isVirtual with
    | true =>
      simp only [hreal, Bool.not_true, Bool.not_false, if_true, Option.some.injEq] at h ⊢
      rw [← h]
      exact report_eq input _ _ state
    | false =>
      simp only [hreal, Bool.not_true, Bool.not_false, Bool.false_eq_true, if_false] at h ⊢
      rw [bind_of_ok (asked_ok _ _), bind_of_ok (asked_ok _ _)]
      by_cases hcls : virt.cls = real.cls
      · rw [if_neg (not_not_intro hcls)] at h
        cases h
      · rw [if_pos hcls, Option.some.injEq] at h
        rw [if_pos hcls, ← h]
        exact report_eq input _ _ state

/-- An assignment without a fault is added, unless its register is assigned already. -/
theorem assign_of_sound {earlier : List Assignment} (hfile : virtSpan.file = realSpan.file)
    (hremembers : state.Remembers) (hearlier : state.listing.assignments = earlier)
    (h : LineReader.assignmentFault? virt real virtSpan realSpan = none) :
    assign (.reg virt, virtSpan) (.reg real, realSpan) input state =
      .ok (some (), state.add state.position (LineReading.settle earlier
        ⟨[], some (.assignment virt real, virtSpan.cover realSpan), []⟩)) := by
  obtain rfl := hearlier
  have htyped := LineReader.assignmentFault?_eq_none_iff.1 h
  simp only [Item.wellTyped, Bool.and_eq_true, decide_eq_true_eq] at htyped
  obtain ⟨⟨hvirt, hreal⟩, hcls⟩ := htyped
  rw [assign, bind_of_ok (joined_ok hfile), bind_of_ok (asked_ok _ _)]
  simp only [hvirt, Bool.not_true, Bool.false_eq_true, if_false]
  rw [bind_of_ok (asked_ok _ _)]
  simp only [hreal, Bool.not_true, Bool.false_eq_true, if_false]
  rw [bind_of_ok (asked_ok _ _), bind_of_ok (asked_ok _ _), if_neg (not_not_intro hcls),
    bind_of_ok (assignedAt_eq hremembers _)]
  simp only [LineReading.settle]
  cases state.listing.assignments.find? fun assignment => assignment.virt = .reg virt with
  | none => simp [addAssignment, ParserState.add]
  | some earlier => simp [report, ParserState.add, Listing.empty]

end PositionParser

/-- An assignment without a fault is added unless its register is remembered, and this is when
settling finds an earlier one. -/
theorem agrees_assignment (hline : Encloses input context stop) {first : Token}
    {rest : List Token} {state : ParserState}
    (hremembers : state.Remembers)
    (hstands : Stands input False stop ⟨first.span, first :: rest⟩ state.position) :
    Agrees input False stop state (settledItem state.listing.assignments first)
      (PositionParser.assignment input state)
      (LineReader.assignment context ⟨first.span, first :: rest⟩) (fun _ _ => True) := by
  refine Agrees.bind (settledItem_append _ _) (simulates_register hline False _ state hstands) ?_
  rintro _ ⟨virt, virtSpan⟩ afterVirt _ _ ⟨rfl, hvirtFile⟩ hvirt hafterVirt
  refine Agrees.bind (settledItem_append _ _)
    (simulates_expect hline (by decide) False _ _ hafterVirt) ?_
  rintro _ arrow afterArrow _ _ - - hafterArrow
  refine Agrees.bind (settledItem_append _ _)
    (simulates_register hline False _ _ hafterArrow) ?_
  rintro _ ⟨real, realSpan⟩ afterReal position diagnostics ⟨rfl, hrealFile⟩ hreal hafterReal
  -- The two registers stand at the first token of the line and at the last one taken.
  obtain ⟨token, -, rfl, htakesVirt⟩ := LineReader.takes_of_value_register hvirt
  obtain ⟨rfl, -⟩ := List.cons.inj (Cursor.rest_eq_of_takes htakesVirt)
  obtain ⟨_, -, rfl, htakesReal⟩ := LineReader.takes_of_value_register hreal
  have hlast := Cursor.last_eq_of_takes htakesReal
  rw [lastSpan, lastSpan] at hlast
  rw [← hlast] at hrealFile ⊢
  have hfile : first.span.file = afterReal.last.file := hvirtFile.trans hrealFile.symm
  cases hfault : LineReader.assignmentFault? virt real first.span afterReal.last with
  | some diagnostic =>
    simp only [hfault]
    exact ⟨(), position, PositionParser.assign_of_fault hfile hfault, trivial, hafterReal⟩
  | none =>
    simp only [hfault]
    refine ⟨(), position, PositionParser.assign_of_sound hfile ?_ ?_ hfault, trivial, hafterReal⟩
    · exact ((hremembers.add _ _).add _ _).add _ _
    · simp only [ParserState.listing_told]

theorem agrees_item (hline : Encloses input context stop) {first : Token} {rest : List Token}
    {state : ParserState} (hremembers : state.Remembers)
    (hstands : Stands input False stop ⟨first.span, first :: rest⟩ state.position) :
    Agrees input False stop state (settledItem state.listing.assignments first)
      (PositionParser.item input state)
      (LineReader.item first context ⟨first.span, first :: rest⟩) (fun _ _ => True) := by
  rw [PositionParser.item, PositionParser.peek_bind hstands.getElem?_eq]
  rw [LineReader.item]
  cases hkind : first.kind
  case register =>
    simp only [hkind]
    exact agrees_assignment hline hremembers hstands
  case name =>
    simp only [hkind]
    exact agrees_instruction hline hstands hkind
  all_goals
    simp only [hkind]
    refine ⟨state.position, ?_⟩
    rw [ParserState.told_eq]
    rfl

end Readers

end RegisterMapping
