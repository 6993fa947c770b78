import RegisterMapping.Proofs.Listing.Displacement
import RegisterMapping.Proofs.Listing.RoundTrip
import RegisterMapping.Proofs.Listing.SyntaxFaults

/-!
# Where diagnostics point

Every diagnostic has one primary label, and every label points into the text: its span has an end
between two characters on either side. It covers some characters of one line, or a newline token, or
nothing if it is at the end of the file (`Listing.diagnostics_point_into_source`).

A span that a reader reports is that of a token of its line, or the least one that holds two such
spans. So whatever holds of the tokens of a line and goes from two spans to the least one that holds
both holds of what is reported about the line, except where it is that the line ends too early
(`LineReader.Points`). For a line of a text this is to be within the stretch of the line
(`Listing.exists_stretch`).
-/

set_option autoImplicit false

namespace RegisterMapping

/-! ## What readers point to -/

/-- Where a diagnostic about a line stands. It is about a token that is there and stands inside, or
about one that is missing at the end of the line. -/
inductive Diagnostic.PointsInto (inside : Span → Prop) (terminator : Terminator) :
    Diagnostic → Prop
  | here {fault : Fault} {span : Span} :
      fault.isPlain = true → inside span → PointsInto inside terminator ⟨fault, span⟩
  | ending (what : TokenKind) :
      PointsInto inside terminator ⟨.expected what terminator.kind, terminator.span⟩

/-- The place in the line, and the tokens that are left, stand inside. -/
structure Cursor.Inside (inside : Span → Prop) (cursor : Cursor) : Prop where
  last : inside cursor.last
  rest : ∀ token ∈ cursor.rest, inside token.span

namespace LineReader

variable {α β : Type} {inside : Span → Prop} {placed : α → Prop}

/-- Where tokens stand inside, the diagnostics of the reader do so too, and so does what it
gives. -/
def Points (inside : Span → Prop) (reader : LineReader α) (placed : α → Prop) : Prop :=
  ∀ context start, start.Inside inside →
    (∀ diagnostic ∈ (reader context start).diagnostics,
      diagnostic.PointsInto inside context.terminator) ∧
    ∀ a stop, (reader context start).value = some (a, stop) → placed a ∧ stop.Inside inside

theorem points_pure {a : α} (h : placed a) : Points inside (pure a) placed := by
  intro context start hstart
  refine ⟨List.forall_mem_nil _, fun b stop hvalue => ?_⟩
  obtain ⟨rfl, rfl⟩ := value_pure_eq_some_iff.1 hvalue
  exact ⟨h, hstart⟩

/-- A sequence points inside if both parts do, where the second part is given something that stands
inside. -/
theorem Points.bind {later : β → Prop} {reader : LineReader α} {next : α → LineReader β}
    (h : Points inside reader placed) (hnext : ∀ a, placed a → Points inside (next a) later) :
    Points inside (reader >>= next) later := by
  intro context start hstart
  obtain ⟨hdiagnostics, hvalue⟩ := h context start hstart
  show (∀ diagnostic ∈ (LineReader.bind reader next context start).diagnostics, _) ∧
    ∀ b stop, (LineReader.bind reader next context start).value = some (b, stop) → _
  unfold LineReader.bind
  generalize reader context start = first at hdiagnostics hvalue ⊢
  obtain ⟨diagnostics, value⟩ := first
  cases value with
  | none => exact ⟨hdiagnostics, fun _ _ hnone => by cases hnone⟩
  | some result =>
    obtain ⟨a, middle⟩ := result
    obtain ⟨ha, hmiddle⟩ := hvalue a middle rfl
    obtain ⟨hothers, hsecond⟩ := hnext a ha context middle hmiddle
    exact ⟨List.forall_mem_append.2 ⟨hdiagnostics, hothers⟩, hsecond⟩

/-- A report is about the place that it is given. -/
theorem points_report {fault : Fault} {span : Span} (hplain : fault.isPlain = true)
    (hspan : inside span) : Points inside (report fault span) fun _ => True := by
  intro context start hstart
  refine ⟨List.forall_mem_singleton.2 (.here hplain hspan), fun _ stop hvalue => ?_⟩
  obtain ⟨-, rfl⟩ := Prod.mk.inj (Option.some.inj hvalue)
  exact ⟨trivial, hstart⟩

theorem points_fail {fault : Fault} {span : Span} (hplain : fault.isPlain = true)
    (hspan : inside span) : Points inside (fail fault span : LineReader α) placed :=
  fun _ _ _ => ⟨List.forall_mem_singleton.2 (.here hplain hspan), fun _ _ hnone => by cases hnone⟩

theorem Points.check {condition : Prop} [Decidable condition] {fault : Fault} {span : Span}
    {next : LineReader α} (h : Points inside next placed) (hplain : fault.isPlain = true)
    (hspan : inside span) :
    Points inside (if condition then (do report fault span; next) else next) placed := by
  split
  · exact (points_report hplain hspan).bind fun _ _ => h
  · exact h

/-! ### Tokens -/

/-- A token that is taken stands inside; one that is missing is reported at the end of the line. -/
theorem points_take (kind : TokenKind) :
    Points inside (take kind) fun token => inside token.span := by
  rintro context ⟨last, rest⟩ hstart
  cases rest with
  | nil => exact ⟨List.forall_mem_singleton.2 (.ending kind), fun _ _ hnone => by cases hnone⟩
  | cons token rest =>
    obtain ⟨htoken, hrest⟩ := List.forall_mem_cons.1 hstart.rest
    by_cases hkind : token.kind = kind
    · rw [take_cons_of_kind hkind]
      refine ⟨List.forall_mem_nil _, fun _ _ hvalue => ?_⟩
      obtain ⟨rfl, rfl⟩ := Prod.mk.inj (Option.some.inj hvalue)
      exact ⟨htoken, htoken, hrest⟩
    · simp only [take, if_neg hkind]
      exact ⟨List.forall_mem_singleton.2 (.here rfl htoken), fun _ _ hnone => by cases hnone⟩

/-- An optional token leaves nothing to report. -/
theorem points_takeIf (kind : TokenKind) : Points inside (takeIf kind) fun _ => True := by
  intro context start hstart
  by_cases hlacks : start.Lacks kind
  · rw [takeIf_of_lacks hlacks]
    refine ⟨List.forall_mem_nil _, fun _ _ hvalue => ?_⟩
    obtain ⟨-, rfl⟩ := Prod.mk.inj (Option.some.inj hvalue)
    exact ⟨trivial, hstart⟩
  · obtain ⟨token, rest, heq, hkind⟩ := exists_of_not_lacks hlacks
    rw [heq] at hstart
    rw [heq, takeIf_cons_of_kind hkind]
    obtain ⟨htoken, hrest⟩ := List.forall_mem_cons.1 hstart.rest
    refine ⟨List.forall_mem_nil _, fun _ _ hvalue => ?_⟩
    obtain ⟨-, rfl⟩ := Prod.mk.inj (Option.some.inj hvalue)
    exact ⟨trivial, htoken, hrest⟩

/-- A register that the bank lacks is reported where it was written. -/
theorem points_checkBank (r : Register) {span : Span} (hspan : inside span) :
    Points inside (checkBank r span) fun _ => True := by
  rintro ⟨bank?, terminator⟩ start hstart
  refine ⟨?_, fun _ stop hvalue => ?_⟩
  · cases bank? with
    | none => exact List.forall_mem_nil _
    | some bank =>
      rw [checkBank_eq]
      split
      · exact List.forall_mem_singleton.2 (.here rfl hspan)
      · exact List.forall_mem_nil _
  · rw [value_checkBank] at hvalue
    obtain ⟨-, rfl⟩ := Prod.mk.inj (Option.some.inj hvalue)
    exact ⟨trivial, hstart⟩

/-! ### Operands -/

/-- A register is given with the span of its token, which stands inside. -/
theorem points_register : Points inside register fun read => inside read.2 := by
  apply (points_take _).bind
  intro token htoken
  split
  · apply (points_checkBank _ htoken).bind
    intro checked _
    exact points_pure htoken
  · exact points_fail rfl htoken

theorem points_integerRegister : Points inside integerRegister fun _ => True := by
  apply points_register.bind
  intro read hread
  exact (points_pure trivial).check rfl hread

theorem points_number (negative : Bool) : Points inside (number negative) fun _ => True := by
  apply (points_take _).bind
  intro token htoken
  split
  · exact points_pure trivial
  · exact points_fail rfl htoken

theorem points_signedNumber : Points inside signedNumber fun _ => True :=
  (points_takeIf _).bind fun negative _ => points_number negative

theorem points_offset : Points inside offset fun _ => True := by
  apply (points_takeIf _).bind
  intro plus _
  split
  · exact points_number false
  · apply (points_takeIf _).bind
    intro minus _
    split
    · exact points_number true
    · exact points_pure trivial

theorem points_address : Points inside address fun _ => True := by
  apply (points_take _).bind
  intro left _
  apply points_integerRegister.bind
  intro base _
  apply points_offset.bind
  intro word _
  apply (points_take _).bind
  intro right _
  exact points_pure trivial

section Items

variable (hcover : ∀ a b, inside a → inside b → inside (a.cover b))
include hcover

/-- Registers of different classes are reported with the least span that holds both. -/
theorem points_pair : Points inside pair fun _ => True := by
  apply points_register.bind
  intro left hleft
  apply (points_take _).bind
  intro comma _
  apply points_register.bind
  intro right hright
  exact (points_pure trivial).check rfl (hcover _ _ hleft hright)

/-! ### Items -/

/-- Operands are reported one by one, except for the two that are read as a pair. -/
theorem points_operands (mnemonic : Mnemonic) :
    Points inside (operands mnemonic) fun _ => True := by
  cases mnemonic with
  | li =>
    apply points_integerRegister.bind
    intro dst _
    apply (points_take _).bind
    intro comma _
    apply points_signedNumber.bind
    intro imm _
    exact points_pure trivial
  | mov | alu | cmp =>
    apply (points_pair hcover).bind
    intro registers _
    exact points_pure trivial
  | neg | ret =>
    apply points_register.bind
    intro read _
    exact points_pure trivial
  | ld | st =>
    apply points_register.bind
    intro read _
    apply (points_take _).bind
    intro comma _
    apply points_address.bind
    intro target _
    exact points_pure trivial
  | fma =>
    apply points_register.bind
    intro dst hdst
    apply (points_take _).bind
    intro comma _
    apply (points_pair hcover).bind
    intro factors _
    exact (points_pure trivial).check rfl hdst

theorem points_instruction : Points inside instruction fun _ => True := by
  apply (points_take _).bind
  intro token htoken
  split
  · exact points_operands hcover _
  · exact points_fail rfl htoken

/-- The fault of an assignment is about one of its registers, or about both. -/
theorem points_assignment : Points inside assignment fun _ => True := by
  apply points_register.bind
  rintro ⟨virt, virtSpan⟩ hvirt
  apply (points_take _).bind
  intro arrow _
  apply points_register.bind
  rintro ⟨real, realSpan⟩ hreal
  have hfault : ∀ diagnostic ∈ assignmentFault? virt real virtSpan realSpan,
      diagnostic.fault.isPlain = true ∧ inside diagnostic.span := by
    intro diagnostic hmem
    rcases assignmentFault?_cases hmem with rfl | rfl | rfl
    · exact ⟨rfl, hvirt⟩
    · exact ⟨rfl, hreal⟩
    · exact ⟨rfl, hcover _ _ hvirt hreal⟩
  cases hsome : assignmentFault? virt real virtSpan realSpan with
  | none =>
    simp only [hsome]
    exact points_pure trivial
  | some diagnostic =>
    simp only [hsome]
    obtain ⟨hplain, hspan⟩ := hfault diagnostic hsome
    apply (points_report hplain hspan).bind
    intro reported _
    exact points_pure trivial

/-- A first token that starts no item is reported by itself. -/
theorem points_item {first : Token} (hfirst : inside first.span) :
    Points inside (item first) fun _ => True := by
  rw [item]
  split
  · exact points_assignment hcover
  · apply (points_instruction hcover).bind
    intro inst _
    exact points_pure trivial
  · exact points_fail rfl hfirst

end Items

end LineReader

/-! ## Lines -/

namespace Line

variable {inside : Span → Prop} {line : Line}

/-- What is left over is reported from its first token to its last. -/
theorem pointsInto_trailing (hcover : ∀ a b, inside a → inside b → inside (a.cover b))
    {terminator : Terminator} {tokens : List Token} (h : ∀ token ∈ tokens, inside token.span) :
    ∀ diagnostic ∈ trailing tokens, diagnostic.PointsInto inside terminator := by
  cases tokens with
  | nil => exact List.forall_mem_nil _
  | cons first rest =>
    have hlast := h _ (List.getLast_mem (List.cons_ne_nil first rest))
    exact List.forall_mem_singleton.2 (.here rfl (hcover _ _ (h first List.mem_cons_self) hlast))

/-- What is said about a line stands where its tokens do, and so does its item. -/
theorem points_read (hcover : ∀ a b, inside a → inside b → inside (a.cover b))
    (h : ∀ token ∈ line.tokens, inside token.span) (bank? : Option Bank) :
    (∀ diagnostic ∈ (line.read bank?).diagnostics ++ (line.read bank?).trailing,
      diagnostic.PointsInto inside line.terminator) ∧
    ∀ item span, (line.read bank?).item? = some (item, span) → inside span := by
  by_cases hvalid : line.invalidTokens = []
  · obtain ⟨tokens, terminator⟩ := line
    cases tokens with
    | nil =>
      rw [read_of_tokens_eq_nil rfl]
      exact ⟨List.forall_mem_nil _, fun _ _ hnone => by cases hnone⟩
    | cons first rest =>
      have hfirst := h first List.mem_cons_self
      obtain ⟨hdiagnostics, hvalue⟩ := LineReader.points_item hcover hfirst
        ⟨bank?, terminator⟩ ⟨first.span, first :: rest⟩ ⟨hfirst, h⟩
      simp only [read, hvalid]
      generalize LineReader.item first ⟨bank?, terminator⟩ ⟨first.span, first :: rest⟩ = reading
        at hdiagnostics hvalue ⊢
      obtain ⟨diagnostics, value⟩ := reading
      cases value with
      | none =>
        refine ⟨?_, fun _ _ hnone => by cases hnone⟩
        rwa [List.append_nil]
      | some result =>
        obtain ⟨item?, stop⟩ := result
        obtain ⟨-, hlast, hrest⟩ := hvalue item? stop rfl
        refine ⟨List.forall_mem_append.2 ⟨hdiagnostics, pointsInto_trailing hcover hrest⟩, ?_⟩
        intro item span hitem
        obtain ⟨_, -, heq⟩ := Option.map_eq_some_iff.1 hitem
        obtain ⟨-, rfl⟩ := Prod.mk.inj heq
        exact hcover _ _ hfirst hlast
  -- Each invalid token is reported by itself.
  · rw [read_of_invalidTokens hvalid]
    refine ⟨?_, fun _ _ hnone => by cases hnone⟩
    rw [List.append_nil]
    intro diagnostic hmem
    obtain ⟨token, htoken, rfl⟩ := List.mem_map.1 hmem
    exact .here rfl (h token (List.mem_of_mem_filter htoken))

end Line

/-- An assignment that is added to a listing is the item of its line. -/
theorem LineReading.item?_of_mem_settle {earlier : List Assignment} {reading : LineReading}
    {assignment : Assignment} (h : assignment ∈ (reading.settle earlier).listing.assignments) :
    ∃ virt real, reading.item? = some (.assignment virt real, assignment.span) := by
  obtain ⟨diagnostics, item?, trailing⟩ := reading
  cases item? with
  | none => cases h
  | some placed =>
    obtain ⟨item, span⟩ := placed
    cases item with
    | instr inst => cases h
    | assignment virt real =>
      rw [settle] at h
      dsimp only at h
      split at h
      · cases h
      · obtain rfl := List.mem_singleton.1 h
        exact ⟨virt, real, rfl⟩

/-! ## Places in a text -/

/-- The span of some characters of a source text holds them. -/
theorem Span.holds_ofList {source : String} {before covered after : List Char}
    (h : source.toList = before ++ covered ++ after) (file : Nat) :
    (⟨file, byteLength before, byteLength before + byteLength covered⟩ : Span).Holds source
      (String.ofList covered) := by
  have hlength (text : List Char) : byteLength text = (String.ofList text).utf8ByteSize := by
    rw [← byteLength_toList, String.toList_ofList]
  refine ⟨String.ofList before, String.ofList after, ?_, hlength before, ?_⟩
  · rw [← String.ofList_append, ← String.ofList_append, ← h, String.ofList_toList]
  · show byteLength before + byteLength covered = byteLength before + _
    rw [hlength covered]

/-- The span covers some characters of one line of the source. -/
def Span.InLine (file : Nat) (source : String) (span : Span) : Prop :=
  span.file = file ∧ ∃ text, span.Holds source text ∧ text ≠ "" ∧ '\n' ∉ text.toList

/-- A span within a stretch of the text that holds no line feed covers some characters of one line.
-/
theorem Span.Within.inLine {file : Nat} {source : String} {front body back : List Char}
    {span : Span} (h : span.Within file (byteLength front) body)
    (hsource : source.toList = front ++ body ++ back) (hkeeps : '\n' ∉ body) :
    span.InLine file source := by
  obtain ⟨before, covered, after, rfl, hne, rfl⟩ := h.exists_text
  refine ⟨rfl, String.ofList covered, ?_, ?_, ?_⟩
  · have hplace : source.toList = (front ++ before) ++ covered ++ (after ++ back) := by
      simp [hsource]
    rw [← byteLength_append]
    exact Span.holds_ofList hplace file
  · intro hempty
    exact hne (by simpa using congrArg String.toList hempty)
  · rw [String.toList_ofList]
    exact fun hmem => hkeeps (by simp [hmem])

/-- A token of a text stands where it is cut from. -/
theorem Tiled.exists_place {file offset : Nat} {text : List Char} {tokens : List Token}
    (h : Tiled file offset text tokens) {token : Token} (hmem : token ∈ tokens) :
    ∃ before after, text = before ++ token.text ++ after ∧
      token.Fills file (offset + byteLength before) := by
  induction h with
  | rest _ => cases hmem
  | @token offset gap later first tokens _ hfills _ ih =>
    rcases List.mem_cons.1 hmem with rfl | hmem
    · exact ⟨gap, later, rfl, hfills⟩
    · obtain ⟨before, after, rfl, hplace⟩ := ih hmem
      refine ⟨gap ++ first.text ++ before, after, by simp, ?_⟩
      rwa [byteLength_append, ← Nat.add_assoc]

/-- Where a diagnostic of a source text stands: in a line, for a second assignment together with
the first one, at a newline, or at the end of the file. -/
inductive Diagnostic.Placed (file : Nat) (source : String) : Diagnostic → Prop
  | inLine {fault : Fault} {span : Span} :
      fault.isPlain = true → span.InLine file source → Placed file source ⟨fault, span⟩
  | twice {virt : Register} {first span : Span} :
      first.InLine file source → span.InLine file source →
      Placed file source ⟨.assignedTwice virt first, span⟩
  | newline {what : TokenKind} {token : Token} :
      token ∈ Token.scan file 0 source.toList → token.kind = .newline →
      Placed file source ⟨.expected what (some .newline), token.span⟩
  | ending {what : TokenKind} : Placed file source ⟨.expected what none,
      ⟨file, byteLength source.toList, byteLength source.toList⟩⟩

/-- What is said when a line is read stands in the text, and so does its item. -/
structure LineReading.Placed (file : Nat) (source : String) (reading : LineReading) : Prop where
  diagnostics : ∀ diagnostic ∈ reading.diagnostics ++ reading.trailing,
    diagnostic.Placed file source
  item : ∀ item span, reading.item? = some (item, span) → span.InLine file source

section Settling

variable {file : Nat} {source : String}

/-- What is said of a line is said of characters in it, of the newline behind it, or of the end of
the file. -/
theorem Listing.placed_read (bank? : Option Bank) {line : Line}
    (h : line ∈ linesOf file source.toList) : (line.read bank?).Placed file source := by
  obtain ⟨front, body, back, hsource, hkeeps, hwithin⟩ := exists_stretch h
  obtain ⟨hdiagnostics, hitem⟩ := line.points_read (fun _ _ => Span.Within.cover) hwithin bank?
  refine ⟨fun diagnostic hmem => ?_, fun item span heq => ?_⟩
  · cases hdiagnostics diagnostic hmem with
    | here hplain hspan => exact .inLine hplain (hspan.inLine hsource hkeeps)
    | ending what =>
      rcases Line.terminator_cases h with hend | ⟨token, htoken, hkind, hend⟩
      · rw [hend]
        exact .ending
      · rw [hend]
        exact .newline htoken hkind
  · exact (hitem item span heq).inLine hsource hkeeps

/-- Settling a line adds one diagnostic at most, about its own item and an earlier one. -/
theorem LineReading.Placed.settle {earlier : List Assignment} {reading : LineReading}
    (h : reading.Placed file source)
    (hearlier : ∀ assignment ∈ earlier, assignment.span.InLine file source) :
    ∀ diagnostic ∈ (reading.settle earlier).diagnostics, diagnostic.Placed file source := by
  obtain ⟨twice, hdiagnostics, htwice⟩ := reading.diagnostics_settle earlier
  obtain ⟨hread, htrailing⟩ := List.forall_mem_append.1 h.diagnostics
  rw [hdiagnostics]
  refine List.forall_mem_append.2 ⟨List.forall_mem_append.2 ⟨hread, ?_⟩, htrailing⟩
  intro diagnostic hmem
  obtain ⟨virt, real, span, first, hfirst, hitem, rfl⟩ := htwice diagnostic hmem
  exact .twice (hearlier first hfirst) (h.item _ _ hitem)

/-- By induction over the lines: the assignments of the earlier ones stand in the text. -/
theorem placed_settleLines {readings : List LineReading}
    (h : ∀ reading ∈ readings, reading.Placed file source) {earlier : List Assignment}
    (hearlier : ∀ assignment ∈ earlier, assignment.span.InLine file source) :
    ∀ part ∈ settleLines earlier readings, ∀ diagnostic ∈ part.diagnostics,
      diagnostic.Placed file source := by
  induction readings generalizing earlier with
  | nil => exact List.forall_mem_nil _
  | cons reading readings ih =>
    obtain ⟨hreading, hreadings⟩ := List.forall_mem_cons.1 h
    refine List.forall_mem_cons.2 ⟨hreading.settle hearlier, ih hreadings ?_⟩
    refine List.forall_mem_append.2 ⟨hearlier, fun assignment hmem => ?_⟩
    obtain ⟨virt, real, hitem⟩ := LineReading.item?_of_mem_settle hmem
    exact hreading.item _ _ hitem

/-- Every diagnostic of a source text is placed in it. -/
theorem Listing.placed_parse (source : String) (file : Nat) (bank? : Option Bank) :
    ∀ diagnostic ∈ (parse source file bank?).diagnostics, diagnostic.Placed file source := by
  rw [parse, ParsedListing.join_eq_flatMap]
  intro diagnostic hmem
  obtain ⟨part, hpart, hmem⟩ := List.mem_flatMap.1 hmem
  refine placed_settleLines ?_ (List.forall_mem_nil _) part hpart diagnostic hmem
  intro reading hreading
  obtain ⟨line, hline, rfl⟩ := List.mem_map.1 hreading
  exact placed_read bank? hline

end Settling

/-! ## Labels -/

/-- The span points into the source text: it covers the text between two places of it. The text is
empty only if `ending` holds, and then this is at the end of the file. A line feed is only in it if
it is a newline token. -/
def Span.PointsInto (file : Nat) (source : String) (ending : Prop) (span : Span) : Prop :=
  span.file = file ∧ ∃ text, span.Holds source text ∧
    (text = "" ↔ ending) ∧ (ending → span.start = source.utf8ByteSize) ∧
    ('\n' ∈ text.toList → ∃ token ∈ Token.scan file 0 source.toList,
      token.kind = .newline ∧ token.text = text.toList ∧ token.span = span)

/-- Characters of one line are not empty and hold no line feed. -/
theorem Span.InLine.pointsInto {file : Nat} {source : String} {span : Span} {ending : Prop}
    (h : span.InLine file source) (hending : ¬ ending) : span.PointsInto file source ending := by
  obtain ⟨hfile, text, hholds, hne, hkeeps⟩ := h
  exact ⟨hfile, text, hholds, iff_of_false hne hending, fun h => absurd h hending,
    fun hmem => absurd hmem hkeeps⟩

/-- A newline token stands in the text and is not empty. -/
theorem Token.pointsInto_newline {file : Nat} {source : String} {token : Token} {ending : Prop}
    (h : token ∈ scan file 0 source.toList) (hkind : token.kind = .newline) (hending : ¬ ending) :
    token.span.PointsInto file source ending := by
  obtain ⟨before, after, hsource, hfills⟩ := (tiled_scan file 0 source.toList).exists_place h
  have hspan := hfills.span_eq
  rw [Nat.zero_add] at hspan
  refine ⟨by rw [hspan], String.ofList token.text, ?_, iff_of_false (fun hempty => ?_) hending,
    fun h => absurd h hending, fun _ => ⟨token, h, hkind, (String.toList_ofList).symm, rfl⟩⟩
  · rw [hspan]
    exact Span.holds_ofList hsource file
  · exact hfills.text_ne_nil (by simpa using congrArg String.toList hempty)

/-- A label of its own is all that a diagnostic has, unless it is about a second assignment. -/
theorem Diagnostic.labels_eq_singleton {fault : Fault} (span : Span)
    (h : ∀ virt first, fault ≠ .assignedTwice virt first) :
    labels ⟨fault, span⟩ = [⟨true, span, fault.labelText⟩] := by
  cases fault with
  | assignedTwice virt first => exact absurd rfl (h virt first)
  | _ => rfl

/-- Every diagnostic has one primary label, and all its labels point into the source text. Only a
token that is missing at the end of the file has an empty label. -/
theorem Listing.diagnostics_point_into_source (source : String) (file : Nat)
    (bank? : Option Bank) :
    ∀ diagnostic ∈ (parse source file bank?).diagnostics,
      (diagnostic.labels.filter Label.primary).length = 1 ∧
        ∀ label ∈ diagnostic.labels,
          label.span.PointsInto file source (∃ what, diagnostic.fault = .expected what none) := by
  intro diagnostic hmem
  cases placed_parse source file bank? diagnostic hmem with
  | @inLine fault span hplain hspan =>
    rw [Diagnostic.labels_eq_singleton _ (by rintro _ _ rfl; cases hplain)]
    have hending : ¬ ∃ what, fault = .expected what none := by
      rintro ⟨_, rfl⟩
      cases hplain
    exact ⟨rfl, List.forall_mem_singleton.2 (hspan.pointsInto hending)⟩
  | @twice virt first span hfirst hspan =>
    have hending : ¬ ∃ what, Fault.assignedTwice virt first = .expected what none := by
      rintro ⟨_, heq⟩
      cases heq
    exact ⟨rfl, List.forall_mem_cons.2 ⟨hspan.pointsInto hending,
      List.forall_mem_singleton.2 (hfirst.pointsInto hending)⟩⟩
  | @newline missing token htoken hkind =>
    rw [Diagnostic.labels_eq_singleton _ (by rintro _ _ heq; cases heq)]
    have hending : ¬ ∃ what, Fault.expected missing (some .newline) = .expected what none := by
      rintro ⟨_, heq⟩
      cases heq
    exact ⟨rfl, List.forall_mem_singleton.2 (Token.pointsInto_newline htoken hkind hending)⟩
  | @ending what =>
    rw [Diagnostic.labels_eq_singleton _ (by rintro _ _ heq; cases heq)]
    refine ⟨rfl, List.forall_mem_singleton.2 ⟨rfl, "", ⟨source, "", by simp, ?_, rfl⟩,
      iff_of_true rfl ⟨what, rfl⟩, fun _ => ?_, fun hmem => by simp at hmem⟩⟩
    · exact byteLength_toList source
    · exact byteLength_toList source

/-- Behind a character of two bytes, a second assignment points to itself and to the first one. -/
theorem Listing.diagnostics_point_into_source_sample :
    let source := "# é\n%vR0 -> %R1\n%vR0 -> %R2"
    let twice : Diagnostic :=
      ⟨.assignedTwice ⟨.int64, true, 0, by decide⟩ ⟨0, 5, 16⟩, ⟨0, 17, 28⟩⟩
    twice ∈ (parse source 0 none).diagnostics ∧
      (twice.labels.filter Label.primary).length = 1 ∧
      ∀ label ∈ twice.labels,
        label.span.PointsInto 0 source (∃ what, twice.fault = .expected what none) := by
  intro source twice
  have hmem : twice ∈ (parse source 0 none).diagnostics := by decide +kernel
  exact ⟨hmem, diagnostics_point_into_source source 0 none twice hmem⟩

end RegisterMapping
