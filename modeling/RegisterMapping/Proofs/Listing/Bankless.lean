import RegisterMapping.Proofs.Listing.Parts

/-!
# A bank only adds diagnostics

A bank is asked once for each register, and all that may come of it is one more diagnostic. Without
a bank a listing is therefore parsed as it is under any bank, less what is said about the bank
(`Listing.parse_besidesBank`). For readers this is `LineReader.Indifferent`: it goes through
sequencing, so that a reader is indifferent if its parts are, and only `LineReader.checkBank`, which
asks for the bank, needs an argument of its own.
-/

set_option autoImplicit false

namespace RegisterMapping

/-! ## Less what is said about the bank -/

/-- The diagnostics that are not about the bank. -/
def besidesBank (diagnostics : List Diagnostic) : List Diagnostic :=
  diagnostics.filter fun diagnostic => diagnostic.code ≠ "EB00"

/-- What was read, less what is said about the bank. -/
def Reading.besidesBank {α : Type} (reading : Reading α) : Reading α :=
  ⟨RegisterMapping.besidesBank reading.diagnostics, reading.value⟩

/-- What was read from a line, less what is said about the bank. -/
def LineReading.besidesBank (reading : LineReading) : LineReading :=
  ⟨RegisterMapping.besidesBank reading.diagnostics, reading.item?,
    RegisterMapping.besidesBank reading.trailing⟩

/-- What was parsed, less what is said about the bank. -/
def ParsedListing.besidesBank (parsed : ParsedListing) : ParsedListing :=
  ⟨parsed.listing, RegisterMapping.besidesBank parsed.diagnostics⟩

@[simp]
theorem besidesBank_append (a b : List Diagnostic) :
    besidesBank (a ++ b) = besidesBank a ++ besidesBank b :=
  List.filter_append a b

theorem besidesBank_cons_of_code {diagnostic : Diagnostic} {later : List Diagnostic}
    (h : diagnostic.code ≠ "EB00") :
    besidesBank (diagnostic :: later) = diagnostic :: besidesBank later :=
  List.filter_cons_of_pos (decide_eq_true h)

theorem besidesBank_eq_self {diagnostics : List Diagnostic}
    (h : ∀ diagnostic ∈ diagnostics, diagnostic.code ≠ "EB00") :
    besidesBank diagnostics = diagnostics :=
  List.filter_eq_self.2 fun diagnostic hmem => decide_eq_true (h diagnostic hmem)

/-! ## Readers -/

namespace LineReader

variable {α β : Type}

/-- Without a bank the reader does what it does under any bank, less what it says about the bank. -/
def Indifferent (reader : LineReader α) : Prop :=
  ∀ bank terminator start,
    reader ⟨none, terminator⟩ start = (reader ⟨some bank, terminator⟩ start).besidesBank

theorem indifferent_pure (a : α) : Indifferent (pure a) := fun _ _ _ => rfl

/-- Two parts that do not depend on the bank, apart from what they say of it, make such a sequence.
-/
theorem Indifferent.bind {reader : LineReader α} {next : α → LineReader β}
    (h : Indifferent reader) (hnext : ∀ a, Indifferent (next a)) :
    Indifferent (reader >>= next) := by
  intro bank terminator start
  have hfirst := h bank terminator start
  show LineReader.bind reader next _ _ = (LineReader.bind reader next _ _).besidesBank
  rw [LineReader.bind, LineReader.bind, hfirst]
  -- Both give up after the first part, or both go on from the same place with the same value.
  cases hvalue : (reader ⟨some bank, terminator⟩ start).value with
  | none => simp only [Reading.besidesBank, hvalue]
  | some pair =>
    obtain ⟨a, place⟩ := pair
    have hsecond := hnext a bank terminator place
    simp only [Reading.besidesBank, hvalue, besidesBank_append] at hsecond ⊢
    rw [hsecond]

theorem indifferent_report {fault : Fault} (span : Span) (h : fault.code ≠ "EB00") :
    Indifferent (report fault span) := by
  intro bank terminator start
  simp only [report, Reading.besidesBank]
  rw [besidesBank_eq_self (by simpa [Diagnostic.code] using h)]

theorem indifferent_fail {fault : Fault} (span : Span) (h : fault.code ≠ "EB00") :
    Indifferent (fail fault span : LineReader α) := by
  intro bank terminator start
  simp only [fail, Reading.besidesBank]
  rw [besidesBank_eq_self (by simpa [Diagnostic.code] using h)]

/-- No token is asked of the bank when it is taken. -/
theorem indifferent_take (kind : TokenKind) : Indifferent (take kind) := by
  intro bank terminator start
  rw [take, take]
  split
  · split
    · rfl
    · rfl
  · rfl

theorem indifferent_takeIf (kind : TokenKind) : Indifferent (takeIf kind) := by
  intro bank terminator start
  rw [takeIf, takeIf]
  split
  · split
    · rfl
    · rfl
  · rfl

/-- What is said about a register under a bank is about the bank, and without a bank nothing is. -/
theorem indifferent_checkBank (r : Register) (span : Span) : Indifferent (checkBank r span) := by
  intro bank terminator start
  rw [checkBank_eq, Reading.besidesBank]
  split
  · rfl
  · rfl

/-- Every reader is indifferent to the bank. -/
theorem Built.indifferent {asks : Prop} {reader : LineReader α} (h : Built asks reader) :
    Indifferent reader := by
  induction h with
  | pure a => exact indifferent_pure a
  | bind _ _ hreader hnext => exact hreader.bind hnext
  | report span hfault => exact indifferent_report span hfault
  | fail span hfault => exact indifferent_fail span hfault
  | take kind => exact indifferent_take kind
  | takeIf kind => exact indifferent_takeIf kind
  | checkBank r span _ => exact indifferent_checkBank r span

end LineReader

/-! ## Lines and listings -/

namespace Line

theorem besidesBank_trailing (tokens : List Token) :
    besidesBank (trailing tokens) = trailing tokens := by
  cases tokens with
  | nil => rfl
  | cons token rest => rfl

/-- Without a bank a line is read as under any bank, less what is said about the bank. -/
theorem read_besidesBank (bank : Bank) (line : Line) :
    line.read none = (line.read (some bank)).besidesBank := by
  rw [read, read]
  split
  · split
    · rfl
    · next first rest htokens =>
      have hitem := (LineReader.built_item trivial first).indifferent bank line.terminator
        ⟨first.span, first :: rest⟩
      simp only [hitem, Reading.besidesBank]
      split
      · rfl
      · rw [LineReading.besidesBank, besidesBank_trailing]
  · rw [LineReading.besidesBank, besidesBank_eq_self]
    · rfl
    · simp [Diagnostic.code, Fault.code]

end Line

/-- That a register is assigned twice is not about the bank, and all else stays as it was read. -/
theorem LineReading.settle_besidesBank (earlier : List Assignment) (reading : LineReading) :
    reading.besidesBank.settle earlier = (reading.settle earlier).besidesBank := by
  obtain ⟨diagnostics, item?, trailing⟩ := reading
  cases item? with
  | none => simp [settle, besidesBank, ParsedListing.besidesBank]
  | some placed =>
    obtain ⟨item, span⟩ := placed
    cases item with
    | instr inst => simp [settle, besidesBank, ParsedListing.besidesBank]
    | assignment virt real =>
      simp only [settle, besidesBank]
      split
      · next first hfirst =>
        have htwice : (⟨.assignedTwice virt first.span, span⟩ : Diagnostic).code ≠ "EB00" := by
          simp [Diagnostic.code, Fault.code]
        simp only [ParsedListing.besidesBank, besidesBank_append, besidesBank_cons_of_code htwice]
      · simp only [ParsedListing.besidesBank, besidesBank_append]

/-- What is said of the bank does not change how lines are settled. -/
theorem settleLines_besidesBank (earlier : List Assignment) (readings : List LineReading) :
    settleLines earlier (readings.map LineReading.besidesBank) =
      (settleLines earlier readings).map ParsedListing.besidesBank := by
  induction readings generalizing earlier with
  | nil => rfl
  | cons reading rest ih =>
    rw [List.map_cons, settleLines, settleLines, List.map_cons, LineReading.settle_besidesBank, ih]
    rfl

theorem ParsedListing.join_besidesBank (parts : List ParsedListing) :
    join (parts.map besidesBank) = (join parts).besidesBank := by
  induction parts with
  | nil => rfl
  | cons part rest ih =>
    show append part.besidesBank (join (rest.map besidesBank)) =
      (append part (join rest)).besidesBank
    rw [ih]
    simp [append, besidesBank]

/-- Without a bank a source text is parsed as under any bank, less what is said about the bank. -/
theorem Listing.parse_besidesBank (source : String) (file : Nat) (bank : Bank) :
    parse source file none = (parse source file (some bank)).besidesBank := by
  have hlines : (linesOf file source.toList).map (Line.read none) =
      ((linesOf file source.toList).map (Line.read (some bank))).map LineReading.besidesBank := by
    rw [List.map_map]
    exact List.map_congr_left fun line _ => line.read_besidesBank bank
  rw [parse, parse, parseLines, parseLines, hlines, settleLines_besidesBank,
    ParsedListing.join_besidesBank]

end RegisterMapping
