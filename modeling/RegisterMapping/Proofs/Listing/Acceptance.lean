import Mathlib.Data.List.Forall2
import RegisterMapping.Listing.Parse
import RegisterMapping.Proofs.Listing.Reader

/-!
# What is accepted, and what it means

A source text parses without a diagnostic exactly if each of its lines that holds a token says an
item that keeps the rules, and no virtual register is assigned twice; the listing then holds what
the lines say, in order and in place (`parse_eq_clean_iff`). The proof follows the parse: a line is
read without a fault exactly if it says something (`Line.read_eq_clean_iff`), what is read settles
without a fault exactly if it is no second assignment (`LineReading.settle_eq_clean_iff`), and an
induction over the lines carries the assignments that were made before
(`join_settleLines_eq_iff`).
-/

set_option autoImplicit false

namespace RegisterMapping

/-! ## Tokens of a sentence -/

/-- The token is a part of a line: neither invalid nor the end of the line. -/
def Token.Ordinary (token : Token) : Prop := token.kind ≠ .invalid ∧ token.kind ≠ .newline

/-- Which tokens are parts of a line is known from their kinds. -/
theorem Token.ordinary_of_kind {token : Token} {kind : TokenKind} (h : token.kind = kind)
    (hkind : kind ≠ .invalid ∧ kind ≠ .newline) : token.Ordinary := by
  rw [Ordinary]
  rwa [h]

theorem Token.Names.ordinary {token : Token} {r : Register} (h : token.Names r) :
    token.Ordinary :=
  ordinary_of_kind h.1 (by decide)

theorem Token.Counts.ordinary {negative : Bool} {token : Token} {word : Int64}
    (h : token.Counts negative word) : token.Ordinary :=
  ordinary_of_kind h.1 (by decide)

theorem ConstantPhrase.ordinary {tokens : List Token} {word : Int64}
    (h : ConstantPhrase tokens word) : ∀ token ∈ tokens, token.Ordinary := by
  cases h with
  | plain hcounts => simpa using hcounts.ordinary
  | negated hminus hcounts =>
    simpa using ⟨Token.ordinary_of_kind hminus (by decide), hcounts.ordinary⟩

theorem DistancePhrase.ordinary {tokens : List Token} {word : Int64}
    (h : DistancePhrase tokens word) : ∀ token ∈ tokens, token.Ordinary := by
  cases h with
  | absent => simp
  | added hplus hcounts =>
    simpa using ⟨Token.ordinary_of_kind hplus (by decide), hcounts.ordinary⟩
  | subtracted hminus hcounts =>
    simpa using ⟨Token.ordinary_of_kind hminus (by decide), hcounts.ordinary⟩

theorem AddressPhrase.ordinary {tokens : List Token} {address : Address}
    (h : AddressPhrase tokens address) : ∀ token ∈ tokens, token.Ordinary := by
  obtain ⟨hleft, hbase, hdistance, hright⟩ := h
  simp only [List.forall_mem_cons, List.forall_mem_append]
  exact ⟨Token.ordinary_of_kind hleft (by decide), hbase.ordinary, hdistance.ordinary,
    Token.ordinary_of_kind hright (by decide), by simp⟩

theorem PairPhrase.ordinary {tokens : List Token} {a b : Register} (h : PairPhrase tokens a b) :
    ∀ token ∈ tokens, token.Ordinary := by
  obtain ⟨hleft, hcomma, hright⟩ := h
  simpa using ⟨hleft.ordinary, Token.ordinary_of_kind hcomma (by decide), hright.ordinary⟩

/-- Operands are written with parts of a line. -/
theorem OperandPhrase.ordinary {mnemonic : Mnemonic} {tokens : List Token} {inst : Instr}
    (h : OperandPhrase mnemonic tokens inst) : ∀ token ∈ tokens, token.Ordinary := by
  have hcomma : ∀ {comma : Token}, comma.kind = .comma → comma.Ordinary :=
    fun h => Token.ordinary_of_kind h (by decide)
  cases h with
  | li hdst hkind hconstant =>
    simpa using ⟨hdst.ordinary, hcomma hkind, hconstant.ordinary⟩
  | mov hpair | alu hpair | cmp hpair => exact hpair.ordinary
  | neg hname | ret hname => simpa using hname.ordinary
  | ld hname hkind haddress | st hname hkind haddress =>
    simpa using ⟨hname.ordinary, hcomma hkind, haddress.ordinary⟩
  | fma hname hkind hpair =>
    simpa using ⟨hname.ordinary, hcomma hkind, hpair.ordinary⟩

/-- A sentence is written with parts of a line, so it holds no invalid token and no newline. -/
theorem Sentence.ordinary {tokens : List Token} {item : Item} (h : Sentence tokens item) :
    ∀ token ∈ tokens, token.Ordinary := by
  cases h with
  | instr hcalls hphrase =>
    simpa using ⟨Token.ordinary_of_kind hcalls.1 (by decide), hphrase.ordinary⟩
  | assignment hleft harrow hright =>
    simpa using ⟨hleft.ordinary, Token.ordinary_of_kind harrow (by decide), hright.ordinary⟩

theorem Sentence.ne_nil {tokens : List Token} {item : Item} (h : Sentence tokens item) :
    tokens ≠ [] := by
  cases h <;> simp

/-! ## One line -/

namespace Line

theorem invalidTokens_eq_nil_iff {line : Line} :
    line.invalidTokens = [] ↔ ∀ token ∈ line.tokens, token.kind ≠ .invalid := by
  simp [invalidTokens, List.filter_eq_nil_iff]

theorem trailing_eq_nil_iff {tokens : List Token} : trailing tokens = [] ↔ tokens = [] := by
  cases tokens <;> simp [trailing]

/-- A line without tokens says nothing. -/
theorem read_of_tokens_eq_nil {bank? : Option Bank} {line : Line} (h : line.tokens = []) :
    read bank? line = ⟨[], none, []⟩ := by
  simp [read, invalidTokens, h]

/-- A line that holds a token is read without a fault exactly if it says something, and that is
then what was read. -/
theorem read_eq_clean_iff {bank? : Option Bank} {line : Line} (hne : line.tokens ≠ [])
    {item? : Option (Item × Span)} :
    read bank? line = ⟨[], item?, []⟩ ↔
      ∃ placed, item? = some placed ∧ Says bank? line.tokens placed := by
  obtain ⟨tokens, terminator⟩ := line
  obtain ⟨first, rest, rfl⟩ := List.exists_cons_of_ne_nil hne
  constructor
  · intro h
    rw [read] at h
    split at h
    · simp only at h
      split at h
      · next hvalue =>
        simp only [LineReading.mk.injEq] at h
        exact absurd h.1 (LineReader.explains_item _ _ _ hvalue)
      · next said cursor hvalue =>
        simp only [LineReading.mk.injEq, trailing_eq_nil_iff] at h
        obtain ⟨hdiagnostics, rfl, hrest⟩ := h
        have hreads : (LineReader.item first).Reads ⟨bank?, terminator⟩
            ⟨first.span, first :: rest⟩ said cursor := by
          rw [LineReader.Reads]
          rw [← hvalue, ← hdiagnostics]
        obtain ⟨tokens, item, rfl, hsentence, hadmissible, htakes⟩ :=
          LineReader.reads_item_iff.1 hreads
        have htokens := Cursor.rest_eq_of_takes htakes
        rw [hrest, List.append_nil] at htokens
        obtain rfl : first :: rest = tokens := htokens
        refine ⟨(item, first.span.cover cursor.last), rfl, hsentence, hadmissible, ?_⟩
        rw [Cursor.last_eq_of_takes htakes]
        rfl
    · next hinvalid =>
      simp only [LineReading.mk.injEq, List.map_eq_nil_iff] at h
      exact absurd h.1 hinvalid
  · rintro ⟨⟨item, span⟩, rfl, hsentence, hadmissible, hspan⟩
    -- No token of a sentence is invalid, and the item takes all tokens of the line.
    have hvalid : invalidTokens ⟨first :: rest, terminator⟩ = [] :=
      invalidTokens_eq_nil_iff.2 fun token hmem => (hsentence.ordinary token hmem).1
    have hreads : (LineReader.item first).Reads ⟨bank?, terminator⟩
        ⟨first.span, first :: rest⟩ (some item) ⟨lastSpan first.span rest, []⟩ :=
      LineReader.reads_item_iff.2
        ⟨_, item, rfl, hsentence, hadmissible, Cursor.takes_all first.span (first :: rest)⟩
    obtain rfl : first.span.cover (lastSpan first.span rest) = span := Option.some.inj hspan
    rw [LineReader.Reads] at hreads
    simp [read, hvalid, hreads, trailing]

end Line

/-! ## Settling lines -/

/-- None of the assignments is to the register. -/
def Unassigned (earlier : List Assignment) (v : Register) : Prop :=
  ∀ assignment ∈ earlier, assignment.virt ≠ .reg v

/-- The registers that items assign, in order. -/
def assignedRegisters (items : List (Item × Span)) : List Register :=
  items.filterMap fun placed => placed.1.assigned?

/-- No assignment to a register is found exactly if none is to it. -/
theorem unassigned_iff_find? {earlier : List Assignment} {v : Register} :
    Unassigned earlier v ↔
      (earlier.find? fun assignment => assignment.virt = .reg v) = none := by
  simp [Unassigned, List.find?_eq_none]

/-- Behind the assignments that an item makes, those of its own register are lost. -/
theorem unassigned_append_ofItems_iff {earlier : List Assignment} {placed : Item × Span}
    {v : Register} :
    Unassigned (earlier ++ (Listing.ofItems [placed]).assignments) v ↔
      Unassigned earlier v ∧ placed.1.assigned? ≠ some v := by
  rw [Unassigned]
  rw [List.forall_mem_append]
  refine and_congr_right fun _ => ?_
  obtain ⟨item, span⟩ := placed
  cases item with
  | instr inst => simp [Listing.ofItems, Item.assigned?]
  | assignment virt real => simp [Listing.ofItems, Item.assigned?]

theorem Listing.ofItems_cons (placed : Item × Span) (rest : List (Item × Span)) :
    ofItems (placed :: rest) =
      ⟨(ofItems [placed]).insts ++ (ofItems rest).insts,
        (ofItems [placed]).assignments ++ (ofItems rest).assignments⟩ := by
  obtain ⟨item, span⟩ := placed
  cases item <;> rfl

/-- What was read from a line adds its item and nothing else exactly if no fault was found and the
item is no second assignment. -/
theorem LineReading.settle_eq_clean_iff {earlier : List Assignment} {reading : LineReading}
    {listing : Listing} :
    reading.settle earlier = ⟨listing, []⟩ ↔
      reading = ⟨[], reading.item?, []⟩ ∧
        (∀ placed ∈ reading.item?, ∀ v ∈ placed.1.assigned?, Unassigned earlier v) ∧
        listing = Listing.ofItems reading.item?.toList := by
  obtain ⟨diagnostics, item?, trailing⟩ := reading
  have hclean : ∀ {l : Listing}, (⟨l, diagnostics ++ trailing⟩ : ParsedListing) = ⟨listing, []⟩ ↔
      (⟨diagnostics, item?, trailing⟩ : LineReading) = ⟨[], item?, []⟩ ∧ listing = l := by
    intro l
    simp [eq_comm, and_comm]
  rw [settle]
  cases item? with
  | none =>
    rw [hclean]
    simp [Listing.ofItems, Listing.empty]
  | some placed =>
    obtain ⟨item, span⟩ := placed
    cases item with
    | instr inst =>
      rw [hclean]
      simp [Listing.ofItems, Item.assigned?]
    | assignment virt real =>
      simp only [Option.mem_def, Option.some.injEq, forall_eq', Item.assigned?,
        unassigned_iff_find?]
      cases hfound : earlier.find? fun assignment => assignment.virt = .reg virt with
      | none =>
        simp only [true_and]
        exact hclean
      | some first => simp

namespace ParsedListing

theorem join_cons (first : ParsedListing) (rest : List ParsedListing) :
    join (first :: rest) = first.append (join rest) := rfl

/-- Two parts are clean together exactly if each of them is. -/
theorem append_eq_clean_iff {a b : ParsedListing} {listing : Listing} :
    a.append b = ⟨listing, []⟩ ↔
      ∃ l m : Listing, a = ⟨l, []⟩ ∧ b = ⟨m, []⟩ ∧
        listing = ⟨l.insts ++ m.insts, l.assignments ++ m.assignments⟩ := by
  obtain ⟨l, front⟩ := a
  obtain ⟨m, back⟩ := b
  rw [append]
  simp only [mk.injEq, List.append_eq_nil_iff]
  constructor
  · rintro ⟨rfl, rfl, rfl⟩
    exact ⟨l, m, ⟨rfl, rfl⟩, ⟨rfl, rfl⟩, rfl⟩
  · rintro ⟨_, _, ⟨rfl, rfl⟩, ⟨rfl, rfl⟩, rfl⟩
    exact ⟨rfl, rfl, rfl⟩

end ParsedListing

/-- A line without tokens adds nothing. -/
theorem join_settleLines_blank (earlier : List Assignment) (rest : List LineReading) :
    ParsedListing.join (settleLines earlier (⟨[], none, []⟩ :: rest)) =
      ParsedListing.join (settleLines earlier rest) := by
  simp [settleLines, ParsedListing.join_cons, LineReading.settle, ParsedListing.append,
    Listing.empty]

theorem assignedRegisters_cons (placed : Item × Span) (rest : List (Item × Span)) :
    assignedRegisters (placed :: rest) =
      placed.1.assigned?.toList ++ assignedRegisters rest := by
  unfold assignedRegisters
  cases h : placed.1.assigned? <;> simp [h]

/-- Behind earlier assignments, items assign each register for the first time. -/
def AssignedOnce (earlier : List Assignment) (items : List (Item × Span)) : Prop :=
  (assignedRegisters items).Nodup ∧ ∀ v ∈ assignedRegisters items, Unassigned earlier v

/-- The first item assigns a register for the first time, and the rest does so behind it. -/
theorem assignedOnce_cons_iff {earlier : List Assignment} {placed : Item × Span}
    {rest : List (Item × Span)} :
    AssignedOnce earlier (placed :: rest) ↔
      (∀ v ∈ placed.1.assigned?, Unassigned earlier v) ∧
        AssignedOnce (earlier ++ (Listing.ofItems [placed]).assignments) rest := by
  unfold AssignedOnce
  simp only [assignedRegisters_cons, List.nodup_append, List.mem_append, Option.mem_toList,
    unassigned_append_ofItems_iff]
  constructor
  -- A register that the rest assigns is not the one assigned here: left to right because the
  -- registers are distinct, right to left because it was unassigned behind this item.
  · rintro ⟨⟨-, hrest, hdisjoint⟩, hunassigned⟩
    exact ⟨fun v hv => hunassigned v (.inl hv), hrest, fun v hv =>
      ⟨hunassigned v (.inr hv), fun hplaced => hdisjoint v hplaced v hv rfl⟩⟩
  · rintro ⟨hplaced, hrest, hunassigned⟩
    refine ⟨⟨?_, hrest, ?_⟩, ?_⟩
    · cases placed.1.assigned? <;> simp
    · rintro v hv _ hw rfl
      exact (hunassigned v hw).2 hv
    · rintro v (hv | hv)
      · exact hplaced v hv
      · exact (hunassigned v hv).1

/-- Nothing was found wrong with the line by itself. -/
def LineReading.Faultless (reading : LineReading) : Prop :=
  reading = ⟨[], reading.item?, []⟩

/-- Lines settle without a fault, behind the assignments of earlier lines, exactly if each of them
is read without one and no register is assigned that was assigned before. -/
theorem join_settleLines_eq_iff {readings : List LineReading} {earlier : List Assignment}
    {listing : Listing} :
    ParsedListing.join (settleLines earlier readings) = ⟨listing, []⟩ ↔
      (∀ reading ∈ readings, reading.Faultless) ∧
        AssignedOnce earlier (readings.filterMap LineReading.item?) ∧
        listing = Listing.ofItems (readings.filterMap LineReading.item?) := by
  induction readings generalizing earlier listing with
  | nil =>
    show ParsedListing.mk Listing.empty [] = ⟨listing, []⟩ ↔ _
    simp [AssignedOnce, assignedRegisters, Listing.ofItems, Listing.empty, eq_comm]
  | cons reading rest ih =>
    rw [settleLines, ParsedListing.join_cons, ParsedListing.append_eq_clean_iff,
      List.forall_mem_cons]
    constructor
    -- The lines after this one are settled behind its assignment as well, if it makes one.
    · rintro ⟨l, m, hsettle, hrest, rfl⟩
      rw [hsettle, ih] at hrest
      obtain ⟨hfaultless, honce, rfl⟩ := hrest
      obtain ⟨hreading, hfresh, rfl⟩ := LineReading.settle_eq_clean_iff.1 hsettle
      refine ⟨⟨hreading, hfaultless⟩, ?_⟩
      cases hitem : reading.item? with
      | none =>
        rw [hitem] at honce
        rw [List.filterMap_cons_none hitem]
        rw [Option.toList_none, show (Listing.ofItems []).assignments = [] from rfl,
          List.append_nil] at honce
        exact ⟨honce, rfl⟩
      | some placed =>
        rw [hitem] at honce
        rw [List.filterMap_cons_some hitem]
        exact ⟨assignedOnce_cons_iff.2 ⟨hfresh placed hitem, honce⟩,
          (Listing.ofItems_cons placed _).symm⟩
    · rintro ⟨⟨hreading, hfaultless⟩, honce, rfl⟩
      cases hitem : reading.item? with
      | none =>
        rw [List.filterMap_cons_none hitem] at honce ⊢
        have hsettle : reading.settle earlier = ⟨Listing.ofItems [], []⟩ :=
          LineReading.settle_eq_clean_iff.2 ⟨hreading, by simp [hitem], by rw [hitem]; rfl⟩
        rw [hsettle]
        refine ⟨_, _, rfl, ih.2 ⟨hfaultless, ?_, rfl⟩, rfl⟩
        rw [show (Listing.ofItems []).assignments = [] from rfl, List.append_nil]
        exact honce
      | some placed =>
        rw [List.filterMap_cons_some hitem] at honce ⊢
        obtain ⟨hfresh, honce⟩ := assignedOnce_cons_iff.1 honce
        have hsettle : reading.settle earlier = ⟨Listing.ofItems [placed], []⟩ := by
          refine LineReading.settle_eq_clean_iff.2 ⟨hreading, ?_, by rw [hitem]; rfl⟩
          rw [hitem]
          rintro _ ⟨⟩
          exact hfresh
        rw [hsettle]
        exact ⟨_, _, rfl, ih.2 ⟨hfaultless, honce, rfl⟩, Listing.ofItems_cons placed _⟩

/-- Lines are read without a fault exactly if each of them that holds a token says an item. -/
theorem forall_faultless_iff {bank? : Option Bank} {lines : List Line}
    {items : List (Item × Span)} :
    (∀ reading ∈ lines.map (Line.read bank?), reading.Faultless) ∧
        (lines.map (Line.read bank?)).filterMap LineReading.item? = items ↔
      List.Forall₂ (Says bank?)
        ((lines.map Line.tokens).filter fun tokens => !tokens.isEmpty) items := by
  induction lines generalizing items with
  | nil => simp [eq_comm]
  | cons line lines ih =>
    rw [List.map_cons, List.forall_mem_cons]
    by_cases htokens : line.tokens = []
    · have hread : Line.read bank? line = ⟨[], none, []⟩ := Line.read_of_tokens_eq_nil htokens
      have hfilter : ((line :: lines).map Line.tokens).filter (fun tokens => !tokens.isEmpty) =
          (lines.map Line.tokens).filter fun tokens => !tokens.isEmpty := by
        simp [htokens]
      rw [hread, hfilter, ← ih, List.filterMap_cons_none rfl]
      exact ⟨fun h => ⟨h.1.2, h.2⟩, fun h => ⟨⟨rfl, h.1⟩, h.2⟩⟩
    · have hfilter : ((line :: lines).map Line.tokens).filter (fun tokens => !tokens.isEmpty) =
          line.tokens :: (lines.map Line.tokens).filter fun tokens => !tokens.isEmpty := by
        simp [htokens]
      rw [hfilter]
      constructor
      · rintro ⟨⟨hread, hall⟩, rfl⟩
        obtain ⟨placed, hplaced, hsaid⟩ := (Line.read_eq_clean_iff htokens).1 hread
        rw [List.filterMap_cons_some hplaced]
        exact .cons hsaid (ih.1 ⟨hall, rfl⟩)
      · intro h
        obtain ⟨placed, items, hsaid, hmeans, rfl⟩ := List.forall₂_cons_left_iff.1 h
        obtain ⟨hall, rfl⟩ := ih.2 hmeans
        have hread : Line.read bank? line = ⟨[], some placed, []⟩ :=
          (Line.read_eq_clean_iff htokens).2 ⟨placed, rfl, hsaid⟩
        rw [hread]
        exact ⟨⟨rfl, hall⟩, List.filterMap_cons_some rfl⟩

/-- Lines settle without a fault, behind the assignments of earlier lines, exactly if each line
that holds a token says an item, and no register is assigned that was assigned before. -/
theorem join_settleLines_eq_clean_iff {bank? : Option Bank} {lines : List Line}
    {earlier : List Assignment} {listing : Listing} :
    ParsedListing.join (settleLines earlier (lines.map (Line.read bank?))) = ⟨listing, []⟩ ↔
      ∃ items, List.Forall₂ (Says bank?)
          ((lines.map Line.tokens).filter fun tokens => !tokens.isEmpty) items ∧
        AssignedOnce earlier items ∧ listing = Listing.ofItems items := by
  rw [join_settleLines_eq_iff]
  constructor
  · rintro ⟨hfaultless, honce, hlisting⟩
    exact ⟨_, forall_faultless_iff.1 ⟨hfaultless, rfl⟩, honce, hlisting⟩
  · rintro ⟨items, hmeans, honce, hlisting⟩
    obtain ⟨hfaultless, rfl⟩ := forall_faultless_iff.2 hmeans
    exact ⟨hfaultless, honce, hlisting⟩

/-! ## Source texts -/

/-- The tokens of the lines are those between the newlines. -/
theorem Line.map_tokens_split (endOfFile : Span) (tokens : List Token) :
    (Line.split endOfFile tokens).map Line.tokens =
      tokens.splitOnP fun token => token.kind = .newline := by
  induction tokens with
  | nil => rfl
  | cons token rest ih =>
    rw [List.splitOnP_cons_eq_if_modifyHead, ← ih]
    rw [split]
    by_cases h : token.kind = .newline
    · simp [h]
    · simp only [h, if_false, decide_false, Bool.false_eq_true]
      obtain ⟨line, lines, hsplit⟩ := List.exists_cons_of_ne_nil (split_ne_nil endOfFile rest)
      simp [hsplit, Line.cons]

/-- Exactly the texts all of whose sentences keep the rules parse without a diagnostic, and the
listing is what the sentences say. -/
theorem parse_eq_clean_iff (source : String) (file : Nat) (bank? : Option Bank)
    (listing : Listing) :
    Listing.parse source file bank? = ⟨listing, []⟩ ↔
      ∃ items, List.Forall₂ (Says bank?) (Listing.sentenceLines file source.toList) items ∧
        (assignedRegisters items).Nodup ∧ listing = Listing.ofItems items := by
  rw [Listing.parse, Listing.parseLines, Listing.linesOf, Listing.sentenceLines]
  rw [join_settleLines_eq_clean_iff, Line.map_tokens_split]
  simp [AssignedOnce, Unassigned]

end RegisterMapping
