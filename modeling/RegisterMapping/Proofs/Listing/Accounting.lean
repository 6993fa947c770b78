import RegisterMapping.Proofs.Listing.Acceptance
import RegisterMapping.Proofs.Listing.Lexing

/-!
# What becomes of each line

No line is dropped without a word. The lines of a text are the stretches of tokens between newlines,
and each of them is accounted for on its own (`Line.Accounted`): a line with invalid characters has
one diagnostic for each of these and nothing else, and any other line that is not blank has its
item, unless one of its diagnostics costs it the item. The parse of the text is what its lines add,
in their order (`Listing.parse_accounts_for_lines`).

The faults of a line that end the reading are told by its reader, in the module on giving up. That a
register is assigned twice is told when the line is settled.
-/

set_option autoImplicit false

namespace RegisterMapping

/-- The number of instructions and assignments that were read. -/
def ParsedListing.itemCount (parsed : ParsedListing) : Nat :=
  parsed.listing.insts.length + parsed.listing.assignments.length

/-- What a line adds is accounted for by its tokens and by its diagnostics. -/
structure Line.Accounted (line : Line) (part : ParsedListing) : Prop where
  blank : line.tokens = [] → part = .empty
  invalid : line.invalidTokens ≠ [] →
    part = ⟨.empty, line.invalidTokens.map fun token => ⟨.invalidCharacter, token.span⟩⟩
  itemCount_le_one : part.itemCount ≤ 1
  itemCount_eq_one_iff : line.tokens ≠ [] → line.invalidTokens = [] →
    (part.itemCount = 1 ↔ ∀ diagnostic ∈ part.diagnostics, diagnostic.costsItem = false)
  explained : line.tokens ≠ [] → part.itemCount = 0 → part.diagnostics ≠ []

/-! ## Reading a line -/

namespace Line

variable {bank? : Option Bank} {line : Line}

theorem read_of_invalidTokens (h : line.invalidTokens ≠ []) :
    line.read bank? =
      ⟨line.invalidTokens.map fun token => ⟨.invalidCharacter, token.span⟩, none, []⟩ := by
  obtain ⟨token, tokens, hinvalid⟩ := List.exists_cons_of_ne_nil h
  rw [read, hinvalid]

/-- A line has no item exactly if this is said. -/
theorem item?_eq_none_iff (hne : line.tokens ≠ []) (hvalid : line.invalidTokens = []) :
    (line.read bank?).item? = none ↔
      ∃ diagnostic ∈ (line.read bank?).diagnostics, diagnostic.costsItem = true := by
  obtain ⟨tokens, terminator⟩ := line
  obtain ⟨first, rest, rfl⟩ := List.exists_cons_of_ne_nil hne
  have hitem := LineReader.accountable_item first ⟨bank?, terminator⟩ ⟨first.span, first :: rest⟩
  rw [read, hvalid]
  simp only
  cases hvalue :
    (LineReader.item first ⟨bank?, terminator⟩ ⟨first.span, first :: rest⟩).value with
  | none =>
    rw [hvalue] at hitem
    simpa using hitem
  | some result =>
    obtain ⟨item?, cursor⟩ := result
    rw [hvalue] at hitem
    simpa using hitem

/-- What follows the item costs nothing. -/
theorem costsItem_of_mem_trailing {diagnostic : Diagnostic}
    (h : diagnostic ∈ (line.read bank?).trailing) : diagnostic.costsItem = false := by
  have htrailing (tokens : List Token) (hmem : diagnostic ∈ trailing tokens) :
      diagnostic.costsItem = false := by
    cases tokens with
    | nil => cases hmem
    | cons token rest =>
      obtain rfl := List.mem_singleton.1 hmem
      rfl
  rw [read] at h
  split at h
  · split at h
    · cases h
    · simp only at h
      split at h
      · cases h
      · exact htrailing _ h
  · cases h

end Line

/-! ## Settling a line -/

namespace LineReading

variable {reading : LineReading}

/-- What is read of a line that is not blank and has no invalid characters. -/
structure Told (reading : LineReading) : Prop where
  item?_eq_none_iff : reading.item? = none ↔
    ∃ diagnostic ∈ reading.diagnostics, diagnostic.costsItem = true
  trailing : ∀ diagnostic ∈ reading.trailing, diagnostic.costsItem = false

theorem itemCount_settle_le_one (earlier : List Assignment) (reading : LineReading) :
    (reading.settle earlier).itemCount ≤ 1 := by
  obtain ⟨diagnostics, item?, trailing⟩ := reading
  cases item? with
  | none => exact Nat.zero_le 1
  | some placed =>
    obtain ⟨item, span⟩ := placed
    cases item with
    | instr inst => exact Nat.le_refl 1
    | assignment virt real =>
      rw [settle]
      simp only
      split
      · exact Nat.zero_le 1
      · exact Nat.le_refl 1

/-- A line keeps its item exactly if none of its diagnostics costs it. -/
theorem Told.itemCount_settle_eq_one_iff (h : reading.Told) (earlier : List Assignment) :
    (reading.settle earlier).itemCount = 1 ↔
      ∀ diagnostic ∈ (reading.settle earlier).diagnostics, diagnostic.costsItem = false := by
  obtain ⟨diagnostics, item?, trailing⟩ := reading
  obtain ⟨hnone, htrailing⟩ := h
  have hlost {part : ParsedListing} {diagnostic : Diagnostic} (hcount : part.itemCount = 0)
      (hmem : diagnostic ∈ part.diagnostics) (hcosts : diagnostic.costsItem = true) :
      part.itemCount = 1 ↔ ∀ diagnostic ∈ part.diagnostics, diagnostic.costsItem = false := by
    constructor
    · intro hone
      omega
    · intro hall
      rw [hall diagnostic hmem] at hcosts
      cases hcosts
  cases item? with
  | none =>
    obtain ⟨diagnostic, hmem, hcosts⟩ := hnone.1 rfl
    exact hlost rfl (List.mem_append_left _ hmem) hcosts
  | some placed =>
    obtain ⟨item, span⟩ := placed
    have hkept : ∀ diagnostic ∈ diagnostics ++ trailing, diagnostic.costsItem = false := by
      intro diagnostic hmem
      rcases List.mem_append.1 hmem with hearly | hlate
      · apply Bool.eq_false_iff.2
        intro hcosts
        cases hnone.2 ⟨diagnostic, hearly, hcosts⟩
      · exact htrailing diagnostic hlate
    cases item with
    | instr inst => exact iff_of_true rfl hkept
    | assignment virt real =>
      simp only [settle]
      split
      -- The register is assigned already, which is said and costs the line its assignment.
      · next first _ =>
        have hmem : (⟨.assignedTwice virt first.span, span⟩ : Diagnostic) ∈
            diagnostics ++ ⟨.assignedTwice virt first.span, span⟩ :: trailing :=
          List.mem_append_right _ List.mem_cons_self
        exact hlost rfl hmem rfl
      · exact iff_of_true rfl hkept

end LineReading

theorem Line.told_read {bank? : Option Bank} {line : Line} (hne : line.tokens ≠ [])
    (hvalid : line.invalidTokens = []) : (line.read bank?).Told :=
  ⟨item?_eq_none_iff hne hvalid, fun _ => costsItem_of_mem_trailing⟩

/-- What a line adds behind any assignments is accounted for. -/
theorem Line.accounted_settle (bank? : Option Bank) (earlier : List Assignment) (line : Line) :
    line.Accounted ((line.read bank?).settle earlier) := by
  have htold (hne : line.tokens ≠ []) (hvalid : line.invalidTokens = []) :
      ((line.read bank?).settle earlier).itemCount = 1 ↔
        ∀ diagnostic ∈ ((line.read bank?).settle earlier).diagnostics,
          diagnostic.costsItem = false :=
    (told_read hne hvalid).itemCount_settle_eq_one_iff earlier
  refine ⟨?_, ?_, LineReading.itemCount_settle_le_one earlier _, htold, ?_⟩
  · intro hblank
    rw [read_of_tokens_eq_nil hblank]
    rfl
  · intro hinvalid
    rw [read_of_invalidTokens hinvalid]
    simp only [LineReading.settle, List.append_nil]
  · intro hne hcount hnothing
    by_cases hvalid : line.invalidTokens = []
    · have hone := (htold hne hvalid).2 (by simp [hnothing])
      omega
    · rw [read_of_invalidTokens hvalid] at hnothing
      obtain ⟨hnone, -⟩ := List.append_eq_nil_iff.1 hnothing
      exact hvalid (List.map_eq_nil_iff.1 hnone)

/-! ## Lines of a text -/

theorem forall₂_accounted_settleLines (bank? : Option Bank) (earlier : List Assignment)
    (lines : List Line) :
    List.Forall₂ Line.Accounted lines (settleLines earlier (lines.map (Line.read bank?))) := by
  induction lines generalizing earlier with
  | nil => exact .nil
  | cons line lines ih => exact .cons (line.accounted_settle bank? earlier) (ih _)

namespace ParsedListing

/-- What is put together has the instructions, assignments and diagnostics of its parts, in their
order. -/
theorem join_eq_flatMap (parts : List ParsedListing) :
    join parts = ⟨⟨parts.flatMap fun part => part.listing.insts,
      parts.flatMap fun part => part.listing.assignments⟩,
      parts.flatMap ParsedListing.diagnostics⟩ := by
  induction parts with
  | nil => rfl
  | cons part parts ih =>
    show append part (join parts) = _
    rw [ih]
    rfl

end ParsedListing

/-! ## Lines that say nothing -/

/-- The text has blanks, and then possibly a comment. -/
def Silent (text : List Char) : Prop :=
  ∃ blanks comment, text = blanks ++ comment ∧ blanks.all isBlank = true ∧
    (comment = [] ∨ ∃ said, comment = '#' :: said ∧ said.all (fun c => !isLineBreak c) = true)

/-- No token starts in such a text if a line break or the end of the file follows it. -/
theorem Token.scan_silent {text rest : List Char} (h : Silent text)
    (hrest : ∀ c ∈ rest.head?, isLineBreak c = true) (file offset : Nat) :
    scan file offset (text ++ rest) = scan file (offset + byteLength text) rest := by
  obtain ⟨blanks, comment, rfl, hblanks, hcomment⟩ := h
  apply scan_passed
  refine Passed.append_blanks ?_ hblanks
  rcases hcomment with rfl | ⟨said, rfl, hsaid⟩
  · exact .nil
  · rw [← List.append_nil ('#' :: said)]
    exact .comment hsaid hrest .nil

/-- No line is dropped without a word. The lines of a text are the stretches of tokens between
newlines, and what they add to the parse is accounted for; the parse has what the lines add, in
their order. Blanks and comments make no tokens. -/
theorem Listing.parse_accounts_for_lines (source : String) (file : Nat) (bank? : Option Bank) :
    let lines := linesOf file source.toList
    let parts := parseLines source.toList file bank?
    lines.map Line.tokens = ((Token.scan file 0 source.toList).splitOnP fun token =>
        token.kind = .newline) ∧
      List.Forall₂ Line.Accounted lines parts ∧
      parse source file bank? = ⟨⟨parts.flatMap fun part => part.listing.insts,
        parts.flatMap fun part => part.listing.assignments⟩,
        parts.flatMap ParsedListing.diagnostics⟩ ∧
      ∀ (text rest : List Char) (offset : Nat), Silent text →
        (∀ c ∈ rest.head?, isLineBreak c = true) →
          Token.scan file offset (text ++ rest) =
            Token.scan file (offset + byteLength text) rest := by
  intro lines parts
  refine ⟨Line.map_tokens_split _ _, forall₂_accounted_settleLines bank? [] lines,
    ParsedListing.join_eq_flatMap parts, ?_⟩
  intro text rest offset hsilent hrest
  exact Token.scan_silent hsilent hrest file offset

/-- A line that ends too early, a comment, an assignment with something behind it, a second one, and
two invalid characters. -/
example :
    (Listing.parseLines "mov %vR0\n# done\n%vR0 -> %R1 9\n%vR0 -> %R2\nmov ? !".toList 0 none).map
        (fun part => (part.itemCount, part.diagnostics.map Diagnostic.code)) =
      [(0, ["EL03"]), (0, []), (1, ["EL06"]), (0, ["EA03"]), (0, ["EL00", "EL00"])] := by
  decide +kernel

end RegisterMapping
