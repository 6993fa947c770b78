import Mathlib.Data.List.Sort
import RegisterMapping.Proofs.Listing.Concatenation
import RegisterMapping.Proofs.Listing.Values
import RegisterMapping.Proofs.Report.Naming

/-!
# Assignments in any order

An assignment may stand anywhere in a text, also below the instructions that mention its register.
If a text made of lines parses without a diagnostic, its lines can be put in any other order that
keeps the order of the lines that do not start with a register: the text still parses without a
diagnostic, and both reports stay the same (`Listing.report_of_permuted_lines`).

What a line says does not depend on where it stands (`Listing.readings_ofLines_cons`), so that a
text is as good as the list of what its lines say (`Listing.diagnostics_parse_ofLines_eq_nil_iff`,
`Listing.listing_of_ofLines`). Lines that start with a register say assignments and all others
instructions. In a text without faults no register is assigned twice, and pairs with distinct keys
make the same allocation in any order, since an allocation is known by what it maps to what
(`Allocation.eq_of_lookup?`, `Allocation.ofPairs_eq_of_perm`).
-/

set_option autoImplicit false

namespace RegisterMapping

/-! ## Allocations of distinct registers -/

namespace Allocation

theorem mem_of_lookup {entries : List (Handle × Handle)} {key value : Handle}
    (h : entries.lookup key = some value) : (key, value) ∈ entries := by
  obtain ⟨front, back, rfl, -⟩ := List.lookup_eq_some_iff.1 h
  exact List.mem_append_right _ List.mem_cons_self

theorem lookup_of_mem {entries : List (Handle × Handle)} (h : AscendingKeys entries)
    {key value : Handle} (hmem : (key, value) ∈ entries) : entries.lookup key = some value := by
  induction entries with
  | nil => cases hmem
  | cons entry rest ih =>
    obtain ⟨other, old⟩ := entry
    obtain ⟨hhead, htail⟩ := List.pairwise_cons.1 h
    rw [lookup_cons_eq_ite]
    rcases List.mem_cons.1 hmem with heq | hrest
    · obtain ⟨rfl, rfl⟩ := Prod.mk.inj heq
      rw [if_pos rfl]
    · have hne : key ≠ other := by
        rintro rfl
        have hlt := hhead _ hrest
        rw [Handle.compare_eq_iff.2 rfl] at hlt
        cases hlt
      rw [if_neg hne]
      exact ih htail hrest

/-- The entry comes first, since its key is the smaller one. -/
def EntryBefore (a b : Handle × Handle) : Prop := Handle.compare a.1 b.1 = .lt

instance : Std.Irrefl EntryBefore where
  irrefl := by
    intro a h
    rw [EntryBefore, Handle.compare_eq_iff.2 rfl] at h
    cases h

instance : Std.Antisymm EntryBefore where
  antisymm := by
    intro a b h h'
    cases (Std.OrientedCmp.gt_of_lt h).symm.trans h'

/-- Allocations that map every handle to the same are equal. -/
theorem eq_of_lookup? {a b : Allocation} (h : ∀ key, a.lookup? key = b.lookup? key) : a = b := by
  have ha : a.entries.Pairwise EntryBefore := a.ascending
  have hb : b.entries.Pairwise EntryBefore := b.ascending
  refine ext_iff.2 (ha.eq_of_mem_iff hb ?_)
  rintro ⟨key, value⟩
  constructor
  · intro hmem
    exact mem_of_lookup ((h key).symm.trans (lookup_of_mem a.ascending hmem))
  · intro hmem
    exact mem_of_lookup ((h key).trans (lookup_of_mem b.ascending hmem))

/-- Where every key comes once, a handle is mapped to the value that comes with it. -/
theorem lookup?_ofPairs_eq_some_iff {pairs : List (Handle × Handle)}
    (h : (pairs.map Prod.fst).Nodup) {key value : Handle} :
    (ofPairs pairs).lookup? key = some value ↔ (key, value) ∈ pairs := by
  refine ⟨mem_of_lookup?_ofPairs, fun hmem => ?_⟩
  cases hfound : (ofPairs pairs).lookup? key with
  | none => exact absurd rfl (lookup?_ofPairs_eq_none_iff.1 hfound _ hmem)
  | some other =>
    have hsame := List.inj_on_of_nodup_map h (mem_of_lookup?_ofPairs hfound) hmem rfl
    exact congrArg some (Prod.mk.inj hsame).2

/-- Where every key comes once, the order of the pairs does not count. -/
theorem ofPairs_eq_of_perm {pairs permuted : List (Handle × Handle)}
    (h : (pairs.map Prod.fst).Nodup) (hperm : permuted.Perm pairs) :
    ofPairs permuted = ofPairs pairs := by
  have hnodup : (permuted.map Prod.fst).Nodup := (hperm.map Prod.fst).nodup_iff.2 h
  apply eq_of_lookup?
  intro key
  apply Option.ext
  intro value
  exact (lookup?_ofPairs_eq_some_iff hnodup).trans
    (hperm.mem_iff.trans (lookup?_ofPairs_eq_some_iff h).symm)

end Allocation

/-! ## What lines say -/

namespace Item

/-- The instruction that an item is, if it is one. -/
def instr? : Item → Option Instr
  | .instr inst => some inst
  | .assignment _ _ => none

/-- What an item assigns to what. -/
def pair? : Item → Option (Handle × Handle)
  | .instr _ => none
  | .assignment virt real => some (.reg virt, .reg real)

/-- Distinct registers are distinct keys. -/
theorem nodup_keys_of_nodup {items : List Item} (h : (items.filterMap assigned?).Nodup) :
    ((items.filterMap pair?).map Prod.fst).Nodup := by
  have hkeys : (items.filterMap pair?).map Prod.fst =
      (items.filterMap assigned?).map Handle.reg := by
    rw [List.map_filterMap, List.map_filterMap]
    congr 1
    funext item
    cases item <;> rfl
  rw [hkeys]
  exact h.map fun _ _ heq => Handle.reg.inj heq

end Item

namespace Listing

theorem instructions_ofItems (items : List (Item × Span)) :
    (ofItems items).instructions = (items.map Prod.fst).filterMap Item.instr? := by
  rw [instructions, ofItems, List.map_filterMap, List.filterMap_map]
  congr 1
  funext placed
  obtain ⟨item, span⟩ := placed
  cases item <;> rfl

theorem pairs_ofItems (items : List (Item × Span)) :
    (ofItems items).assignments.map (fun assignment => (assignment.virt, assignment.real)) =
      (items.map Prod.fst).filterMap Item.pair? := by
  rw [ofItems, List.map_filterMap, List.filterMap_map]
  congr 1
  funext placed
  obtain ⟨item, span⟩ := placed
  cases item <;> rfl

end Listing

theorem assignedRegisters_eq (items : List (Item × Span)) :
    assignedRegisters items = (items.map Prod.fst).filterMap Item.assigned? := by
  rw [assignedRegisters, List.filterMap_map]
  rfl

namespace LineReading

variable {distance : Nat} {reading : LineReading}

/-- What a line says, wherever it stands. -/
def said? (reading : LineReading) : Option Item := reading.item?.map Prod.fst

theorem said?_shift : (reading.shift distance).said? = reading.said? := by
  obtain ⟨diagnostics, item?, trailing⟩ := reading
  cases item? <;> rfl

theorem faultless_shift : (reading.shift distance).Faultless ↔ reading.Faultless := by
  obtain ⟨diagnostics, item?, trailing⟩ := reading
  simp [Faultless, shift]

end LineReading

/-! ## The line of a text -/

/-- A text without line feeds, ended by one, has one newline token, which comes last. -/
theorem Token.exists_scan_line (file : Nat) : ∀ (offset : Nat) (text : List Char), '\n' ∉ text →
    ∃ tokens newline, scan file offset (text ++ ['\n']) = tokens ++ [newline] ∧
      newline.kind = .newline ∧ ∀ token ∈ tokens, token.kind ≠ .newline
  | offset, [], _ => by
    rw [List.nil_append, scan_cons, List.drop_nil, scan]
    exact ⟨[], _, rfl, rfl, by simp⟩
  | offset, c :: rest, h => by
    obtain ⟨hc, hrest⟩ : '\n' ≠ c ∧ '\n' ∉ rest := by simpa using h
    obtain ⟨hle, hkeeps⟩ := Lexeme.keepsLine_first c (rest ++ ['\n'])
    rw [List.cons_append, scan_cons]
    by_cases hkind : (Lexeme.first c (rest ++ ['\n'])).kind = some .newline
    -- A carriage return is a newline only together with the line feed, so nothing is between.
    · rcases Lexeme.kind_first_eq_newline hkind with ⟨hfeed, -⟩ | ⟨-, hhead, hfirst⟩
      · exact absurd hfeed.symm hc
      · have hnil : rest = [] := by
          cases rest with
          | nil => rfl
          | cons d rest =>
            obtain rfl : d = '\n' := Option.some.inj hhead
            exact absurd List.mem_cons_self hrest
        subst hnil
        rw [hfirst, List.nil_append]
        exact ⟨[], ⟨.newline, _, _⟩, by rw [Lexeme.token, List.drop_one, List.tail_cons, scan]; rfl,
          rfl, by simp⟩
    · have hextra : (Lexeme.first c (rest ++ ['\n'])).extra ≤ rest.length := by
        by_contra hlong
        refine hkeeps hkind (List.mem_cons_of_mem _ ?_)
        rw [List.take_of_length_le (by rw [List.length_append, List.length_singleton]; omega)]
        exact List.mem_append_right _ List.mem_cons_self
      rw [List.drop_append_of_le_length hextra]
      obtain ⟨tokens, newline, hscan, hnewline, hothers⟩ := exists_scan_line file
        (offset + byteLength (c :: (rest ++ ['\n']).take (Lexeme.first c (rest ++ ['\n'])).extra))
        (rest.drop (Lexeme.first c (rest ++ ['\n'])).extra)
        (fun hmem => hrest (List.mem_of_mem_drop hmem))
      rw [hscan, ← List.append_assoc]
      refine ⟨_, newline, rfl, hnewline, ?_⟩
      intro token hmem
      rcases List.mem_append.1 hmem with hfirst | hlater
      · rw [Option.mem_toList, Option.map_eq_some_iff] at hfirst
        obtain ⟨kind, hsome, rfl⟩ := hfirst
        exact fun hnewline => hkind (hsome.trans (congrArg some hnewline))
      · exact hothers token hlater
  termination_by _ text => text.length
  decreasing_by
    simp only [List.length_drop, List.length_cons]
    omega

/-- Up to the first newline the tokens are one line. -/
theorem Line.split_line {tokens : List Token} (h : ∀ token ∈ tokens, token.kind ≠ .newline)
    {newline : Token} (hnewline : newline.kind = .newline) (endOfFile : Span) (tail : List Token) :
    split endOfFile (tokens ++ newline :: tail) =
      ⟨tokens, ⟨some .newline, newline.span⟩⟩ :: split endOfFile tail := by
  induction tokens with
  | nil => rw [List.nil_append, split, if_pos hnewline]
  | cons token tokens ih =>
    obtain ⟨htoken, htokens⟩ := List.forall_mem_cons.1 h
    rw [List.cons_append, split, if_neg htoken, ih htokens]
    rfl

namespace Listing

/-- The line that a text without line feeds is by itself. -/
def lineOf (file : Nat) (text : List Char) : Line :=
  (linesOf file (text ++ ['\n'])).head (Line.split_ne_nil _ _)

variable {file : Nat} {bank? : Option Bank}

theorem linesOf_nil (file : Nat) : linesOf file [] = [⟨[], ⟨none, ⟨file, 0, 0⟩⟩⟩] := by
  rw [linesOf, Token.scan]
  rfl

/-- A text without line feeds is one line, whatever lines come after it. -/
theorem linesOf_line (file : Nat) {text : List Char} (h : '\n' ∉ text) :
    (∃ newline, Token.scan file 0 (text ++ ['\n']) = (lineOf file text).tokens ++ [newline] ∧
        newline.kind = .newline) ∧
      ∀ second, linesOf file (text ++ ['\n'] ++ second) =
        lineOf file text ::
          (linesOf file second).map (Line.shift (byteLength (text ++ ['\n']))) := by
  obtain ⟨tokens, newline, hscan, hnewline, hothers⟩ := Token.exists_scan_line file 0 text h
  have hself : linesOf file (text ++ ['\n']) =
      [⟨tokens, ⟨some .newline, newline.span⟩⟩, ⟨[], ⟨none,
        ⟨file, byteLength (text ++ ['\n']), byteLength (text ++ ['\n'])⟩⟩⟩] := by
    rw [linesOf, hscan, Line.split_line hothers hnewline]
    rfl
  have hline : lineOf file text = ⟨tokens, ⟨some .newline, newline.span⟩⟩ := by
    simp only [lineOf, hself, List.head_cons]
  have hended : Ended (text ++ ['\n']) := by
    intro c hc
    rw [List.getLast?_concat] at hc
    exact (Option.some.inj hc).symm
  obtain ⟨lines, hlines⟩ := exists_linesOf_append file hended
  have hfirst := hlines []
  rw [List.append_nil, hself, linesOf_nil] at hfirst
  refine ⟨⟨newline, by rw [hline]; exact hscan, hnewline⟩, fun second => ?_⟩
  obtain rfl : [(⟨tokens, ⟨some .newline, newline.span⟩⟩ : Line)] = lines :=
    List.append_inj_left' hfirst rfl
  rw [hlines, hline]
  rfl

/-- What is read of the line that a text is by itself. -/
def readingOf (bank? : Option Bank) (file : Nat) (line : String) : LineReading :=
  (lineOf file line.toList).read bank?

/-- What is read of every line of a text. -/
def readings (bank? : Option Bank) (file : Nat) (source : String) : List LineReading :=
  (linesOf file source.toList).map (Line.read bank?)

theorem readings_ofLines_cons {line : String} (h : '\n' ∉ line.toList) (lines : List String) :
    readings bank? file (Report.ofLines (line :: lines)) =
      readingOf bank? file line :: (readings bank? file (Report.ofLines lines)).map
        (LineReading.shift (byteLength (line.toList ++ ['\n']))) := by
  have htext : (Report.ofLines (line :: lines)).toList =
      line.toList ++ ['\n'] ++ (Report.ofLines lines).toList := by
    simp [Report.ofLines, String.join_cons]
  rw [readings, readings, htext, (linesOf_line file h).2, List.map_cons, Line.map_read_shift]
  rfl

theorem readings_ofLines_nil : readings bank? file (Report.ofLines []) = [⟨[], none, []⟩] := by
  show (linesOf file []).map (Line.read bank?) = _
  rw [linesOf_nil]
  rfl

/-- What the lines say, wherever they stand. -/
def itemsOf (bank? : Option Bank) (file : Nat) (lines : List String) : List Item :=
  lines.filterMap fun line => (readingOf bank? file line).said?

theorem filterMap_said?_readings {lines : List String}
    (h : ∀ line ∈ lines, '\n' ∉ line.toList) :
    (readings bank? file (Report.ofLines lines)).filterMap LineReading.said? =
      itemsOf bank? file lines := by
  induction lines with
  | nil => rw [readings_ofLines_nil]; rfl
  | cons line lines ih =>
    obtain ⟨hline, hlines⟩ := List.forall_mem_cons.1 h
    have hshift (distance : Nat) :
        LineReading.said? ∘ LineReading.shift distance = LineReading.said? :=
      funext fun _ => LineReading.said?_shift
    rw [readings_ofLines_cons hline, itemsOf, List.filterMap_cons, List.filterMap_cons,
      List.filterMap_map, hshift, ih hlines]
    rfl

theorem forall_faultless_readings_iff {lines : List String}
    (h : ∀ line ∈ lines, '\n' ∉ line.toList) :
    (∀ reading ∈ readings bank? file (Report.ofLines lines), reading.Faultless) ↔
      ∀ line ∈ lines, (readingOf bank? file line).Faultless := by
  induction lines with
  | nil => simp [readings_ofLines_nil, LineReading.Faultless]
  | cons line lines ih =>
    obtain ⟨hline, hlines⟩ := List.forall_mem_cons.1 h
    rw [readings_ofLines_cons hline, List.forall_mem_cons, List.forall_mem_cons,
      List.forall_mem_map, ← ih hlines]
    simp only [LineReading.faultless_shift]

theorem map_fst_items_readings {lines : List String} (h : ∀ line ∈ lines, '\n' ∉ line.toList) :
    ((readings bank? file (Report.ofLines lines)).filterMap LineReading.item?).map Prod.fst =
      itemsOf bank? file lines := by
  rw [List.map_filterMap]
  exact filterMap_said?_readings h

theorem parse_eq_iff_readings {source : String} {listing : Listing} :
    parse source file bank? = ⟨listing, []⟩ ↔
      (∀ reading ∈ readings bank? file source, reading.Faultless) ∧
        (assignedRegisters ((readings bank? file source).filterMap LineReading.item?)).Nodup ∧
        listing = ofItems ((readings bank? file source).filterMap LineReading.item?) := by
  have honce {items : List (Item × Span)} :
      AssignedOnce [] items ↔ (assignedRegisters items).Nodup :=
    and_iff_left fun _ _ => List.forall_mem_nil _
  rw [parse, parseLines, ← honce]
  exact join_settleLines_eq_iff

/-- A text made of lines parses without a diagnostic exactly if each line by itself is read without
one and no register is assigned twice. -/
theorem diagnostics_parse_ofLines_eq_nil_iff {lines : List String}
    (h : ∀ line ∈ lines, '\n' ∉ line.toList) :
    (parse (Report.ofLines lines) file bank?).diagnostics = [] ↔
      (∀ line ∈ lines, (readingOf bank? file line).Faultless) ∧
        ((itemsOf bank? file lines).filterMap Item.assigned?).Nodup := by
  rw [← map_fst_items_readings h, ← assignedRegisters_eq, ← forall_faultless_readings_iff h]
  constructor
  · intro hclean
    obtain ⟨hfaultless, hnodup, -⟩ := parse_eq_iff_readings.1
      (show parse (Report.ofLines lines) file bank? = ⟨_, []⟩ by rw [← hclean])
    exact ⟨hfaultless, hnodup⟩
  · rintro ⟨hfaultless, hnodup⟩
    rw [parse_eq_iff_readings.2 ⟨hfaultless, hnodup, rfl⟩]

/-- The listing of a text made of lines is what the lines say. -/
theorem listing_of_ofLines {lines : List String} (h : ∀ line ∈ lines, '\n' ∉ line.toList)
    (hclean : (parse (Report.ofLines lines) file bank?).diagnostics = []) :
    (parse (Report.ofLines lines) file bank?).listing.instructions =
        (itemsOf bank? file lines).filterMap Item.instr? ∧
      (parse (Report.ofLines lines) file bank?).listing.allocation =
        .ofPairs ((itemsOf bank? file lines).filterMap Item.pair?) := by
  obtain ⟨-, -, hlisting⟩ := parse_eq_iff_readings.1
    (show parse (Report.ofLines lines) file bank? = ⟨_, []⟩ by rw [← hclean])
  rw [hlisting, allocation, pairs_ofItems, instructions_ofItems, map_fst_items_readings h]
  exact ⟨rfl, rfl⟩

end Listing

/-! ## Lines that start with a register -/

/-- The kinds of the tokens do not depend on where the text stands. -/
theorem Token.map_kind_scan (file other offset : Nat) (text : List Char) :
    (scan file offset text).map kind = (scan other offset text).map kind := by
  fun_induction scan file offset text with
  | case1 offset => rw [scan]
  | case2 offset c rest lexeme text stop later kind hkind ih =>
    rw [scan]
    simp only [lexeme, text, stop, later] at *
    rw [hkind, List.map_cons, List.map_cons, ih]
  | case3 offset c rest lexeme text stop later hkind ih =>
    rw [scan]
    simp only [lexeme, text, stop, later] at *
    rw [hkind, ih]

/-- The first token of the line is a register. -/
def startsWithRegister (line : String) : Bool :=
  (Token.scan 0 0 (line ++ "\n").toList).head?.any fun token => token.kind = .register

namespace Listing

variable {file : Nat} {bank? : Option Bank}

/-- A line that says something starts with a register exactly if it says an assignment. -/
theorem startsWithRegister_of_said? {line : String} (h : '\n' ∉ line.toList) {item : Item}
    (hsaid : (readingOf bank? file line).said? = some item) :
    startsWithRegister line = item.assigned?.isSome := by
  obtain ⟨⟨said, span⟩, hitem, rfl⟩ := Option.map_eq_some_iff.1 hsaid
  obtain ⟨-, tokens, rest, hsentence, htokens⟩ := Line.sentence_of_item hitem
  obtain ⟨newline, hscan, -⟩ := (linesOf_line file h).1
  have hkinds := Token.map_kind_scan 0 file 0 (line ++ "\n").toList
  have hhead : startsWithRegister line =
      ((Token.scan 0 0 (line ++ "\n").toList).map Token.kind).head?.any (· = .register) := by
    rw [startsWithRegister, List.head?_map, Option.any_map]
  rw [hhead, hkinds, String.toList_append]
  show ((Token.scan file 0 (line.toList ++ ['\n'])).map Token.kind).head?.any _ = _
  rw [hscan, htokens]
  cases hsentence with
  | instr hcalls hphrase => simp [hcalls.1, Item.assigned?]
  | assignment hleft harrow hright => simp [hleft.1, Item.assigned?]

/-- The instructions are said by the lines that do not start with a register. -/
theorem filterMap_instr?_itemsOf {lines : List String} (h : ∀ line ∈ lines, '\n' ∉ line.toList) :
    (itemsOf bank? file lines).filterMap Item.instr? =
      (itemsOf bank? file (lines.filter fun line => !startsWithRegister line)).filterMap
        Item.instr? := by
  rw [itemsOf, itemsOf, List.filterMap_filterMap, List.filterMap_filterMap, List.filterMap_filter]
  apply List.filterMap_congr
  intro line hmem
  cases hsaid : (readingOf bank? file line).said? with
  | none => simp
  | some item =>
    rw [startsWithRegister_of_said? (h line hmem) hsaid]
    cases item <;> rfl

/-- The usage report of a listing is about its instructions alone. -/
theorem usageReport_congr {a b : Listing} (h : a.instructions = b.instructions) :
    a.usageReport = b.usageReport := by
  have hlength : a.insts.length = b.insts.length := by
    simpa [instructions] using congrArg List.length h
  rw [usageReport, usageReport, h, hlength]

/-- The substitution report of a listing is about its instructions and its allocation. -/
theorem substitutionReport_congr {a b : Listing} (h : a.instructions = b.instructions)
    (hallocation : a.allocation = b.allocation) : a.substitutionReport = b.substitutionReport := by
  have hlength : a.insts.length = b.insts.length := by
    simpa [instructions] using congrArg List.length h
  rw [substitutionReport, substitutionReport, h, hlength, hallocation]

/-- Where the lines that start with a register stand does not count. If a text made of lines parses
without a diagnostic, so does every text with its lines in another order, as long as those that do
not start with a register keep theirs. The listing then has the same instructions and the same
allocation, and both reports exist and are the same, as is therefore what they end with and
their text. -/
theorem report_of_permuted_lines {lines permuted : List String}
    (hlines : ∀ line ∈ lines, '\n' ∉ line.toList) (hperm : permuted.Perm lines)
    (hkept : permuted.filter (fun line => !startsWithRegister line) =
      lines.filter fun line => !startsWithRegister line)
    (hclean : (parse (Report.ofLines lines) file bank?).diagnostics = []) :
    let before := parse (Report.ofLines lines) file bank?
    let after := parse (Report.ofLines permuted) file bank?
    after.diagnostics = [] ∧ after.listing.allocation = before.listing.allocation ∧
      after.listing.instructions = before.listing.instructions ∧
      (∃ report, before.listing.substitutionReport.outcome = .ok report ∧
        after.listing.substitutionReport.outcome = .ok report) ∧
      ∃ report, before.listing.usageReport.outcome = .ok report ∧
        after.listing.usageReport.outcome = .ok report := by
  have hpermuted : ∀ line ∈ permuted, '\n' ∉ line.toList :=
    fun line hmem => hlines line (hperm.mem_iff.1 hmem)
  have hitems : (itemsOf bank? file permuted).Perm (itemsOf bank? file lines) := hperm.filterMap _
  obtain ⟨hfaultless, hnodup⟩ := (diagnostics_parse_ofLines_eq_nil_iff hlines).1 hclean
  have hafter : (parse (Report.ofLines permuted) file bank?).diagnostics = [] :=
    (diagnostics_parse_ofLines_eq_nil_iff hpermuted).2
      ⟨fun line hmem => hfaultless line (hperm.mem_iff.1 hmem),
        (hitems.filterMap _).nodup_iff.2 hnodup⟩
  obtain ⟨hinsts, hallocation⟩ := listing_of_ofLines hlines hclean
  obtain ⟨hinsts', hallocation'⟩ := listing_of_ofLines hpermuted hafter
  have hsame : (parse (Report.ofLines permuted) file bank?).listing.instructions =
      (parse (Report.ofLines lines) file bank?).listing.instructions := by
    rw [hinsts, hinsts', filterMap_instr?_itemsOf hlines, filterMap_instr?_itemsOf hpermuted, hkept]
  -- Every register is assigned once, so that the order of the assignments does not count either.
  have hmap : (parse (Report.ofLines permuted) file bank?).listing.allocation =
      (parse (Report.ofLines lines) file bank?).listing.allocation := by
    rw [hallocation, hallocation']
    exact Allocation.ofPairs_eq_of_perm (Item.nodup_keys_of_nodup hnodup) (hitems.filterMap _)
  have hsound := sound_parse (Report.ofLines lines) file bank?
  intro before after
  refine ⟨hafter, hmap, hsame, ?_, ?_⟩
  · obtain ⟨report, hreport, -⟩ := hsound.exists_report
    exact ⟨report, hreport, by rw [substitutionReport_congr hsame hmap]; exact hreport⟩
  · obtain ⟨report, hreport⟩ := hsound.exists_usageReport
    exact ⟨report, hreport, by rw [usageReport_congr hsame]; exact hreport⟩

/-- An assignment below the instructions that use it, moved to the top past another one. -/
theorem report_of_permuted_lines_sample :
    let lines := ["%vR1 -> %R2", "mov %vR0, %vR1", "# done", "%vR0 -> %R3"]
    let permuted := ["%vR0 -> %R3", "mov %vR0, %vR1", "%vR1 -> %R2", "# done"]
    (parse (Report.ofLines lines) 0 none).diagnostics = [] ∧
      (parse (Report.ofLines permuted) 0 none).diagnostics = [] ∧
      (parse (Report.ofLines permuted) 0 none).listing.allocation =
        (parse (Report.ofLines lines) 0 none).listing.allocation ∧
      ∃ report, (parse (Report.ofLines lines) 0 none).listing.substitutionReport.outcome =
          .ok report ∧
        (parse (Report.ofLines permuted) 0 none).listing.substitutionReport.outcome =
          .ok report := by
  intro lines permuted
  have hlines : ∀ line ∈ lines, '\n' ∉ line.toList := by decide
  have hperm : permuted.Perm lines := by decide
  have hkept : permuted.filter (fun line => !startsWithRegister line) =
      lines.filter fun line => !startsWithRegister line := by decide +kernel
  have hclean : (parse (Report.ofLines lines) 0 none).diagnostics = [] := by decide +kernel
  obtain ⟨hafter, hallocation, -, hreport, -⟩ :=
    report_of_permuted_lines hlines hperm hkept hclean
  exact ⟨hclean, hafter, hallocation, hreport⟩

end Listing

end RegisterMapping
