import RegisterMapping.Proofs.Listing.Acceptance
import RegisterMapping.Proofs.Listing.Lexing
import RegisterMapping.Proofs.Listing.Shift

/-!
# One text behind another

A line is read by itself, whatever stands before it and behind it. So a text whose last line is
ended can be put in front of another text, and what is found is what is found in each of them, the
second one being further down the file (`parse_append`). One rule alone reaches over lines: a
register that the first text assigns is not assigned again.

The tokens of the two texts do not run together, since a line feed is the end of a newline token and
of nothing else (`Token.scan_append`); the lines of the first text are all ended by such tokens
(`Listing.exists_linesOf_append`). What lines add behind a text is compared with what they add on
their own in `Behind`, one line at a time.
-/

set_option autoImplicit false

namespace RegisterMapping

/-! ## Tokens of ended lines -/

/-- The lines of the text are all ended: its last character, if it has one, is a line feed. -/
def Ended (text : List Char) : Prop := ∀ c ∈ text.getLast?, c = '\n'

namespace Ended

theorem drop {text : List Char} (h : Ended text) (n : Nat) : Ended (text.drop n) := by
  intro c hc
  rw [List.getLast?_drop] at hc
  split at hc
  · cases hc
  · exact h c hc

theorem of_cons {c : Char} {rest : List Char} (h : Ended (c :: rest)) : Ended rest := h.drop 1

theorem mem {text : List Char} (h : Ended text) (hne : text ≠ []) : '\n' ∈ text := by
  have hlast := List.getLast?_eq_some_getLast hne
  have hfeed : text.getLast hne = '\n' := h _ hlast
  rw [← hfeed]
  exact List.getLast_mem hne

end Ended

/-- A run of characters that ends within a text ends there whatever follows the text. -/
theorem frontLength_append_of_mem {p : Char → Bool} {text : List Char} {stop : Char}
    (hmem : stop ∈ text) (hstop : p stop = false) (tail : List Char) :
    frontLength p (text ++ tail) = frontLength p text := by
  induction text with
  | nil => cases hmem
  | cons c text ih =>
    by_cases hc : p c = true
    · have hne : stop ≠ c := by
        rintro rfl
        rw [hstop] at hc
        cases hc
      have hrest : stop ∈ text := (List.mem_cons.1 hmem).resolve_left hne
      rw [List.cons_append, frontLength_cons_of_pos hc, frontLength_cons_of_pos hc, ih hrest]
    · simp only [frontLength, List.cons_append, List.takeWhile_cons, if_neg hc]

namespace Lexeme

variable {c : Char} {rest : List Char}

/-- What a text starts with depends on what follows only by how far runs of characters go that no
line break belongs to, and by the second character of those two that belong together. -/
theorem first_congr {other : List Char}
    (hrun : ∀ p : Char → Bool, p '\n' = false → p '\r' = false →
      frontLength p other = frontLength p rest)
    (harrow : other.head? = some '>' ↔ rest.head? = some '>')
    (hreturn : c = '\r' → (other.head? = some '\n' ↔ rest.head? = some '\n')) :
    first c other = first c rest := by
  rw [first, first, hrun isBlank rfl rfl, hrun (fun e => !isLineBreak e) rfl rfl,
    hrun isWordChar rfl rfl, hrun isNumberChar rfl rfl]
  simp only [harrow]
  by_cases hc : c = '\r'
  · simp only [hreturn hc]
  · simp only [if_neg hc]

/-- What an ended text starts with does not depend on what follows the text. -/
theorem first_append (h : Ended (c :: rest)) (tail : List Char) :
    first c (rest ++ tail) = first c rest := by
  cases rest with
  | nil =>
    obtain rfl : c = '\n' := h c rfl
    rfl
  | cons d rest =>
    have hmem : '\n' ∈ d :: rest := h.of_cons.mem (List.cons_ne_nil _ _)
    -- Every run of characters ends before the line feed.
    exact first_congr (fun p hp _ => frontLength_append_of_mem hmem hp tail) Iff.rfl
      fun _ => Iff.rfl

end Lexeme

namespace Token

/-- Two texts are cut into their own tokens if nothing in the first one goes on in the second. -/
theorem scan_append_of_first (file : Nat) {tail : List Char} : ∀ (offset : Nat) (text : List Char),
    (∀ c rest, c :: rest <:+ text → Lexeme.first c (rest ++ tail) = Lexeme.first c rest) →
      scan file offset (text ++ tail) =
        scan file offset text ++ scan file (offset + byteLength text) tail
  | offset, [], _ => by
    rw [scan]
    rfl
  | offset, c :: rest, h => by
    have hle := (Lexeme.keepsLine_first c rest).1
    have hlength : byteLength (c :: rest) =
        byteLength (c :: rest.take (Lexeme.first c rest).extra) +
          byteLength (rest.drop (Lexeme.first c rest).extra) := by
      rw [← byteLength_append, List.cons_append, List.take_append_drop]
    have hrest := scan_append_of_first file
      (offset + byteLength (c :: rest.take (Lexeme.first c rest).extra))
      (rest.drop (Lexeme.first c rest).extra) fun d later hlater =>
        h d later ((hlater.trans (List.drop_suffix _ _)).trans (List.suffix_cons c rest))
    rw [List.cons_append, scan_cons, scan_cons, h c rest List.suffix_rfl,
      List.take_append_of_le_length hle, List.drop_append_of_le_length hle, hrest, hlength,
      List.append_assoc, Nat.add_assoc]
  termination_by _ text => text.length
  decreasing_by
    simp only [List.length_drop, List.length_cons]
    omega

/-- An ended text is cut into the same tokens whatever follows it. -/
theorem scan_append (file : Nat) (tail : List Char) (offset : Nat) {text : List Char}
    (h : Ended text) :
    scan file offset (text ++ tail) =
      scan file offset text ++ scan file (offset + byteLength text) tail := by
  apply scan_append_of_first
  intro c rest hsuffix
  apply Lexeme.first_append
  rw [List.suffix_iff_eq_drop.1 hsuffix]
  exact h.drop _

/-- The last token of an ended text is a newline. -/
theorem exists_scan_eq_append (file : Nat) : ∀ (offset : Nat) (text : List Char), Ended text →
    text ≠ [] →
      ∃ front newline, scan file offset text = front ++ [newline] ∧ newline.kind = .newline
  | _, [], _, hne => absurd rfl hne
  | offset, c :: rest, h, hne => by
    have hkeeps := (Lexeme.keepsLine_first c rest).2
    rw [scan_cons]
    by_cases hnil : rest.drop (Lexeme.first c rest).extra = []
    -- The first lexeme is the whole text, so it holds a line feed.
    · have htake : rest.take (Lexeme.first c rest).extra = rest :=
        List.take_of_length_le (List.drop_eq_nil_iff.1 hnil)
      have hkind : (Lexeme.first c rest).kind = some .newline := by
        by_contra hother
        have hfeed := hkeeps hother
        rw [htake] at hfeed
        exact hfeed (h.mem hne)
      rw [hnil, hkind, scan, List.append_nil]
      exact ⟨[], _, rfl, rfl⟩
    · obtain ⟨front, newline, hscan, hkind⟩ := exists_scan_eq_append file
        (offset + byteLength (c :: rest.take (Lexeme.first c rest).extra))
        (rest.drop (Lexeme.first c rest).extra) (h.of_cons.drop _) hnil
      rw [hscan, ← List.append_assoc]
      exact ⟨_, newline, rfl, hkind⟩
  termination_by _ text => text.length
  decreasing_by
    simp only [List.length_drop, List.length_cons]
    omega

end Token

/-! ## Lines behind lines -/

/-- Up to a newline the lines do not depend on what comes after it. -/
theorem Line.exists_split_append {newline : Token} (hkind : newline.kind = .newline)
    (front : List Token) :
    ∃ line lines, ∀ endOfFile tail,
      split endOfFile (front ++ newline :: tail) = line :: lines ++ split endOfFile tail := by
  induction front with
  | nil =>
    refine ⟨⟨[], ⟨some .newline, newline.span⟩⟩, [], ?_⟩
    intro endOfFile tail
    rw [List.nil_append, split, if_pos hkind]
    rfl
  | cons token front ih =>
    obtain ⟨line, lines, hsplit⟩ := ih
    by_cases h : token.kind = .newline
    · refine ⟨⟨[], ⟨some .newline, token.span⟩⟩, line :: lines, ?_⟩
      intro endOfFile tail
      rw [List.cons_append, split, if_pos h, hsplit]
      rfl
    · refine ⟨cons token line, lines, ?_⟩
      intro endOfFile tail
      rw [List.cons_append, split, if_neg h, hsplit]
      rfl

/-- The lines of an ended text are the first lines of any text that starts with it; the lines that
follow them are those of the other part of the text, further down the file. -/
theorem Listing.exists_linesOf_append (file : Nat) {first : List Char} (h : Ended first) :
    ∃ lines, ∀ second, linesOf file (first ++ second) =
      lines ++ (linesOf file second).map (Line.shift (byteLength first)) := by
  -- The end of the file and the tokens of the second text are moved by the first text.
  have hbehind : ∀ second : List Char,
      Line.split ⟨file, byteLength (first ++ second), byteLength (first ++ second)⟩
          (Token.scan file (byteLength first) second) =
        (linesOf file second).map (Line.shift (byteLength first)) := by
    intro second
    have hscan := Token.scan_add (byteLength first) file 0 second
    rw [Nat.zero_add] at hscan
    rw [linesOf, ← Line.split_shift, hscan, Span.shift, byteLength_append, Nat.add_comm]
  by_cases hne : first = []
  · subst hne
    exact ⟨[], fun second => hbehind second⟩
  · obtain ⟨front, newline, hscan, hkind⟩ := Token.exists_scan_eq_append file 0 first h hne
    obtain ⟨line, lines, hsplit⟩ := Line.exists_split_append hkind front
    refine ⟨line :: lines, ?_⟩
    intro second
    rw [linesOf, Token.scan_append file second 0 h, hscan, List.append_assoc, Nat.zero_add,
      ← hbehind second]
    exact hsplit _ _

/-! ## Settling lines behind a text -/

/-- The diagnostic is about its line alone, and not about a second assignment of a register. -/
def Diagnostic.isLocal (diagnostic : Diagnostic) : Bool := diagnostic.code ≠ "EA03"

/-- Those assignments whose register none of the earlier ones assigns. -/
def freshAssignments (earlier assignments : List Assignment) : List Assignment :=
  assignments.filter fun assignment => assignment.virt ∉ earlier.map Assignment.virt

/-- What lines add on their own, and what they add behind a text that has made the earlier
assignments: the same, so many bytes later, but for assignments of a register that is assigned, and
for what is said about them. -/
structure Behind (distance : Nat) (earlier : List Assignment) (alone behind : ParsedListing) :
    Prop where
  insts : behind.listing.insts = alone.listing.insts.map (shiftPlace distance)
  diagnostics : behind.diagnostics.filter Diagnostic.isLocal =
    (alone.diagnostics.filter Diagnostic.isLocal).map (Diagnostic.shift distance)
  assignments : behind.listing.assignments =
    (freshAssignments earlier alone.listing.assignments).map (Assignment.shift distance)

section Settling

variable {distance : Nat} {earlier : List Assignment}

theorem freshAssignments_append (earlier front back : List Assignment) :
    freshAssignments earlier (front ++ back) =
      freshAssignments earlier front ++ freshAssignments earlier back :=
  List.filter_append ..

theorem freshAssignments_of_mem {assignment : Assignment}
    (h : assignment.virt ∈ earlier.map Assignment.virt) :
    freshAssignments earlier [assignment] = [] := by
  rw [freshAssignments, List.filter_cons_of_neg (by simpa using h), List.filter_nil]

theorem freshAssignments_of_not_mem {assignment : Assignment}
    (h : assignment.virt ∉ earlier.map Assignment.virt) :
    freshAssignments earlier [assignment] = [assignment] := by
  rw [freshAssignments, List.filter_cons_of_pos (by simpa using h), List.filter_nil]

/-- Where an assignment stands plays no part in whether it is fresh. -/
theorem freshAssignments_shift (earlier assignments : List Assignment) :
    freshAssignments earlier (assignments.map (Assignment.shift distance)) =
      (freshAssignments earlier assignments).map (Assignment.shift distance) := by
  rw [freshAssignments, List.filter_map]
  rfl

theorem filter_isLocal_shift (diagnostics : List Diagnostic) :
    (diagnostics.map (Diagnostic.shift distance)).filter Diagnostic.isLocal =
      (diagnostics.filter Diagnostic.isLocal).map (Diagnostic.shift distance) := by
  have hlocal : Diagnostic.isLocal ∘ Diagnostic.shift distance = Diagnostic.isLocal := by
    funext diagnostic
    rw [Function.comp_apply, Diagnostic.isLocal, Diagnostic.code_shift, Diagnostic.isLocal]
  rw [List.filter_map, hlocal]

theorem behind_empty : Behind distance earlier .empty .empty := ⟨rfl, rfl, rfl⟩

theorem Behind.append {a a' b b' : ParsedListing} (ha : Behind distance earlier a a')
    (hb : Behind distance earlier b b') : Behind distance earlier (a.append b) (a'.append b') where
  insts := by
    simp only [ParsedListing.append, ha.insts, hb.insts, List.map_append]
  diagnostics := by
    simp only [ParsedListing.append, List.filter_append, ha.diagnostics, hb.diagnostics,
      List.map_append]
  assignments := by
    simp only [ParsedListing.append, freshAssignments_append, ha.assignments, hb.assignments,
      List.map_append]

/-- A register that the text before does not assign is found among the assignments of the lines
alone, or not at all. -/
theorem find?_append_of_fresh {virt : Register} (h : Handle.reg virt ∉ earlier.map Assignment.virt)
    (before : List Assignment) :
    ((earlier ++ (freshAssignments earlier before).map (Assignment.shift distance)).find?
        fun assignment => assignment.virt = .reg virt) =
      (before.find? fun assignment => assignment.virt = .reg virt).map
        (Assignment.shift distance) := by
  have hearlier : (earlier.find? fun assignment => assignment.virt = .reg virt) = none := by
    rw [List.find?_eq_none]
    intro assignment hmem hvirt
    exact h (List.mem_map.2 ⟨assignment, hmem, of_decide_eq_true hvirt⟩)
  rw [List.find?_append, hearlier, Option.none_or, List.find?_map, freshAssignments,
    List.find?_filter]
  congr 2
  funext assignment
  by_cases hvirt : assignment.virt = .reg virt
  · simp [Assignment.shift, hvirt, h]
  · simp [Assignment.shift, hvirt]

theorem find?_append_of_assigned {virt : Register}
    (h : Handle.reg virt ∈ earlier.map Assignment.virt) (later : List Assignment) :
    ∃ first, ((earlier ++ later).find? fun assignment => assignment.virt = .reg virt) =
      some first := by
  obtain ⟨assignment, hmem, hvirt⟩ := List.mem_map.1 h
  rw [← Option.isSome_iff_exists, List.find?_isSome]
  exact ⟨assignment, List.mem_append_left _ hmem, decide_eq_true hvirt⟩

theorem filter_isLocal_told (distance : Nat) (front back : List Diagnostic) :
    (front.map (Diagnostic.shift distance) ++ back.map (Diagnostic.shift distance)).filter
        Diagnostic.isLocal =
      ((front ++ back).filter Diagnostic.isLocal).map (Diagnostic.shift distance) := by
  rw [← List.map_append, filter_isLocal_shift]

/-- That an assignment is a second one is not local. -/
theorem filter_isLocal_assignedTwice (front back : List Diagnostic) (virt : Register)
    (first span : Span) :
    (front ++ ⟨.assignedTwice virt first, span⟩ :: back).filter Diagnostic.isLocal =
      (front ++ back).filter Diagnostic.isLocal := by
  rw [List.filter_append, List.filter_append]
  rfl

/-- What one line adds behind a text, and behind those of its lines that came before. -/
theorem LineReading.behind_settle (distance : Nat) (reading : LineReading)
    (earlier before : List Assignment) :
    Behind distance earlier (reading.settle before) ((reading.shift distance).settle
      (earlier ++ (freshAssignments earlier before).map (Assignment.shift distance))) := by
  obtain ⟨diagnostics, item?, trailing⟩ := reading
  have htold := filter_isLocal_told distance diagnostics trailing
  cases item? with
  | none => exact ⟨rfl, htold, rfl⟩
  | some placed =>
    obtain ⟨item, span⟩ := placed
    cases item with
    | instr inst => exact ⟨rfl, htold, rfl⟩
    | assignment virt real =>
      simp only [settle, shift, Option.map_some, shiftPlace]
      by_cases h : Handle.reg virt ∈ earlier.map Assignment.virt
      -- The text before assigns the register, so behind it the assignment is a second one.
      · obtain ⟨first, hfirst⟩ := find?_append_of_assigned h
          ((freshAssignments earlier before).map (Assignment.shift distance))
        rw [hfirst]
        cases before.find? fun assignment => assignment.virt = .reg virt with
        | some second =>
          refine ⟨rfl, ?_, rfl⟩
          rw [filter_isLocal_assignedTwice, filter_isLocal_assignedTwice, htold]
        | none =>
          refine ⟨rfl, ?_, ?_⟩
          · rw [filter_isLocal_assignedTwice, htold]
          · rw [freshAssignments_of_mem h]
            rfl
      -- Otherwise it is a second one behind the text if it is so among the lines alone.
      · rw [find?_append_of_fresh h]
        cases before.find? fun assignment => assignment.virt = .reg virt with
        | some second =>
          refine ⟨rfl, ?_, rfl⟩
          rw [Option.map_some, filter_isLocal_assignedTwice, filter_isLocal_assignedTwice, htold]
        | none =>
          refine ⟨rfl, htold, ?_⟩
          rw [freshAssignments_of_not_mem h]
          rfl

/-- What lines add behind a text, compared line by line. -/
theorem behind_settleLines (distance : Nat) (readings : List LineReading)
    (earlier before : List Assignment) :
    Behind distance earlier (ParsedListing.join (settleLines before readings))
      (ParsedListing.join (settleLines
        (earlier ++ (freshAssignments earlier before).map (Assignment.shift distance))
        (readings.map (LineReading.shift distance)))) := by
  induction readings generalizing before with
  | nil => exact behind_empty
  | cons reading rest ih =>
    have hline := reading.behind_settle distance earlier before
    have hrest := ih (before ++ (reading.settle before).listing.assignments)
    rw [freshAssignments_append, List.map_append, ← List.append_assoc, ← hline.assignments]
      at hrest
    exact hline.append hrest

end Settling

/-! ## Lines in front of lines -/

namespace ParsedListing

theorem append_assoc (a b c : ParsedListing) : (a.append b).append c = a.append (b.append c) := by
  simp [append]

theorem empty_append (a : ParsedListing) : empty.append a = a := rfl

theorem append_empty (a : ParsedListing) : a.append empty = a := by
  simp [append, empty, Listing.empty]

theorem join_append (front back : List ParsedListing) :
    join (front ++ back) = (join front).append (join back) := by
  induction front with
  | nil => exact (empty_append _).symm
  | cons part front ih =>
    rw [List.cons_append, join_cons, join_cons, ih, append_assoc]

end ParsedListing

theorem settleLines_append (earlier : List Assignment) (front back : List LineReading) :
    settleLines earlier (front ++ back) = settleLines earlier front ++
      settleLines (earlier ++ (ParsedListing.join (settleLines earlier front)).listing.assignments)
        back := by
  induction front generalizing earlier with
  | nil =>
    show settleLines earlier back = settleLines (earlier ++ []) back
    rw [List.append_nil]
  | cons reading front ih =>
    rw [List.cons_append, settleLines, settleLines, ih, List.cons_append, ParsedListing.join_cons]
    simp only [ParsedListing.append, List.append_assoc]

/-! ## One text behind another -/

theorem ended_of_eq_append {first : String} (h : first = "" ∨ ∃ lines, first = lines ++ "\n") :
    Ended first.toList := by
  intro c hc
  rcases h with rfl | ⟨lines, rfl⟩
  · cases hc
  · rw [String.toList_append, List.getLast?_append] at hc
    exact (Option.some.inj hc).symm

/-- The readings of an ended text come before those of what follows it; it ends with an empty line,
which adds nothing. -/
theorem Listing.exists_readings_append (file : Nat) (bank? : Option Bank) {first : List Char}
    (h : Ended first) :
    ∃ readings,
      (∀ earlier, ParsedListing.join
          (settleLines earlier ((linesOf file first).map (Line.read bank?))) =
        ParsedListing.join (settleLines earlier readings)) ∧
      ∀ second, (linesOf file (first ++ second)).map (Line.read bank?) =
        readings ++ ((linesOf file second).map (Line.read bank?)).map
          (LineReading.shift (byteLength first)) := by
  obtain ⟨lines, hlines⟩ := exists_linesOf_append file h
  refine ⟨lines.map (Line.read bank?), ?_, ?_⟩
  · intro earlier
    have hempty : linesOf file [] = [⟨[], ⟨none, ⟨file, 0, 0⟩⟩⟩] := by
      rw [linesOf, Token.scan]
      rfl
    have hfirst := hlines []
    rw [List.append_nil, hempty] at hfirst
    rw [hfirst, List.map_append, settleLines_append, ParsedListing.join_append]
    exact ParsedListing.append_empty _
  · intro second
    rw [hlines, List.map_append, Line.map_read_shift]

/-- What a text says does not depend on an ended text before it, and not on what follows an ended
text, except that a register is assigned once: every instruction, every diagnostic that is not about
a second assignment, and every assignment of a register that is not assigned yet is found in the
whole text as it is in one of its parts, and those of the second part by the length of the first
part further down. To be further down changes nothing in what a diagnostic says. -/
theorem parse_append (first second : String) (file : Nat) (bank? : Option Bank)
    (ended : first = "" ∨ ∃ lines, first = lines ++ "\n") :
    let whole := Listing.parse (first ++ second) file bank?
    let front := Listing.parse first file bank?
    let back := (Listing.parse second file bank?).shift first.utf8ByteSize
    whole.listing.insts = front.listing.insts ++ back.listing.insts ∧
      whole.diagnostics.filter Diagnostic.isLocal =
        front.diagnostics.filter Diagnostic.isLocal ++
          back.diagnostics.filter Diagnostic.isLocal ∧
      whole.listing.assignments = front.listing.assignments ++
        back.listing.assignments.filter (fun assignment =>
          assignment.virt ∉ front.listing.assignments.map Assignment.virt) ∧
      ∀ (distance : Nat) (diagnostic : Diagnostic),
        (diagnostic.shift distance).code = diagnostic.code ∧
          (diagnostic.shift distance).message = diagnostic.message ∧
          (diagnostic.shift distance).notes = diagnostic.notes ∧
          (diagnostic.shift distance).labels = diagnostic.labels.map (Label.shift distance) := by
  obtain ⟨readings, hfirst, hwhole⟩ :=
    Listing.exists_readings_append file bank? (ended_of_eq_append ended)
  have hfront : Listing.parse first file bank? = ParsedListing.join (settleLines [] readings) :=
    hfirst []
  have hlength : byteLength first.toList = first.utf8ByteSize := byteLength_toList first
  have hparse : Listing.parse (first ++ second) file bank? =
      (Listing.parse first file bank?).append (ParsedListing.join
        (settleLines (Listing.parse first file bank?).listing.assignments
          (((Listing.linesOf file second.toList).map (Line.read bank?)).map
            (LineReading.shift first.utf8ByteSize)))) := by
    rw [hfront, Listing.parse, Listing.parseLines, String.toList_append, hwhole, hlength,
      settleLines_append, ParsedListing.join_append]
    rfl
  -- Before the first line of the second text nothing is assigned but what the first text assigns.
  have hbehind := behind_settleLines first.utf8ByteSize
    ((Listing.linesOf file second.toList).map (Line.read bank?))
    (Listing.parse first file bank?).listing.assignments []
  rw [show freshAssignments (Listing.parse first file bank?).listing.assignments [] = [] from rfl,
    List.map_nil, List.append_nil] at hbehind
  intro whole front back
  refine ⟨?_, ?_, ?_, ?_⟩
  · show (Listing.parse (first ++ second) file bank?).listing.insts = _
    rw [hparse]
    exact congrArg _ hbehind.insts
  · show (Listing.parse (first ++ second) file bank?).diagnostics.filter _ = _
    rw [hparse]
    refine (List.filter_append ..).trans (congrArg _ (hbehind.diagnostics.trans ?_))
    exact (filter_isLocal_shift _).symm
  · show (Listing.parse (first ++ second) file bank?).listing.assignments = _
    rw [hparse]
    refine congrArg _ (hbehind.assignments.trans ?_)
    exact (freshAssignments_shift _ _).symm
  · intro distance diagnostic
    exact ⟨diagnostic.code_shift, diagnostic.message_shift, diagnostic.notes_shift,
      diagnostic.labels_shift⟩

/-- Behind a faulty line and an assignment: the second assignment of a register is left out, the
fault behind the first assignment of another one stays, and so does what is said of the last line,
which the end of the file ends. -/
theorem parse_append_sample :
    (∃ lines, "mov %vR0\n%vR1 -> %R2\n" = lines ++ "\n") ∧
      (Listing.parse ("mov %vR0\n%vR1 -> %R2\n" ++ "%vR1 -> %R3\n%vR2 -> %R3 9\nmov %vR2,") 0
          none).listing.assignments =
        [⟨.reg ⟨.int64, true, 1, by decide⟩, .reg ⟨.int64, false, 2, by decide⟩, ⟨0, 9, 20⟩⟩,
          ⟨.reg ⟨.int64, true, 2, by decide⟩, .reg ⟨.int64, false, 3, by decide⟩, ⟨0, 33, 44⟩⟩] ∧
      (Listing.parse ("mov %vR0\n%vR1 -> %R2\n" ++ "%vR1 -> %R3\n%vR2 -> %R3 9\nmov %vR2,") 0
          none).diagnostics.filter Diagnostic.isLocal =
        [⟨.expected .comma (some .newline), ⟨0, 8, 9⟩⟩, ⟨.expectedLineEnd, ⟨0, 45, 46⟩⟩,
          ⟨.expected .register none, ⟨0, 56, 56⟩⟩] := by
  have hended : ∃ lines, "mov %vR0\n%vR1 -> %R2\n" = lines ++ "\n" :=
    ⟨"mov %vR0\n%vR1 -> %R2", rfl⟩
  have happend := parse_append "mov %vR0\n%vR1 -> %R2\n" "%vR1 -> %R3\n%vR2 -> %R3 9\nmov %vR2," 0
    none (.inr hended)
  exact ⟨hended, happend.2.2.1.trans (by decide +kernel), happend.2.1.trans (by decide +kernel)⟩

end RegisterMapping
