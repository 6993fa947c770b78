import RegisterMapping.Proofs.Listing.Concatenation

/-!
# Line endings

How the lines of a text are ended does not matter. With a carriage return in front of every line
feed a text says the same, further down by one byte for every line feed before
(`Listing.parse_withReturns`). With a line feed behind it a text says the same as well, except that
where something is missing in the last line, it is the end of the line that is found and no longer
the end of the file (`Listing.parse_newline`).

In both cases the text is cut into the same tokens, in other places, or with one more newline behind
them, and what follows from that is the matter of displacements.
-/

set_option autoImplicit false

namespace RegisterMapping

/-! ## Line feeds with carriage returns -/

/-- The text with a carriage return in front of every line feed. -/
def withReturns (text : List Char) : List Char :=
  text.flatMap fun c => if c = '\n' then ['\r', '\n'] else [c]

/-- The number of line feeds of the text that stand before a byte offset. -/
def feedsBefore : List Char → Nat → Nat
  | [], _ => 0
  | c :: rest, offset =>
    if offset = 0 then 0
    else (if c = '\n' then 1 else 0) + feedsBefore rest (offset - c.utf8Size)

/-- An offset of the text, once there is a carriage return in front of every line feed. -/
def stretched (text : List Char) (offset : Nat) : Nat := offset + feedsBefore text offset

theorem withReturns_append (front rest : List Char) :
    withReturns (front ++ rest) = withReturns front ++ withReturns rest :=
  List.flatMap_append

theorem withReturns_newline (rest : List Char) :
    withReturns ('\n' :: rest) = '\r' :: '\n' :: withReturns rest := rfl

theorem withReturns_cons {c : Char} (h : c ≠ '\n') (rest : List Char) :
    withReturns (c :: rest) = c :: withReturns rest := by
  rw [withReturns, List.flatMap_cons, if_neg h]
  rfl

theorem withReturns_of_not_mem {text : List Char} (h : '\n' ∉ text) : withReturns text = text := by
  induction text with
  | nil => rfl
  | cons c rest ih =>
    rw [List.mem_cons, not_or] at h
    rw [withReturns_cons (Ne.symm h.1), ih h.2]

/-- Characters at the front of a text that are no line feeds stay in front. -/
theorem withReturns_take_drop {text : List Char} {n : Nat} (hle : n ≤ text.length)
    (h : '\n' ∉ text.take n) :
    (withReturns text).take n = text.take n ∧
      (withReturns text).drop n = withReturns (text.drop n) := by
  have hsplit : withReturns text = text.take n ++ withReturns (text.drop n) := by
    conv_lhs => rw [← List.take_append_drop n text, withReturns_append, withReturns_of_not_mem h]
  have hlength : (text.take n).length = n := List.length_take_of_le hle
  rw [hsplit]
  exact ⟨List.take_left' hlength, List.drop_left' hlength⟩

/-! ### Where offsets go -/

theorem feedsBefore_mono (text : List Char) : Monotone (feedsBefore text) := by
  induction text with
  | nil => exact fun _ _ _ => Nat.le_refl 0
  | cons c rest ih =>
    intro a b h
    have hrest := ih (Nat.sub_le_sub_right h c.utf8Size)
    rw [feedsBefore, feedsBefore]
    by_cases ha : a = 0
    · rw [if_pos ha]
      exact Nat.zero_le _
    · have hb : b ≠ 0 := fun hb => ha (Nat.le_zero.1 (hb ▸ h))
      rw [if_neg ha, if_neg hb]
      exact Nat.add_le_add_left hrest _

theorem stretched_mono (text : List Char) : Monotone (stretched text) :=
  fun _ _ h => Nat.add_le_add h (feedsBefore_mono text h)

/-- The line feeds before the end of the front of a text are those of the front. -/
theorem feedsBefore_append (front rest : List Char) :
    feedsBefore (front ++ rest) (byteLength front) = front.count '\n' := by
  induction front with
  | nil => cases rest <;> rfl
  | cons c front ih =>
    have hpos : byteLength (c :: front) ≠ 0 := by
      have hsize := c.utf8Size_pos
      rw [byteLength]
      omega
    have hrest : byteLength (c :: front) - c.utf8Size = byteLength front :=
      Nat.add_sub_cancel_left ..
    rw [List.cons_append, feedsBefore, if_neg hpos, hrest, ih, List.count_cons, Nat.add_comm]
    simp only [beq_iff_eq]

theorem byteLength_withReturns (text : List Char) :
    byteLength (withReturns text) = byteLength text + text.count '\n' := by
  induction text with
  | nil => rfl
  | cons c rest ih =>
    by_cases h : c = '\n'
    · subst h
      have hreturn : '\r'.utf8Size = 1 := rfl
      rw [withReturns_newline, byteLength, byteLength, byteLength, ih, List.count_cons_self]
      omega
    · rw [withReturns_cons h, byteLength, byteLength, ih, List.count_cons_of_ne h]
      omega

/-- The end of the front of a text goes to where the front ends with the carriage returns. -/
theorem stretched_append (front rest : List Char) :
    stretched (front ++ rest) (byteLength front) = byteLength (withReturns front) := by
  rw [stretched, feedsBefore_append, byteLength_withReturns]

/-! ### Tokens -/

theorem frontLength_withReturns {p : Char → Bool} (hfeed : p '\n' = false)
    (hreturn : p '\r' = false) (text : List Char) :
    frontLength p (withReturns text) = frontLength p text := by
  induction text with
  | nil => rfl
  | cons c rest ih =>
    by_cases h : c = '\n'
    · subst h
      have hreturns : frontLength p (withReturns ('\n' :: rest)) = 0 := by
        simp [withReturns_newline, frontLength, hreturn]
      rw [hreturns]
      simp [frontLength, hfeed]
    · rw [withReturns_cons h]
      by_cases hc : p c = true
      · rw [frontLength_cons_of_pos hc, frontLength_cons_of_pos hc, ih]
      · simp [frontLength, hc]

/-- What does not start a line break starts the same token. -/
theorem Lexeme.first_withReturns {c : Char} (h : c ≠ '\r') (rest : List Char) :
    first c (withReturns rest) = first c rest := by
  apply first_congr
  · intro p hfeed hreturn
    exact frontLength_withReturns hfeed hreturn rest
  · cases rest with
    | nil => rfl
    | cons d rest =>
      by_cases hd : d = '\n'
      · subst hd
        simp [withReturns_newline]
      · rw [withReturns_cons hd]
        rfl
  · intro hc
    exact absurd hc h

/-- A token of the text, as it is if there is a carriage return in front of every line feed. -/
def Token.returned (text : List Char) (token : Token) : Token :=
  ⟨token.kind, if token.kind = .newline then ['\r', '\n'] else token.text,
    token.span.move (stretched text)⟩

/-- What a text starts with stays of its kind, and the rest of the text is what comes next. -/
theorem Token.scan_withReturns_cons (file offset : Nat) {c : Char} (h : c ≠ '\r')
    (rest : List Char) :
    let word := c :: rest.take (Lexeme.first c rest).extra
    let stop := offset + byteLength (withReturns word)
    scan file offset (withReturns (c :: rest)) =
      ((Lexeme.first c rest).kind.map fun kind => (⟨kind,
          if kind = .newline then ['\r', '\n'] else word, ⟨file, offset, stop⟩⟩ : Token)).toList ++
        scan file stop (withReturns (rest.drop (Lexeme.first c rest).extra)) := by
  intro word stop
  by_cases hc : c = '\n'
  · subst hc
    rw [withReturns_newline, scan_cons]
    rfl
  · obtain ⟨hle, hkeeps⟩ := Lexeme.keepsLine_first c rest
    have hkind : (Lexeme.first c rest).kind ≠ some .newline := Lexeme.kind_first_ne_newline hc h
    have hword : withReturns word = word := withReturns_of_not_mem (hkeeps hkind)
    -- The word stays as it is, so that the same is taken, and the same is left.
    obtain ⟨htake, hdrop⟩ :=
      withReturns_take_drop hle fun hmem => hkeeps hkind (List.mem_cons_of_mem c hmem)
    rw [withReturns_cons hc, scan_cons, Lexeme.first_withReturns h, htake, hdrop]
    simp only [stop, hword]
    cases hlexeme : (Lexeme.first c rest).kind with
    | none => rfl
    | some kind =>
      have hother : kind ≠ .newline := fun heq => hkind (hlexeme.trans (congrArg some heq))
      rw [Option.map_some, Option.map_some, if_neg hother]

/-- With the carriage returns the text is cut into the same tokens, with longer newlines. -/
theorem Token.scan_withReturns (file : Nat) {text : List Char} :
    ∀ front rest : List Char, front ++ rest = text → '\r' ∉ rest →
      scan file (byteLength (withReturns front)) (withReturns rest) =
        (scan file (byteLength front) rest).map (returned text)
  | front, [], _, _ => by
    show scan file _ [] = (scan file _ []).map _
    rw [scan, scan]
    rfl
  | front, c :: rest, htext, h => by
    obtain ⟨hc, hrest⟩ := List.ne_and_not_mem_of_not_mem_cons h
    have hstep := scan_withReturns_cons file (byteLength (withReturns front)) (Ne.symm hc) rest
    rw [hstep, scan_cons]
    generalize hword : c :: rest.take (Lexeme.first c rest).extra = word
    have hwhole : front ++ word ++ rest.drop (Lexeme.first c rest).extra = text := by
      rw [← hword, List.append_assoc, List.cons_append, List.take_append_drop, htext]
    -- The front of the text gets longer by the word.
    have ih := scan_withReturns file (front ++ word) _ hwhole
      fun hmem => hrest (List.mem_of_mem_drop hmem)
    have hstart := stretched_append front (c :: rest)
    have hstop := stretched_append (front ++ word) (rest.drop (Lexeme.first c rest).extra)
    rw [htext] at hstart
    rw [hwhole] at hstop
    rw [byteLength_append, withReturns_append, byteLength_append] at ih hstop
    rw [ih, List.map_append]
    congr 1
    cases (Lexeme.first c rest).kind with
    | none => rfl
    | some kind =>
      simp only [Option.map_some, Option.toList_some, List.map_cons, List.map_nil, returned,
        Span.move, hstart, hstop]
  termination_by _ rest => rest.length
  decreasing_by
    simp only [List.length_drop, List.length_cons]
    omega

/-! ### Lines -/

/-- With the carriage returns the lines of the text are the same, further down. -/
theorem Listing.linesOf_withReturns (file : Nat) {text : List Char} (h : '\r' ∉ text) :
    linesOf file (withReturns text) =
      (linesOf file text).map (Displacement.byOffset (stretched_mono text)).line := by
  have hend := stretched_append text []
  rw [List.append_nil] at hend
  have hscan := Token.scan_withReturns file [] text rfl h
  rw [linesOf, linesOf, ← Line.split_displaced _ (Token.returned text)]
  · exact congrArg (Line.split _) hscan
  · intro token hnewline
    exact ⟨hnewline, rfl⟩
  · intro token hother
    rw [Token.returned, if_neg hother]
    rfl
  · show (⟨none, ⟨file, stretched text _, stretched text _⟩⟩ : Terminator) = _
    rw [hend]

/-- A carriage return in front of every line feed changes nothing, except that everything is further
down by one byte for every line feed before. -/
theorem Listing.parse_withReturns {source : String} (h : '\r' ∉ source.toList) (file : Nat)
    (bank? : Option Bank) :
    parse (String.ofList (withReturns source.toList)) file bank? =
      (parse source file bank?).move (stretched source.toList) := by
  rw [parse, parseLines, String.toList_ofList, linesOf_withReturns file h, Line.map_read_displaced]
  exact ParsedListing.join_settleLines_displaced _ [] _

/-! ## A line feed at the end -/

/-- What is said at the end of the file is said at the newline that is there instead. -/
def Diagnostic.ended (newline : Span) : Diagnostic → Diagnostic
  | ⟨.expected what none, _⟩ => ⟨.expected what (some .newline), newline⟩
  | diagnostic => diagnostic

/-- The line that the end of the file ends is ended by a newline instead. -/
def Terminator.ended (newline : Span) : Terminator → Terminator
  | ⟨none, _⟩ => ⟨some .newline, newline⟩
  | terminator => terminator

/-- A newline at the end of the file, as a change of what ends the last line. -/
def Displacement.ending (newline : Span) : Displacement where
  span := id
  terminator := Terminator.ended newline
  diagnostic := Diagnostic.ended newline
  cover_span _ _ := rfl
  terminator_newline _ := rfl
  diagnostic_plain {fault} _ h := by
    cases fault with
    | expected what found =>
      cases found with
      | none => cases h
      | some kind => rfl
    | _ => rfl
  diagnostic_expected what line := by
    obtain ⟨kind, span⟩ := line
    cases kind <;> rfl
  diagnostic_assignedTwice _ _ _ := rfl

theorem Displacement.parsed_ending (newline : Span) (parsed : ParsedListing) :
    (ending newline).parsed parsed =
      ⟨parsed.listing, parsed.diagnostics.map (Diagnostic.ended newline)⟩ := by
  obtain ⟨⟨insts, assignments⟩, diagnostics⟩ := parsed
  show (⟨⟨insts.map id, assignments.map id⟩, _⟩ : ParsedListing) = _
  rw [List.map_id, List.map_id]
  rfl

theorem frontLength_newline {p : Char → Bool} (h : p '\n' = false) (text : List Char) :
    frontLength p (text ++ ['\n']) = frontLength p text := by
  induction text with
  | nil => simp [frontLength, h]
  | cons c rest ih =>
    rw [List.cons_append]
    by_cases hc : p c = true
    · rw [frontLength_cons_of_pos hc, frontLength_cons_of_pos hc, ih]
    · simp [frontLength, hc]

/-- What a text starts with is the same with a line feed at the end, unless that would go with a
carriage return. -/
theorem Lexeme.first_newline {c : Char} {rest : List Char} (h : (c :: rest).getLast? ≠ some '\r') :
    first c (rest ++ ['\n']) = first c rest := by
  apply first_congr
  · intro p hfeed _
    exact frontLength_newline hfeed rest
  · cases rest with
    | nil => decide
    | cons d rest => rfl
  · rintro rfl
    cases rest with
    | nil => exact absurd rfl h
    | cons d rest => rfl

/-- With a line feed at the end, the text is cut into the same tokens and a newline. -/
theorem Token.scan_newline (file offset : Nat) {text : List Char} (h : text.getLast? ≠ some '\r') :
    scan file offset (text ++ ['\n']) = scan file offset text ++
      [⟨.newline, ['\n'], ⟨file, offset + byteLength text, offset + byteLength text + 1⟩⟩] := by
  have hnewline (stop : Nat) :
      scan file stop ['\n'] = [⟨.newline, ['\n'], ⟨file, stop, stop + 1⟩⟩] := by
    have hfirst : Lexeme.first '\n' [] = .token .newline 0 := rfl
    rw [scan_cons, hfirst, scan.eq_def]
    rfl
  rw [scan_append_of_first, hnewline]
  rintro c rest ⟨front, rfl⟩
  apply Lexeme.first_newline
  rwa [List.getLast?_append_of_ne_nil _ (List.cons_ne_nil c rest)] at h

/-- With a newline behind the tokens the same lines are ended, and an empty one follows. -/
theorem Line.split_newline {newline : Token} (h : newline.kind = .newline)
    (endOfFile moved : Span) (tokens : List Token) :
    split moved (tokens ++ [newline]) =
      (split endOfFile tokens).map (Displacement.ending newline.span).line ++
        [⟨[], ⟨none, moved⟩⟩] := by
  induction tokens with
  | nil =>
    show split moved [newline] = [⟨[], ⟨some .newline, newline.span⟩⟩, ⟨[], ⟨none, moved⟩⟩]
    rw [split, if_pos h]
    rfl
  | cons token rest ih =>
    rw [List.cons_append, split, split, ih]
    by_cases hkind : token.kind = .newline
    · rw [if_pos hkind, if_pos hkind]
      rfl
    · obtain ⟨line, lines, hsplit⟩ := List.exists_cons_of_ne_nil (split_ne_nil endOfFile rest)
      rw [if_neg hkind, if_neg hkind, hsplit]
      rfl

/-- A line feed at the end of a text changes nothing, except that it is found where the end of the
file was found. -/
theorem Listing.parse_newline {source : String} (h : source.toList.getLast? ≠ some '\r')
    (file : Nat) (bank? : Option Bank) :
    parse (source ++ "\n") file bank? =
      ⟨(parse source file bank?).listing, (parse source file bank?).diagnostics.map
        (.ended ⟨file, source.utf8ByteSize, source.utf8ByteSize + 1⟩)⟩ := by
  have hscan := Token.scan_newline file 0 h
  rw [Nat.zero_add, byteLength_toList] at hscan
  have hlines : linesOf file (source ++ "\n").toList =
      (linesOf file source.toList).map (Displacement.ending
          ⟨file, source.utf8ByteSize, source.utf8ByteSize + 1⟩).line ++
        [⟨[], ⟨none, ⟨file, byteLength (source ++ "\n").toList,
          byteLength (source ++ "\n").toList⟩⟩⟩] := by
    rw [linesOf, String.toList_append]
    refine (congrArg (Line.split _) hscan).trans ?_
    exact Line.split_newline rfl _ _ _
  rw [parse, parseLines, hlines, List.map_append, Line.map_read_displaced, settleLines_append,
    ParsedListing.join_append]
  -- The empty line at the end adds nothing.
  refine (ParsedListing.append_empty _).trans ?_
  rw [← Displacement.parsed_ending]
  exact ParsedListing.join_settleLines_displaced _ [] _

/-- Line endings do not matter. A text without carriage returns that gets one in front of every line
feed has the same instructions, assignments and diagnostics, and every offset in them goes up by the
number of line feeds before it. A text that does not end in a carriage return and gets a line feed
at its end has the same instructions and assignments, and the same diagnostics too, except that one
found at the end of the file becomes one found at the end of the line, which is the new line feed.
To be moved changes nothing in what a diagnostic says. -/
theorem Listing.parse_under_line_endings (source : String) (file : Nat) (bank? : Option Bank) :
    ('\r' ∉ source.toList →
        parse (String.ofList (withReturns source.toList)) file bank? =
          (parse source file bank?).move (stretched source.toList)) ∧
      (source.toList.getLast? ≠ some '\r' →
        parse (source ++ "\n") file bank? =
          ⟨(parse source file bank?).listing, (parse source file bank?).diagnostics.map
            (.ended ⟨file, source.utf8ByteSize, source.utf8ByteSize + 1⟩)⟩) ∧
      ∀ (f : Nat → Nat) (diagnostic : Diagnostic),
        (diagnostic.move f).code = diagnostic.code ∧
          (diagnostic.move f).message = diagnostic.message ∧
          (diagnostic.move f).notes = diagnostic.notes ∧
          (diagnostic.move f).labels = diagnostic.labels.map (Label.move f) :=
  ⟨fun h => parse_withReturns h file bank?, fun h => parse_newline h file bank?,
    fun f diagnostic => ⟨diagnostic.code_move f, diagnostic.message_move f,
      diagnostic.notes_move f, diagnostic.labels_move f⟩⟩

/-- A second assignment behind a comment, and a line that ends too early. -/
theorem Listing.parse_under_line_endings_sample :
    ('\r' ∉ "%vR1 -> %R2 # é\n%vR1 -> %R3\nmov %vR0,".toList ∧
        (parse "%vR1 -> %R2 # é\r\n%vR1 -> %R3\r\nmov %vR0," 0 none).diagnostics =
          [⟨.assignedTwice ⟨.int64, true, 1, by decide⟩ ⟨0, 0, 11⟩, ⟨0, 18, 29⟩⟩,
            ⟨.expected .register none, ⟨0, 40, 40⟩⟩]) ∧
      "%vR1 -> %R2 # é\n%vR1 -> %R3\nmov %vR0,".toList.getLast? ≠ some '\r' ∧
        (parse "%vR1 -> %R2 # é\n%vR1 -> %R3\nmov %vR0,\n" 0 none).diagnostics =
          [⟨.assignedTwice ⟨.int64, true, 1, by decide⟩ ⟨0, 0, 11⟩, ⟨0, 17, 28⟩⟩,
            ⟨.expected .register (some .newline), ⟨0, 38, 39⟩⟩] := by
  have hreturn : '\r' ∉ "%vR1 -> %R2 # é\n%vR1 -> %R3\nmov %vR0,".toList := by decide
  have hlast : "%vR1 -> %R2 # é\n%vR1 -> %R3\nmov %vR0,".toList.getLast? ≠ some '\r' := by decide
  obtain ⟨hreturns, hnewline, -⟩ :=
    parse_under_line_endings "%vR1 -> %R2 # é\n%vR1 -> %R3\nmov %vR0," 0 none
  have htext : String.ofList (withReturns "%vR1 -> %R2 # é\n%vR1 -> %R3\nmov %vR0,".toList) =
      "%vR1 -> %R2 # é\r\n%vR1 -> %R3\r\nmov %vR0," := by decide +kernel
  refine ⟨⟨hreturn, ?_⟩, hlast, ?_⟩
  · rw [← htext, hreturns hreturn]
    decide +kernel
  · exact (congrArg ParsedListing.diagnostics (hnewline hlast)).trans (by decide +kernel)

end RegisterMapping
