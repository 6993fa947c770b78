import Mathlib.Data.List.Pairwise
import RegisterMapping.Proofs.Listing.Concatenation
import RegisterMapping.Proofs.Listing.Pointers
import RegisterMapping.Proofs.Report

/-!
# Excerpts of a listing

The span of an instruction or an assignment cuts a text out of the source that is parsed as just
this item, whatever stands around it (`Listing.spans_cut_out_items`).

What a text starts with is seen from its own characters (`Lexeme.first_of_extra_le`), so the part of
a text from one token to another has just the tokens between the two (`Token.exists_excerpt`). At
the start of a file they are the same but for their places (`Token.scan_cut`), which play no part in
how a line is read (`Line.read_displaced`). A reader looks at no token behind the next one, and the
next one counts only if it is of a kind that is taken: what is read from some tokens is read from
them alone (`LineReader.Built.value_of_front`, `Line.read_front`).
-/

set_option autoImplicit false

namespace RegisterMapping

/-! ## Tokens of an excerpt -/

namespace Token

theorem stop_lastSpan_congr {a b : Span} (h : a.stop = b.stop) (tokens : List Token) :
    (lastSpan a tokens).stop = (lastSpan b tokens).stop := by
  cases tokens with
  | nil => exact h
  | cons token tokens => rfl

/-- The first tokens of a text are those of a front of it, which goes up to where they end. -/
theorem exists_front {file offset : Nat} {text : List Char} {tokens back : List Token}
    (h : scan file offset text = tokens ++ back) :
    ∃ covered after, text = covered ++ after ∧ scan file offset covered = tokens ∧
      (lastSpan ⟨file, offset, offset⟩ tokens).stop = offset + byteLength covered := by
  induction offset, text using piece_induction generalizing tokens with
  | nil offset =>
    rw [scan] at h
    obtain ⟨rfl, -⟩ := List.append_eq_nil_iff.1 h.symm
    exact ⟨[], [], rfl, by rw [scan], rfl⟩
  | piece offset c piece tail hextra ih =>
    cases tokens with
    | nil => exact ⟨[], _, rfl, by rw [scan], rfl⟩
    | cons token tokens =>
      have hpiece := @scan_piece file offset c piece tail [] (by rwa [List.append_nil])
      rw [hpiece] at h
      cases hkind : (Lexeme.first c piece).kind with
      | none =>
        rw [hkind] at h
        obtain ⟨covered, after, rfl, hscan, hstop⟩ := ih h
        refine ⟨c :: piece ++ covered, after, by simp, ?_, ?_⟩
        · rw [scan_piece file offset hextra, hkind]
          exact hscan
        · rw [byteLength_append, ← Nat.add_assoc]
          exact hstop
      | some kind =>
        rw [hkind] at h
        obtain ⟨rfl, hrest⟩ := List.cons.inj h
        obtain ⟨covered, after, rfl, hscan, hstop⟩ := ih hrest
        refine ⟨c :: piece ++ covered, after, by simp, ?_, ?_⟩
        · rw [scan_piece file offset hextra, hkind, hscan]
          rfl
        · rw [byteLength_append, ← Nat.add_assoc, ← hstop]
          show (lastSpan ⟨file, offset, offset + byteLength (c :: piece)⟩ tokens).stop = _
          apply stop_lastSpan_congr
          rfl

/-- From a token on, the tokens of a text are those of the part of it that starts there. -/
theorem exists_back {file offset : Nat} {text : List Char} {front back : List Token}
    {token : Token} (h : scan file offset text = front ++ token :: back) :
    ∃ before after, text = before ++ after ∧
      scan file (offset + byteLength before) after = token :: back ∧
      token.span.file = file ∧ token.span.start = offset + byteLength before := by
  induction offset, text using piece_induction generalizing front with
  | nil offset =>
    rw [scan] at h
    exact absurd h.symm (by simp)
  | piece offset c piece tail hextra ih =>
    have hpiece := @scan_piece file offset c piece tail [] (by rwa [List.append_nil])
    have hlater {others : List Token}
        (hscan : scan file (offset + byteLength (c :: piece)) tail = others ++ token :: back) :
        ∃ before after, c :: piece ++ tail = before ++ after ∧
          scan file (offset + byteLength before) after = token :: back ∧
          token.span.file = file ∧ token.span.start = offset + byteLength before := by
      obtain ⟨before, after, rfl, hafter, hplace⟩ := ih hscan
      rw [Nat.add_assoc, ← byteLength_append] at hafter hplace
      exact ⟨c :: piece ++ before, after, by simp, hafter, hplace⟩
    cases hkind : (Lexeme.first c piece).kind with
    | none =>
      rw [hpiece, hkind] at h
      exact hlater h
    | some kind =>
      cases front with
      | nil =>
        refine ⟨[], _, rfl, h, ?_⟩
        rw [hpiece, hkind] at h
        obtain ⟨rfl, -⟩ := List.cons.inj h
        exact ⟨rfl, rfl⟩
      | cons other front =>
        rw [hpiece, hkind] at h
        exact hlater (List.cons.inj h).2

/-- Tokens that stand together are those of the part of the text from the first to the last. -/
theorem exists_excerpt {file offset : Nat} {text : List Char} {front tokens back : List Token}
    {first : Token} (h : scan file offset text = front ++ first :: tokens ++ back) :
    ∃ before covered after, text = before ++ covered ++ after ∧
      scan file (offset + byteLength before) covered = first :: tokens ∧
      first.span.file = file ∧ first.span.start = offset + byteLength before ∧
      (lastSpan first.span tokens).stop = first.span.start + byteLength covered := by
  rw [List.append_assoc, List.cons_append] at h
  obtain ⟨before, text, rfl, hscan, hfile, hstart⟩ := exists_back h
  rw [← List.cons_append] at hscan
  obtain ⟨covered, after, rfl, hcovered, hstop⟩ := exists_front hscan
  refine ⟨before, covered, after, (List.append_assoc _ _ _).symm, hcovered, hfile, hstart, ?_⟩
  rw [hstart]
  exact hstop

end Token

/-! ## Places in an excerpt -/

/-- The same stretch in a file that starts where `start` is. -/
def Span.cut (file start : Nat) (span : Span) : Span :=
  ⟨file, span.start - start, span.stop - start⟩

/-- The same fault in a file that starts where `start` is. -/
def Fault.cut (file start : Nat) : Fault → Fault
  | .assignedTwice virt first => .assignedTwice virt (first.cut file start)
  | fault => fault

/-- To be in a file that starts where `start` is, as a change of places. -/
def Displacement.cut (file start : Nat) : Displacement where
  span := Span.cut file start
  terminator terminator := ⟨terminator.kind, terminator.span.cut file start⟩
  diagnostic diagnostic := ⟨diagnostic.fault.cut file start, diagnostic.span.cut file start⟩
  cover_span a b := by
    simp only [Span.cover, Span.cut, Span.mk.injEq, true_and]
    omega
  terminator_newline _ := rfl
  diagnostic_plain {fault} _ h := by
    cases fault with
    | assignedTwice virt first => cases h
    | _ => rfl
  diagnostic_expected _ _ := rfl
  diagnostic_assignedTwice _ _ _ := rfl

theorem Diagnostic.isAboutLine_cut (file start : Nat) (diagnostic : Diagnostic) :
    ((Displacement.cut file start).diagnostic diagnostic).isAboutLine =
      diagnostic.isAboutLine := by
  obtain ⟨fault, span⟩ := diagnostic
  cases fault <;> rfl

/-- In a file that starts further on, the same text is cut into the same tokens. -/
theorem Token.scan_cut (file start other offset : Nat) (text : List Char) :
    scan other offset text =
      (scan file (start + offset) text).map (Displacement.cut other start).token := by
  induction offset, text using piece_induction with
  | nil offset =>
    rw [scan, scan]
    rfl
  | piece offset c piece tail hextra ih =>
    have hpiece (file offset : Nat) :=
      @scan_piece file offset c piece tail [] (by rwa [List.append_nil])
    have hspan : Span.cut other start
        ⟨file, start + offset, start + offset + byteLength (c :: piece)⟩ =
          ⟨other, offset, offset + byteLength (c :: piece)⟩ := by
      simp only [Span.cut, Span.mk.injEq, true_and]
      omega
    rw [hpiece, hpiece, ih, Nat.add_assoc, ← Nat.add_assoc start, List.map_append]
    congr 1
    cases (Lexeme.first c piece).kind with
    | none => rfl
    | some kind =>
      show [_] = [(⟨kind, c :: piece, Span.cut other start _⟩ : Token)]
      rw [hspan]

/-! ## The front of a line -/

/-- What a reader gives is seen from the tokens that it takes, whatever follows them and ends the
line, and the bank has no say in it. -/
theorem LineReader.Built.value_of_front {α : Type} {asks : Prop} {reader : LineReader α}
    (h : Built asks reader) {context : LineContext} {start stop : Cursor} {a : α}
    (hvalue : (reader context start).value = some (a, stop)) :
    ∃ tokens, start.Takes tokens stop ∧ ∀ terminator kept, kept <+: stop.rest →
      (reader ⟨none, terminator⟩ ⟨start.last, tokens ++ kept⟩).value =
        some (a, ⟨stop.last, kept⟩) := by
  induction h generalizing start stop with
  | pure b =>
    obtain ⟨rfl, rfl⟩ := value_pure_eq_some_iff.1 hvalue
    exact ⟨[], rfl, fun _ _ _ => rfl⟩
  | bind _ _ ihreader ihnext =>
    obtain ⟨b, middle, hfirst, hsecond⟩ := value_bind_eq_some_iff.1 hvalue
    obtain ⟨front, htakesFront, hfront⟩ := ihreader hfirst
    obtain ⟨back, htakesBack, hback⟩ := ihnext b hsecond
    refine ⟨front ++ back, Cursor.takes_append_iff.2 ⟨middle, htakesFront, htakesBack⟩, ?_⟩
    intro terminator kept hkept
    have hmiddle : back ++ kept <+: middle.rest := by
      rw [Cursor.rest_eq_of_takes htakesBack]
      exact (List.prefix_append_right_inj back).2 hkept
    rw [List.append_assoc]
    exact value_bind_eq_some_iff.2 ⟨b, _, hfront terminator _ hmiddle, hback terminator kept hkept⟩
  | report span _ =>
    obtain ⟨rfl, rfl⟩ := Prod.mk.inj (Option.some.inj hvalue)
    exact ⟨[], rfl, fun _ _ _ => rfl⟩
  | fail span _ => cases hvalue
  | take kind =>
    obtain ⟨hkind, htakes⟩ := takes_of_value_take hvalue
    refine ⟨[a], htakes, fun _ kept _ => ?_⟩
    rw [Cursor.last_eq_of_takes htakes, List.singleton_append, take_cons_of_kind hkind]
    rfl
  | takeIf kind =>
    by_cases hlacks : start.Lacks kind
    -- Without the kind in front nothing is taken, and then it is not in front of a part either.
    · rw [takeIf_of_lacks hlacks] at hvalue
      obtain ⟨rfl, rfl⟩ := Prod.mk.inj (Option.some.inj hvalue)
      refine ⟨[], rfl, fun terminator kept hkept => ?_⟩
      rw [List.nil_append, takeIf_of_lacks]
      intro token hhead
      obtain ⟨back, hrest⟩ := hkept
      refine hlacks token ?_
      rw [← hrest]
      exact List.mem_head?_append_of_mem_head? hhead
    · obtain ⟨token, rest, hstart, hkind⟩ := exists_of_not_lacks hlacks
      rw [hstart, takeIf_cons_of_kind hkind] at hvalue
      obtain ⟨rfl, rfl⟩ := Prod.mk.inj (Option.some.inj hvalue)
      refine ⟨[token], ⟨rest, by rw [hstart], rfl⟩, fun terminator kept _ => ?_⟩
      rw [List.singleton_append, takeIf_cons_of_kind hkind]
  | checkBank r span _ =>
    rw [value_checkBank] at hvalue
    obtain ⟨rfl, rfl⟩ := Prod.mk.inj (Option.some.inj hvalue)
    exact ⟨[], rfl, fun _ _ _ => rfl⟩

/-- The item of a line is read from the tokens that say it as well, when these are all there is. -/
theorem Line.read_front {bank? : Option Bank} {line : Line} {said : Item} {span : Span}
    (h : (line.read bank?).item? = some (said, span)) :
    ∃ first rest back, line.tokens = first :: rest ++ back ∧ Sentence (first :: rest) said ∧
      span = first.span.cover (lastSpan first.span rest) ∧
      ∀ terminator, ∃ diagnostics,
        read none ⟨first :: rest, terminator⟩ = ⟨diagnostics, some (said, span), []⟩ ∧
        ∀ diagnostic ∈ diagnostics, diagnostic.isAboutLine = false := by
  obtain ⟨tokens, ending⟩ := line
  obtain ⟨hvalid, -⟩ := sentence_of_item h
  cases tokens with
  | nil => cases h
  | cons first later =>
    simp only [read, hvalid] at h
    cases hvalue : (LineReader.item first ⟨bank?, ending⟩ ⟨first.span, first :: later⟩).value with
    | none =>
      simp only [hvalue] at h
      cases h
    | some result =>
      obtain ⟨item?, stop⟩ := result
      simp only [hvalue] at h
      obtain ⟨item, rfl, hplaced⟩ := Option.map_eq_some_iff.1 h
      obtain ⟨rfl, rfl⟩ := Prod.mk.inj hplaced
      obtain ⟨tokens, hsentence, htakes⟩ := LineReader.sentence_of_value_item hvalue
      obtain ⟨taken, htaken, hfront⟩ :=
        (LineReader.built_item trivial first).value_of_front hvalue
      have hrest := Cursor.rest_eq_of_takes htakes
      obtain rfl : tokens = taken :=
        List.append_cancel_right (hrest.symm.trans (Cursor.rest_eq_of_takes htaken))
      obtain ⟨head, rest, rfl⟩ := List.exists_cons_of_ne_nil hsentence.ne_nil
      obtain ⟨rfl, -⟩ := List.cons.inj hrest
      have hlast : stop.last = lastSpan first.span rest := Cursor.last_eq_of_takes htakes
      refine ⟨first, rest, stop.rest, hrest, hsentence, by rw [hlast], fun terminator => ?_⟩
      have halone := hfront terminator [] List.nil_prefix
      rw [List.append_nil] at halone
      have hordinary : invalidTokens ⟨first :: rest, terminator⟩ = [] :=
        invalidTokens_eq_nil_iff.2 fun token hmem => (hsentence.ordinary token hmem).1
      have htold := LineReader.told_item ⟨none, terminator⟩ first.span first rest
      simp only [read, hordinary]
      generalize LineReader.item first ⟨none, terminator⟩ ⟨first.span, first :: rest⟩ = reading
        at halone htold ⊢
      cases htold with
      | givesUp _ _ => cases halone
      | @goesOn diagnostics _ _ _ hothers _ _ =>
        obtain ⟨rfl, rfl⟩ := Prod.mk.inj (Option.some.inj halone)
        exact ⟨diagnostics, rfl, hothers⟩

/-- Nothing at all is said of an assignment that stands alone. -/
theorem Line.read_assignment_front {tokens : List Token} {terminator : Terminator}
    {virt real : Register} {span : Span} {diagnostics : List Diagnostic}
    (hsentence : Sentence tokens (.assignment virt real))
    (h : read none ⟨tokens, terminator⟩ = ⟨diagnostics, some (.assignment virt real, span), []⟩) :
    diagnostics = [] := by
  have htyped : (Item.assignment virt real).wellTyped = true :=
    sound_of_read (congrArg LineReading.item? h)
  obtain ⟨first, rest, rfl⟩ := List.exists_cons_of_ne_nil hsentence.ne_nil
  have hsays : Says none (first :: rest)
      (.assignment virt real, first.span.cover (lastSpan first.span rest)) :=
    ⟨hsentence, ⟨htyped, fun _ _ => rfl⟩, rfl⟩
  have hclean : read none ⟨first :: rest, terminator⟩ = ⟨[], _, []⟩ :=
    (read_eq_clean_iff (List.cons_ne_nil _ _)).2 ⟨_, rfl, hsays⟩
  exact congrArg LineReading.diagnostics (h.symm.trans hclean)

/-! ## Listings -/

/-- Tokens without a newline are one line. -/
theorem Line.split_alone {tokens : List Token} (h : ∀ token ∈ tokens, token.kind ≠ .newline)
    (endOfFile : Span) : split endOfFile tokens = [⟨tokens, ⟨none, endOfFile⟩⟩] := by
  induction tokens with
  | nil => rfl
  | cons token tokens ih =>
    obtain ⟨htoken, htokens⟩ := List.forall_mem_cons.1 h
    rw [split, if_neg htoken, ih htokens]
    rfl

/-- A line that has an item adds it to a listing if no assignments come before. -/
theorem LineReading.settle_nil (diagnostics : List Diagnostic) (placed : Item × Span) :
    settle [] ⟨diagnostics, some placed, []⟩ = ⟨Listing.ofItems [placed], diagnostics⟩ := by
  obtain ⟨item, span⟩ := placed
  cases item with
  | instr inst => simp [settle, Listing.ofItems]
  | assignment virt real => simp [settle, Listing.ofItems]

namespace Listing

/-- A part of a text that holds the tokens of a sentence is parsed like a line of these. -/
theorem parse_covered {file start other : Nat} {covered : List Char} {tokens : List Token}
    {said : Item} {span : Span} {diagnostics : List Diagnostic}
    (hscan : Token.scan file start covered = tokens) (hsentence : Sentence tokens said)
    (hread : Line.read none ⟨tokens, ⟨none, ⟨file, start + byteLength covered,
      start + byteLength covered⟩⟩⟩ = ⟨diagnostics, some (said, span), []⟩) :
    parse (String.ofList covered) other none =
      ⟨ofItems [(said, span.cut other start)],
        diagnostics.map (Displacement.cut other start).diagnostic⟩ := by
  have hcut := Token.scan_cut file start other 0 covered
  rw [Nat.add_zero, hscan] at hcut
  have hlines : linesOf other covered =
      [(Displacement.cut other start).line ⟨tokens, ⟨none, ⟨file, start + byteLength covered,
        start + byteLength covered⟩⟩⟩] := by
    have hordinary : ∀ token ∈ tokens.map (Displacement.cut other start).token,
        token.kind ≠ .newline := by
      intro token hmem
      obtain ⟨origin, horigin, rfl⟩ := List.mem_map.1 hmem
      exact (hsentence.ordinary origin horigin).2
    rw [linesOf, hcut, Line.split_alone hordinary]
    simp only [Displacement.line, Displacement.cut, Span.cut, Nat.add_sub_cancel_left]
  have hsettle := LineReading.settle_nil
    (diagnostics.map (Displacement.cut other start).diagnostic) (said, span.cut other start)
  rw [parse, String.toList_ofList, parseLines, hlines]
  simp only [List.map_cons, List.map_nil, Line.read_displaced, hread, settleLines]
  show ParsedListing.append (LineReading.settle [] ⟨_, some (said, span.cut other start), []⟩)
    .empty = _
  rw [ParsedListing.append_empty]
  exact hsettle

variable {file : Nat} {source : String} {bank? : Option Bank} {line : Line} {said : Item}
  {span : Span}

/-- The item of a line stands where its tokens do, and the text that is there is parsed as this
item. -/
theorem exists_text_of_item (hline : line ∈ linesOf file source.toList)
    (hitem : (line.read bank?).item? = some (said, span)) :
    (∃ first ∈ line.tokens, ∃ last ∈ line.tokens,
        span = ⟨file, first.span.start, last.span.stop⟩ ∧ span.start < span.stop) ∧
      ∃ text, span.Holds source text ∧ ∀ other, ∃ diagnostics,
        parse text other none =
          ⟨ofItems [(said, ⟨other, 0, span.stop - span.start⟩)], diagnostics⟩ ∧
        (∀ diagnostic ∈ diagnostics, diagnostic.isAboutLine = false) ∧
        ∀ virt real, said = .assignment virt real → diagnostics = [] := by
  obtain ⟨first, rest, back, htokens, hsentence, hspan, halone⟩ := Line.read_front hitem
  have hspaced : Spaced (first :: rest) :=
    (spaced_tokens hline).sublist (htokens ▸ List.sublist_append_left _ _)
  obtain ⟨front, later, hscan⟩ := Line.tokens_together hline
  rw [htokens, List.append_assoc, List.append_assoc, ← List.append_assoc] at hscan
  obtain ⟨before, covered, after, hsource, hcovered, hfile, hstart, hstop⟩ :=
    Token.exists_excerpt hscan.symm
  rw [Nat.zero_add] at hcovered hstart
  rw [hstart] at hstop
  rw [hspaced.cover_lastSpan, hfile, hstop, hstart] at hspan
  have hne : covered ≠ [] := by
    rintro rfl
    rw [Token.scan] at hcovered
    cases hcovered
  subst hspan
  have hlast := List.getLast_mem (List.cons_ne_nil first rest)
  refine ⟨⟨first, by simp [htokens], (first :: rest).getLast (List.cons_ne_nil _ _),
    htokens ▸ List.mem_append_left back hlast, ?_, Nat.lt_add_of_pos_right (byteLength_pos hne)⟩,
    _, Span.holds_ofList hsource file, fun other => ?_⟩
  · rw [span_getLast, hstop, hstart]
  · obtain ⟨diagnostics, hread, hothers⟩ := halone ⟨none,
      ⟨file, byteLength before + byteLength covered, byteLength before + byteLength covered⟩⟩
    refine ⟨diagnostics.map (Displacement.cut other (byteLength before)).diagnostic, ?_, ?_, ?_⟩
    · rw [parse_covered hcovered hsentence hread]
      simp only [Span.cut, Nat.sub_self, Nat.add_sub_cancel_left]
    · intro diagnostic hmem
      obtain ⟨origin, horigin, rfl⟩ := List.mem_map.1 hmem
      exact (Diagnostic.isAboutLine_cut other _ origin).trans (hothers origin horigin)
    · rintro virt real rfl
      rw [Line.read_assignment_front hsentence hread, List.map_nil]

/-- The items of the lines of a source text. -/
def placedItems (source : String) (file : Nat) (bank? : Option Bank) : List (Item × Span) :=
  (linesOf file source.toList).filterMap fun line => (line.read bank?).item?

end Listing

theorem filterMap_cons_toList {α β : Type} (f : α → Option β) (a : α) (l : List α) :
    (a :: l).filterMap f = (f a).toList ++ l.filterMap f := by
  cases h : f a <;> simp [h]

/-- A line adds its item to a listing, unless this is a second assignment. -/
theorem LineReading.listing_settle (earlier : List Assignment) (reading : LineReading) :
    (reading.settle earlier).listing.insts = (Listing.ofItems reading.item?.toList).insts ∧
      (reading.settle earlier).listing.assignments.Sublist
        (Listing.ofItems reading.item?.toList).assignments := by
  obtain ⟨diagnostics, item?, trailing⟩ := reading
  cases item? with
  | none => exact ⟨rfl, .slnil⟩
  | some placed =>
    obtain ⟨item, span⟩ := placed
    cases item with
    | instr inst => exact ⟨rfl, .slnil⟩
    | assignment virt real =>
      simp only [settle]
      split
      · exact ⟨rfl, List.nil_sublist _⟩
      · exact ⟨rfl, .refl _⟩

/-- Lines add all their instructions to a listing, and some of their assignments. -/
theorem listing_join_settleLines (earlier : List Assignment) (readings : List LineReading) :
    (ParsedListing.join (settleLines earlier readings)).listing.insts =
        (Listing.ofItems (readings.filterMap LineReading.item?)).insts ∧
      (ParsedListing.join (settleLines earlier readings)).listing.assignments.Sublist
        (Listing.ofItems (readings.filterMap LineReading.item?)).assignments := by
  induction readings generalizing earlier with
  | nil => exact ⟨rfl, .slnil⟩
  | cons reading readings ih =>
    obtain ⟨hfirst, hfirst'⟩ := reading.listing_settle earlier
    obtain ⟨hrest, hrest'⟩ := ih (earlier ++ (reading.settle earlier).listing.assignments)
    rw [settleLines, ParsedListing.join_cons, ParsedListing.append, filterMap_cons_toList,
      Listing.ofItems, List.filterMap_append, List.filterMap_append, hfirst, hrest]
    exact ⟨rfl, hfirst'.append hrest'⟩

namespace Listing

theorem mem_insts_ofItems {items : List (Item × Span)} {inst : Instr} {span : Span} :
    (inst, span) ∈ (ofItems items).insts ↔ (.instr inst, span) ∈ items := by
  rw [ofItems, List.mem_filterMap]
  constructor
  · rintro ⟨⟨_ | _, _⟩, hmem, heq⟩
    · obtain ⟨rfl, rfl⟩ := Prod.mk.inj (Option.some.inj heq)
      exact hmem
    · cases heq
  · exact fun hmem => ⟨_, hmem, rfl⟩

theorem mem_assignments_ofItems {items : List (Item × Span)} {virt real : Handle} {span : Span} :
    ⟨virt, real, span⟩ ∈ (ofItems items).assignments ↔
      ∃ v r, virt = .reg v ∧ real = .reg r ∧ (.assignment v r, span) ∈ items := by
  rw [ofItems, List.mem_filterMap]
  constructor
  · rintro ⟨⟨_ | ⟨v, r⟩, _⟩, hmem, heq⟩
    · cases heq
    · obtain ⟨rfl, rfl, rfl⟩ := Assignment.mk.inj (Option.some.inj heq)
      exact ⟨v, r, rfl, rfl, hmem⟩
  · rintro ⟨v, r, rfl, rfl, hmem⟩
    exact ⟨_, hmem, rfl⟩

/-- Items that stand in order are so among those of their own sort too. -/
theorem pairwise_ofItems {items : List (Item × Span)}
    (h : items.Pairwise fun a b => a.2.stop ≤ b.2.start) :
    ((ofItems items).insts.map Prod.snd).Pairwise (fun a b => a.stop ≤ b.start) ∧
      ((ofItems items).assignments.map Assignment.span).Pairwise
        (fun a b => a.stop ≤ b.start) := by
  refine ⟨List.pairwise_map.2 (List.pairwise_filterMap.2 (h.imp ?_)),
    List.pairwise_map.2 (List.pairwise_filterMap.2 (h.imp ?_))⟩
  · rintro ⟨_ | _, _⟩ ⟨_ | _, _⟩ hle _ ⟨⟩ _ ⟨⟩
    exact hle
  · rintro ⟨_ | _, _⟩ ⟨_ | _, _⟩ hle _ ⟨⟩ _ ⟨⟩
    exact hle

theorem listing_parse (source : String) (file : Nat) (bank? : Option Bank) :
    (parse source file bank?).listing.insts = (ofItems (placedItems source file bank?)).insts ∧
      (parse source file bank?).listing.assignments.Sublist
        (ofItems (placedItems source file bank?)).assignments := by
  have h := listing_join_settleLines [] ((linesOf file source.toList).map (Line.read bank?))
  rwa [List.filterMap_map] at h

/-- The items of lines stand apart, in their order. -/
theorem pairwise_placedItems (source : String) (file : Nat) (bank? : Option Bank) :
    (placedItems source file bank?).Pairwise fun a b => a.2.stop ≤ b.2.start := by
  refine List.pairwise_filterMap.2 ((pairwise_linesOf file source.toList).imp_of_mem ?_)
  rintro a b ha hb hapart ⟨said, span⟩ hsaid ⟨other, later⟩ hother
  obtain ⟨⟨_, -, last, hlast, rfl, -⟩, -⟩ := exists_text_of_item ha hsaid
  obtain ⟨⟨first, hfirst, _, -, rfl, -⟩, -⟩ := exists_text_of_item hb hother
  exact hapart last hlast first hfirst

/-- The spans of a listing cut out the texts of its items. Without a bank, the text at the span of
an instruction is parsed as this instruction, with no diagnostic about the form of the line, and the
text at the span of an assignment as this assignment, with no diagnostic at all. The spans do not
overlap, and stand in order. -/
theorem spans_cut_out_items (source : String) (file : Nat) (bank? : Option Bank) :
    let listing := (parse source file bank?).listing
    (∀ inst span, (inst, span) ∈ listing.insts → span.file = file ∧ span.start < span.stop ∧
        ∃ text, span.Holds source text ∧ ∀ other, ∃ diagnostics,
          parse text other none =
            ⟨⟨[(inst, ⟨other, 0, span.stop - span.start⟩)], []⟩, diagnostics⟩ ∧
          ∀ diagnostic ∈ diagnostics, diagnostic.isAboutLine = false) ∧
      (∀ virt real span, ⟨virt, real, span⟩ ∈ listing.assignments →
        span.file = file ∧ span.start < span.stop ∧
        ∃ text, span.Holds source text ∧ ∀ other,
          parse text other none =
            ⟨⟨[], [⟨virt, real, ⟨other, 0, span.stop - span.start⟩⟩]⟩, []⟩) ∧
      (listing.insts.map Prod.snd).Pairwise (fun a b => a.stop ≤ b.start) ∧
      (listing.assignments.map Assignment.span).Pairwise (fun a b => a.stop ≤ b.start) ∧
      ∀ placed ∈ listing.insts, ∀ assignment ∈ listing.assignments,
        placed.2.stop ≤ assignment.span.start ∨ assignment.span.stop ≤ placed.2.start := by
  intro listing
  obtain ⟨hinsts, hassignments⟩ := listing_parse source file bank?
  have hapart := pairwise_placedItems source file bank?
  have hinst {inst : Instr} {span : Span} (hmem : (inst, span) ∈ listing.insts) :
      (.instr inst, span) ∈ placedItems source file bank? :=
    mem_insts_ofItems.1 (hinsts ▸ hmem)
  have hassignment {virt real : Handle} {span : Span}
      (hmem : ⟨virt, real, span⟩ ∈ listing.assignments) :
      ∃ v r, virt = .reg v ∧ real = .reg r ∧
        (.assignment v r, span) ∈ placedItems source file bank? :=
    mem_assignments_ofItems.1 (hassignments.subset hmem)
  refine ⟨?_, ?_, ?_, ?_, ?_⟩
  · intro inst span hmem
    obtain ⟨line, hline, hitem⟩ := List.mem_filterMap.1 (hinst hmem)
    obtain ⟨⟨first, -, last, -, hspan, hlt⟩, text, hholds, htext⟩ :=
      exists_text_of_item hline hitem
    refine ⟨by rw [hspan], hlt, text, hholds, fun other => ?_⟩
    obtain ⟨diagnostics, hparse, hothers, -⟩ := htext other
    exact ⟨diagnostics, hparse, hothers⟩
  · intro virt real span hmem
    obtain ⟨v, r, rfl, rfl, hplaced⟩ := hassignment hmem
    obtain ⟨line, hline, hitem⟩ := List.mem_filterMap.1 hplaced
    obtain ⟨⟨first, -, last, -, hspan, hlt⟩, text, hholds, htext⟩ :=
      exists_text_of_item hline hitem
    refine ⟨by rw [hspan], hlt, text, hholds, fun other => ?_⟩
    obtain ⟨diagnostics, hparse, -, hnothing⟩ := htext other
    rw [hparse, hnothing v r rfl]
    rfl
  · rw [hinsts]
    exact (pairwise_ofItems hapart).1
  · exact (pairwise_ofItems hapart).2.sublist (hassignments.map _)
  · rintro ⟨inst, span⟩ hmem ⟨virt, real, other⟩ hmem'
    obtain ⟨v, r, -, -, hplaced⟩ := hassignment hmem'
    -- To stand apart is symmetric, so it holds of any two items, whichever comes first.
    have heither : (placedItems source file bank?).Pairwise fun a b =>
        a.2.stop ≤ b.2.start ∨ b.2.stop ≤ a.2.start := hapart.imp .inl
    have : Std.Symm fun a b : Item × Span => a.2.stop ≤ b.2.start ∨ b.2.stop ≤ a.2.start :=
      ⟨fun _ _ => Or.symm⟩
    exact heither.forall (hinst hmem) hplaced (by simp)

end Listing

end RegisterMapping
