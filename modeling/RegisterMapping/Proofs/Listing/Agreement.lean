import RegisterMapping.Proofs.Listing.Simulation

/-!
# The two parsers agree

The pass by position never fails and finds what the parse line by line finds, in every source text
(`parseByPosition_eq_parse`). A line is one step of the pass (`line_eq`), and the pass is an
induction on the tokens that are left; the tokens from the end of a line on are cut into lines as
they are from its start on, but for the line itself.
-/

set_option autoImplicit false

namespace RegisterMapping

/-! ## What ends a line -/

theorem LineReading.settle_trailing (earlier : List Assignment) (diagnostics : List Diagnostic)
    (item? : Option (Item × Span)) (trailing : List Diagnostic) :
    LineReading.settle earlier ⟨diagnostics, item?, trailing⟩ =
      ParsedListing.append (LineReading.settle earlier ⟨diagnostics, item?, []⟩)
        ⟨Listing.empty, trailing⟩ := by
  unfold LineReading.settle ParsedListing.append
  cases item? with
  | none => simp [Listing.empty]
  | some placed =>
    obtain ⟨item, span⟩ := placed
    cases item with
    | instr inst => simp [Listing.empty]
    | assignment virt real =>
      simp only
      split <;> simp [Listing.empty]

theorem Stands.getElem?_getLast {input : ParserInput} {begun : Prop} {stop position : Nat}
    {last : Span} {first : Token} {rest : List Token}
    (h : Stands input begun stop ⟨last, first :: rest⟩ position) :
    input.tokens[position + rest.length]? =
      some ((first :: rest).getLast (List.cons_ne_nil _ _)) := by
  rw [← List.getElem?_drop, h.drop_eq, List.getElem?_append_left (by simp),
    ← List.getLast?_eq_some_getLast, List.getLast?_eq_getElem?]
  rfl

section Lines

variable {input : ParserInput} {context : LineContext} {stop : Nat}

theorem reportInvalid_eq (tokens : List Token) (state : ParserState) :
    PositionParser.reportInvalid tokens input state = .ok (some (), state.told state.position
      (tokens.map fun token => ⟨.invalidCharacter, token.span⟩)) := by
  induction tokens generalizing state with
  | nil =>
    rw [List.map_nil, ParserState.told_nil]
    rfl
  | cons token tokens ih =>
    have hreport := PositionParser.report_eq input .invalidCharacter token.span state
    rw [PositionParser.reportInvalid, PositionParser.bind_of_ok hreport, ih,
      ParserState.told_told]
    rfl

/-- Tokens that are left before the end of the line are reported together. -/
theorem reportTrailing_eq (hline : Encloses input context stop) {begun : Prop} {cursor : Cursor}
    {state : ParserState} (hstands : Stands input begun stop cursor state.position) :
    PositionParser.reportTrailing stop input state =
      .ok (some (), state.told state.position (Line.trailing cursor.rest)) := by
  have hposition : PositionParser.position input state = .ok (some state.position, state) := rfl
  rw [PositionParser.reportTrailing, PositionParser.bind_of_ok hposition]
  obtain ⟨last, rest⟩ := cursor
  cases rest with
  | nil =>
    rw [if_neg (by rw [hstands.eq_stop]; exact Nat.lt_irrefl _), Line.trailing,
      ParserState.told_nil]
    rfl
  | cons first rest =>
    have hlast := hstands.getElem?_getLast
    have hstop : stop = state.position + rest.length + 1 := by
      rw [← hstands.length_eq]
      rfl
    obtain rfl := hstop
    have hfirst : PositionParser.tokenAt state.position input state = .ok (some first, state) := by
      rw [PositionParser.tokenAt, hstands.getElem?_eq]
    have hbefore : PositionParser.tokenBefore (state.position + rest.length + 1) input state =
        .ok (some ((first :: rest).getLast (List.cons_ne_nil _ _)), state) := by
      rw [PositionParser.tokenBefore, PositionParser.tokenAt, hlast]
    have hfile : first.span.file = ((first :: rest).getLast (List.cons_ne_nil _ _)).span.file :=
      (hline.one_file _ hstands.mem).trans (hline.one_file _ (List.mem_of_getElem? hlast)).symm
    rw [if_pos (by omega), PositionParser.bind_of_ok hfirst, PositionParser.bind_of_ok hbefore,
      PositionParser.joined_eq hfile]
    exact PositionParser.report_eq input _ _ state

/-! ## Lines -/

theorem PositionParser.succeeds_of_ok {α : Type} {parser : PositionParser α}
    {state next : ParserState} {value? : Option α} (h : parser input state = .ok (value?, next)) :
    parser.succeeds input state = .ok (some value?.isSome, next) := by
  rw [succeeds, h]

/-- From a position in the file on there is a slice to its end. -/
theorem PositionParser.slice_rest_eq {state : ParserState} {token : Token}
    (h : input.tokens[state.position]? = some token) :
    slice state.position input.tokens.length input state =
      .ok (some (input.tokens.drop state.position), state) := by
  have hlt := (List.getElem?_eq_some_iff.1 h).1
  rw [slice, if_pos ⟨Nat.le_of_lt hlt, Nat.le_refl _⟩, ← List.length_drop, List.take_length]

/-- The slice up to the end of a line is what is left of the line. -/
theorem PositionParser.slice_line_eq {begun : Prop} {cursor : Cursor} {state : ParserState}
    (h : Stands input begun stop cursor state.position)
    (hle : state.position ≤ input.tokens.length) :
    slice state.position stop input state = .ok (some cursor.rest, state) := by
  have hlength := h.length_eq
  -- The tokens from the position on are counted twice, once as they stand and once cut in two.
  have hcount := congrArg List.length h.drop_eq
  rw [List.length_append, List.length_drop, List.length_drop] at hcount
  rw [slice, if_pos (by omega), h.drop_eq, List.take_left' (by omega)]

/-- A line whose tokens are all valid is its item and what is left after that. -/
theorem PositionParser.line_eq_of_stands {first : Token} {rest : List Token} {state : ParserState}
    (hstands : Stands input False (input.lineEnd state.position) ⟨first.span, first :: rest⟩
      state.position) :
    line input state =
      (match (first :: rest).filter fun token => token.kind = .invalid with
      | [] => do
        if ← succeeds item then
          reportTrailing (input.lineEnd state.position)
      | invalid => reportInvalid invalid : PositionParser Unit) input state := by
  have hinput : PositionParser.input input state = .ok (some input, state) := rfl
  have hposition : position input state = .ok (some state.position, state) := rfl
  have hfirst := hstands.getElem?_eq
  have hle := Nat.le_of_lt (List.getElem?_eq_some_iff.1 hfirst).1
  exact (bind_of_ok hinput).trans ((bind_of_ok hposition).trans
    ((bind_of_ok (slice_rest_eq hfirst)).trans (bind_of_ok (slice_line_eq hstands hle))))

/-- A line adds what reading it line by line adds. -/
theorem line_eq {terminator : Terminator} {first : Token} {rest : List Token} {state : ParserState}
    (hline : Encloses input ⟨input.bank?, terminator⟩ (input.lineEnd state.position))
    (hremembers : state.Remembers)
    (hstands : Stands input False (input.lineEnd state.position) ⟨first.span, first :: rest⟩
      state.position) :
    ∃ position, PositionParser.line input state = .ok (some (), state.add position
      ((Line.read input.bank? ⟨first :: rest, terminator⟩).settle state.listing.assignments)) := by
  rw [PositionParser.line_eq_of_stands hstands, Line.read, Line.invalidTokens]
  cases hinvalid : (first :: rest).filter fun token => token.kind = .invalid with
  | cons token tokens =>
    refine ⟨state.position, ?_⟩
    simp only [LineReading.settle, List.append_nil]
    exact reportInvalid_eq (token :: tokens) state
  | nil =>
    simp only
    have hitem := agrees_item hline hremembers hstands
    rw [Agrees] at hitem
    cases hvalue : (LineReader.item first ⟨input.bank?, terminator⟩
        ⟨first.span, first :: rest⟩).value with
    | none =>
      -- Both gave up, and what is left of the line is passed over.
      rw [hvalue] at hitem
      obtain ⟨position, hitem⟩ := hitem
      refine ⟨position, ?_⟩
      rw [PositionParser.bind_of_ok (PositionParser.succeeds_of_ok hitem)]
      simp only [LineReading.settle, List.append_nil]
      rfl
    | some result =>
      obtain ⟨item?, cursor⟩ := result
      rw [hvalue] at hitem
      obtain ⟨_, position, hitem, -, hplace⟩ := hitem
      refine ⟨position, ?_⟩
      rw [PositionParser.bind_of_ok (PositionParser.succeeds_of_ok hitem),
        LineReading.settle_trailing, ← ParserState.add_add]
      exact reportTrailing_eq hline hplace

end Lines

/-! ## The whole file -/

namespace Line

/-- Tokens without a newline go in front of the first line of what follows them. -/
theorem split_append {endOfFile : Span} {tokens tail : List Token}
    (h : ∀ token ∈ tokens, token.kind ≠ .newline) :
    split endOfFile (tokens ++ tail) =
      (split endOfFile tail).modifyHead fun line => ⟨tokens ++ line.tokens, line.terminator⟩ := by
  induction tokens with
  | nil =>
    show _ = List.modifyHead id (split endOfFile tail)
    rw [List.modifyHead_id]
    rfl
  | cons token tokens ih =>
    obtain ⟨hkind, hrest⟩ := List.forall_mem_cons.1 h
    rw [List.cons_append, split, if_neg hkind, ih hrest]
    obtain ⟨line, lines, hsplit⟩ := List.exists_cons_of_ne_nil (split_ne_nil endOfFile tail)
    simp [hsplit, cons]

end Line

/-- The tokens from a position on are those of its line, none of which is a newline, and those from
the end of the line on, of which the first is one. -/
theorem ParserInput.exists_drop_eq {input : ParserInput} {first : Token} {start : Nat}
    (hfirst : input.tokens[start]? = some first) (hkind : first.kind ≠ .newline) :
    ∃ rest, start + (first :: rest).length = input.lineEnd start ∧
      input.tokens.drop start = (first :: rest) ++ input.tokens.drop (input.lineEnd start) ∧
      (∀ token ∈ first :: rest, token.kind ≠ .newline) ∧
      ∀ token, input.tokens[input.lineEnd start]? = some token → token.kind = .newline := by
  -- The line of a position is the longest front of the tokens from there without a newline.
  let ordinary : Token → Bool := fun token => token.kind ≠ .newline
  obtain ⟨hlt, rfl⟩ := List.getElem?_eq_some_iff.1 hfirst
  have htake : (input.tokens.drop start).takeWhile ordinary =
      input.tokens[start] :: (input.tokens.drop (start + 1)).takeWhile ordinary := by
    rw [List.drop_eq_getElem_cons hlt, List.takeWhile_cons_of_pos (by simpa [ordinary] using hkind)]
  generalize (input.tokens.drop (start + 1)).takeWhile ordinary = rest at htake
  have hlength : start + (input.tokens[start] :: rest).length = input.lineEnd start := by
    rw [ParserInput.lineEnd, ← htake]
  have htail : input.tokens.drop (input.lineEnd start) =
      (input.tokens.drop start).dropWhile ordinary := by
    have hrest := congrArg (List.drop (input.tokens[start] :: rest).length)
      (List.takeWhile_append_dropWhile (p := ordinary) (l := input.tokens.drop start))
    rw [htake, List.drop_left, List.drop_drop, hlength] at hrest
    exact hrest.symm
  refine ⟨rest, hlength, ?_, ?_, ?_⟩
  · rw [htail, ← htake, List.takeWhile_append_dropWhile]
  · rw [← htake]
    intro token hmem
    simpa [ordinary] using List.all_eq_true.1 List.all_takeWhile token hmem
  · intro token htoken
    have hnewline := List.head?_dropWhile_not ordinary (input.tokens.drop start)
    rw [← htail, List.head?_drop, htoken] at hnewline
    simpa [ordinary] using hnewline

/-- The line of a position, what ends it, and the lines after it, which are those from its end on
but for an empty one. -/
theorem exists_split {input : ParserInput} {first : Token} {start : Nat}
    (hfile : ∀ token ∈ input.tokens, token.span.file = input.endOfFile.file)
    (hfirst : input.tokens[start]? = some first) (hkind : first.kind ≠ .newline) :
    ∃ rest terminator later, Encloses input ⟨input.bank?, terminator⟩ (input.lineEnd start) ∧
      Stands input False (input.lineEnd start) ⟨first.span, first :: rest⟩ start ∧
      Line.split input.endOfFile (input.tokens.drop start) = ⟨first :: rest, terminator⟩ :: later ∧
      Line.split input.endOfFile (input.tokens.drop (input.lineEnd start)) =
        ⟨[], terminator⟩ :: later := by
  obtain ⟨rest, hlength, hdrop, hordinary, hnewline⟩ := input.exists_drop_eq hfirst hkind
  generalize input.lineEnd start = stop at *
  have hstands : Stands input False stop ⟨first.span, first :: rest⟩ start :=
    ⟨hlength, hdrop, False.elim⟩
  cases hend : input.tokens[stop]? with
  | none =>
    have hnil : input.tokens.drop stop = [] := by
      rw [← List.head?_eq_none_iff, List.head?_drop, hend]
    refine ⟨rest, ⟨none, input.endOfFile⟩, [], ⟨rfl, fun _ => rfl, ?_, hfile⟩, hstands, ?_, ?_⟩
    · simp [hend]
    · rw [hdrop, Line.split_append hordinary, hnil, Line.split]
      simp
    · rw [hnil, Line.split]
  | some newline =>
    have hkind := hnewline newline hend
    obtain ⟨hlt, rfl⟩ := List.getElem?_eq_some_iff.1 hend
    have hcons := List.drop_eq_getElem_cons hlt
    refine ⟨rest, ⟨some .newline, input.tokens[stop].span⟩,
      Line.split input.endOfFile (input.tokens.drop (stop + 1)),
      ⟨rfl, ?_, ?_, hfile⟩, hstands, ?_, ?_⟩
    · simp [hend]
    · intro token htoken
      obtain rfl := Option.some.inj (hend.symm.trans htoken)
      exact ⟨hkind, rfl⟩
    · rw [hdrop, Line.split_append hordinary, hcons, Line.split, if_pos hkind]
      simp
    · rw [hcons, Line.split, if_pos hkind]

/-- From any state on, the pass adds what the lines that are left add. -/
theorem parseFrom_eq (input : ParserInput) (state : ParserState)
    (hfile : ∀ token ∈ input.tokens, token.span.file = input.endOfFile.file)
    (hremembers : state.Remembers) :
    ∃ position, parseFrom input state = .ok (state.add position (ParsedListing.join
      (settleLines state.listing.assignments ((Line.split input.endOfFile
        (input.tokens.drop state.position)).map (Line.read input.bank?))))) := by
  -- The induction is on the tokens that are left, with a whole line or a lone newline as one step.
  induction state using parseFrom.induct input with
  | case1 state hend =>
    refine ⟨state.position, ?_⟩
    have hnil : input.tokens.drop state.position = [] := by
      rw [← List.head?_eq_none_iff, List.head?_drop, hend]
    rw [parseFrom_of_end hend, hnil, Line.split, List.map_cons, Line.read_of_tokens_eq_nil rfl,
      join_settleLines_blank]
    show Except.ok state = Except.ok (state.told state.position [])
    rw [ParserState.told_nil]
  | case2 state token hfound hkind ih =>
    obtain ⟨hlt, rfl⟩ := List.getElem?_eq_some_iff.1 hfound
    obtain ⟨position, hparse⟩ := ih hremembers
    refine ⟨position, ?_⟩
    rw [parseFrom_of_newline hfound hkind, hparse, List.drop_eq_getElem_cons hlt, Line.split,
      if_pos hkind, List.map_cons, Line.read_of_tokens_eq_nil rfl, join_settleLines_blank]
    rfl
  | case3 state token hfound hkind failure hfailure =>
    obtain ⟨rest, terminator, later, hline, hstands, -⟩ := exists_split hfile hfound hkind
    obtain ⟨position, hok⟩ := line_eq hline hremembers hstands
    rw [hok] at hfailure
    cases hfailure
  | case4 state token hfound hkind value next hnext ih =>
    obtain ⟨rest, terminator, later, hline, hstands, hsplit, htail⟩ :=
      exists_split hfile hfound hkind
    obtain ⟨position, hok⟩ := line_eq hline hremembers hstands
    obtain ⟨rfl, rfl⟩ := Prod.mk.inj (Except.ok.inj (hnext.symm.trans hok))
    obtain ⟨final, hparse⟩ := ih (hremembers.add _ _)
    refine ⟨final, ?_⟩
    rw [parseFrom_of_line hfound hkind hok, hparse]
    simp only [htail, hsplit, List.map_cons, Line.read_of_tokens_eq_nil, join_settleLines_blank]
    show Except.ok (ParserState.add (ParserState.add _ (input.lineEnd state.position) _) _ _) = _
    rw [ParserState.add_add]
    rfl

/-- Every token of a file is in the file. -/
theorem Token.file_of_mem_scan (file offset : Nat) (text : List Char) :
    ∀ token ∈ scan file offset text, token.span.file = file := by
  fun_induction scan file offset text with
  | case1 => simp
  | case2 offset c rest lexeme text stop later kind hkind ih =>
    rw [List.forall_mem_cons]
    exact ⟨rfl, ih⟩
  | case3 offset c rest lexeme text stop later hkind ih => exact ih

/-- No source text makes the pass by position fail, and it finds what the parse finds. -/
theorem parseByPosition_eq_parse (source : String) (file : Nat) (bank? : Option Bank) :
    Listing.parseByPosition source file bank? = .ok (Listing.parse source file bank?) := by
  have hremembers : ParserState.Remembers ⟨0, [], Listing.empty, []⟩ := rfl
  obtain ⟨position, hparse⟩ := parseFrom_eq
    ⟨Token.scan file 0 source.toList,
      ⟨file, byteLength source.toList, byteLength source.toList⟩, bank?⟩ _
    (Token.file_of_mem_scan file 0 source.toList) hremembers
  rw [Listing.parseByPosition, hparse]
  rfl

end RegisterMapping
