import RegisterMapping.Proofs.Listing.Accounting
import RegisterMapping.Proofs.Listing.BankFaults
import RegisterMapping.Proofs.Listing.SentenceForms
import RegisterMapping.Proofs.Listing.Tiling

/-!
# Where a line leaves the grammar

A line that breaks the grammar has one diagnostic about this, and it stands where no sentence can be
meant any more: the tokens before it are the start of a sentence, and with the token that is there
they are not (`Listing.line_faults_located`).

While a line is read, a `Stage` says which forms of sentences are still possible behind the tokens
that were taken; a reader goes from one stage to another, or gives up at a place that the stage
tells (`LineReader.Steps`). This goes through sequencing, so that each reader gets one lemma from
its first stage to its last, and a look at the next token rules out the forms that it does not start
(`LineReader.Steps.takeIf_bind`).
-/

set_option autoImplicit false

namespace RegisterMapping

/-! ## Where a fault stands -/

/-- The last token is a minus sign. -/
def endsInMinus (tokens : List Token) : Bool := tokens.getLast?.any fun token => token.kind = .minus

/-- A register token is the text of a register, and a number token that of a word, with the sign
that stands before it. -/
def Token.MeansAfter (before : List Token) (token : Token) : Prop :=
  (token.kind = .register → ∃ r, token.Names r) ∧
    (token.kind = .number → FitsWord (signedValue (endsInMinus before) token.text))

/-- Every register and every number among the tokens means something. -/
def Meaningful (tokens : List Token) : Prop :=
  ∀ front token back, tokens = front ++ token :: back → token.MeansAfter front

theorem meaningful_nil : Meaningful [] := by
  intro front token back heq
  simp at heq

/-- Tokens that mean something are extended by one that does so behind them. -/
theorem Meaningful.concat {before : List Token} {token : Token} (h : Meaningful before)
    (htoken : token.MeansAfter before) : Meaningful (before ++ [token]) := by
  intro front other back heq
  rcases List.eq_nil_or_concat back with rfl | ⟨back, last, rfl⟩
  · obtain ⟨rfl, hlast⟩ := List.append_inj' heq rfl
    obtain rfl := List.singleton_inj.1 hlast
    exact htoken
  · rw [List.concat_eq_append, ← List.cons_append, ← List.append_assoc] at heq
    exact h front other back (List.append_inj' heq rfl).1

theorem Token.meansAfter_of_kind {token : Token} (hregister : token.kind ≠ .register)
    (hnumber : token.kind ≠ .number) (before : List Token) : token.MeansAfter before :=
  ⟨fun h => absurd h hregister, fun h => absurd h hnumber⟩

namespace Diagnostic

/-- The diagnostic is about the form of a line. -/
def isAboutLine (diagnostic : Diagnostic) : Bool :=
  diagnostic.code ∈ ["EL00", "EL01", "EL02", "EL03", "EL04", "EL05", "EL06"]

theorem isAboutLine_of_isAboutClasses {fault : Fault} (h : fault.isAboutClasses = true)
    (span : Span) : isAboutLine ⟨fault, span⟩ = false := by
  cases fault <;> first | rfl | cases h

theorem isAboutLine_of_assignmentFault? {virt real : Register} {virtSpan realSpan : Span}
    {diagnostic : Diagnostic}
    (h : LineReader.assignmentFault? virt real virtSpan realSpan = some diagnostic) :
    diagnostic.isAboutLine = false := by
  rcases LineReader.assignmentFault?_cases h with rfl | rfl | rfl <;> rfl

end Diagnostic

namespace Line

/-- No sentence is meant any more at the span: it is that of the first token with which the line
does not start like a sentence, or it is the end of a line that only starts like one. -/
inductive BreaksAt (line : Line) : Span → Prop
  | token {before after : List Token} {token : Token} :
      line.tokens = before ++ token :: after → Viable before → ¬ Viable (before ++ [token]) →
      BreaksAt line token.span
  | ending : Viable line.tokens → ¬ SentenceForm line.tokens → BreaksAt line line.terminator.span

/-- At the span is the first token of the line that means nothing. It is of the given kind, and the
tokens before it start like a sentence. -/
inductive MeansNothingAt (line : Line) (kind : TokenKind) : Span → Prop
  | mk {before after : List Token} {token : Token} :
      line.tokens = before ++ token :: after → token.kind = kind → ¬ token.MeansAfter before →
      Meaningful before → Viable before → MeansNothingAt line kind token.span

/-- The line starts with a sentence, and the span goes from the first token behind it to the last
token of the line. -/
inductive GoesOnAt (line : Line) : Span → Prop
  | mk {before after : List Token} {first last : Token} :
      line.tokens = before ++ first :: after → SentenceForm before →
      line.tokens.getLast? = some last →
      GoesOnAt line ⟨first.span.file, first.span.start, last.span.stop⟩

/-- The diagnostic stands where the line leaves the grammar. -/
structure Locates (line : Line) (diagnostic : Diagnostic) : Prop where
  unexpected : diagnostic.code ∈ ["EL01", "EL02", "EL03"] → line.BreaksAt diagnostic.span
  malformed : diagnostic.code = "EL04" → line.MeansNothingAt .register diagnostic.span
  tooLarge : diagnostic.code = "EL05" → line.MeansNothingAt .number diagnostic.span
  trailing : diagnostic.code = "EL06" → line.GoesOnAt diagnostic.span

/-- What a line without invalid characters adds has at most one diagnostic about the form of the
line, which stands where the line leaves the grammar. -/
structure SyntaxTold (line : Line) (part : ParsedListing) : Prop where
  atMostOnce : line.invalidTokens = [] → (part.diagnostics.filter Diagnostic.isAboutLine).length ≤ 1
  located : line.invalidTokens = [] → ∀ diagnostic ∈ part.diagnostics, line.Locates diagnostic

end Line

/-- Nothing is asked of the place of a diagnostic that is not about form. -/
theorem Line.locates_of_not_isAboutLine {line : Line} {diagnostic : Diagnostic}
    (h : diagnostic.isAboutLine = false) : line.Locates diagnostic := by
  have hcode : diagnostic.code ∉ ["EL00", "EL01", "EL02", "EL03", "EL04", "EL05", "EL06"] :=
    of_decide_eq_false h
  simp only [List.mem_cons, List.not_mem_nil, or_false, not_or] at hcode
  obtain ⟨-, h1, h2, h3, h4, h5, h6⟩ := hcode
  refine ⟨fun hmem => ?_, fun heq => absurd heq h4, fun heq => absurd heq h5,
    fun heq => absurd heq h6⟩
  simp [h1, h2, h3] at hmem

theorem Line.locates_of_breaksAt {line : Line} {fault : Fault} {span : Span}
    (h : line.BreaksAt span) (hcode : fault.code ∈ ["EL01", "EL02", "EL03"]) :
    line.Locates ⟨fault, span⟩ := by
  refine ⟨fun _ => h, fun heq => ?_, fun heq => ?_, fun heq => ?_⟩ <;>
    · simp only [Diagnostic.code] at heq
      simp [heq] at hcode

/-! ## Stages -/

/-- How a sentence may go on: the forms that the rest of it may have, and whether a number that
comes next has a minus sign. -/
structure Stage where
  forms : List (List TokenKind)
  negative : Bool
  deriving DecidableEq

namespace Stage

/-- The stage behind one more token of the kind. -/
def after (stage : Stage) (kind : TokenKind) : Stage where
  forms := stage.forms.filterMap fun
    | first :: form => if first = kind then some form else none
    | [] => none
  negative := kind = .minus

/-- The stage if it is known that no token of the kind comes next. -/
def lacking (stage : Stage) (kind : TokenKind) : Stage where
  forms := stage.forms.filter fun form => form.head? ≠ some kind
  negative := stage.negative

/-- A sentence may go on, and only with a token of the kind. -/
def Wants (stage : Stage) (kind : TokenKind) : Prop :=
  stage.forms ≠ [] ∧ ∀ form ∈ stage.forms, form.head? = some kind

instance (stage : Stage) (kind : TokenKind) : Decidable (stage.Wants kind) :=
  inferInstanceAs (Decidable (_ ∧ _))

/-- Nothing is missing any more. -/
def done : Stage := ⟨[[]], false⟩

/-- The stage tells how the tokens before the place go on to sentences. Sentences that go on with a
token of another kind than the one that comes next may be left out. -/
structure At (stage : Stage) (before rest : List Token) : Prop where
  sound : ∀ later : List Token, later.map Token.kind ∈ stage.forms →
    SentenceForm (before ++ later)
  complete : ∀ later : List Token, SentenceForm (before ++ later) →
    (∀ token ∈ later.head?, ∃ next ∈ rest.head?, token.kind = next.kind) →
    later.map Token.kind ∈ stage.forms
  meaningful : Meaningful before
  negative_eq : stage.negative = endsInMinus before

variable {stage : Stage} {kind : TokenKind} {before rest : List Token} {token : Token}

/-- Behind a token of a kind, the forms that are left are those that start with it, without it. -/
theorem mem_after_iff {form : List TokenKind} :
    form ∈ (stage.after kind).forms ↔ kind :: form ∈ stage.forms := by
  rw [after, List.mem_filterMap]
  constructor
  · rintro ⟨_ | ⟨first, rest⟩, hmem, heq⟩
    · cases heq
    · simp only [Option.ite_none_right_eq_some, Option.some.injEq] at heq
      obtain ⟨rfl, rfl⟩ := heq
      exact hmem
  · intro h
    exact ⟨kind :: form, h, if_pos rfl⟩

/-- Where a kind does not come next, the forms that start with it are ruled out. -/
theorem mem_lacking_iff {form : List TokenKind} :
    form ∈ (stage.lacking kind).forms ↔ form ∈ stage.forms ∧ form.head? ≠ some kind := by
  simp [lacking, List.mem_filter]

theorem At.take (h : stage.At before (token :: rest)) (hmeans : token.MeansAfter before) :
    (stage.after token.kind).At (before ++ [token]) rest where
  sound later hmem := by
    rw [List.append_assoc]
    exact h.sound (token :: later) (mem_after_iff.1 hmem)
  complete later hform _ := by
    rw [List.append_assoc] at hform
    refine mem_after_iff.2 (h.complete (token :: later) hform ?_)
    rintro _ ⟨⟩
    exact ⟨token, rfl, rfl⟩
  meaningful := h.meaningful.concat hmeans
  negative_eq := by simp [after, endsInMinus]

/-- If a token of another kind comes next, or none, the forms that start with the kind are out. -/
theorem At.lacking (h : stage.At before rest) (hlacks : ∀ next ∈ rest.head?, next.kind ≠ kind) :
    (stage.lacking kind).At before rest where
  sound later hmem := h.sound later (mem_lacking_iff.1 hmem).1
  complete later hform hnext := by
    refine mem_lacking_iff.2 ⟨h.complete later hform hnext, ?_⟩
    intro hhead
    rw [List.head?_map, Option.map_eq_some_iff] at hhead
    obtain ⟨token, htoken, rfl⟩ := hhead
    obtain ⟨next, hmem, heq⟩ := hnext token htoken
    exact hlacks next hmem heq.symm
  meaningful := h.meaningful
  negative_eq := h.negative_eq

/-- While some form is left, the tokens that were taken may start a sentence. -/
theorem At.viable (h : stage.At before rest) (hne : stage.forms ≠ []) : Viable before := by
  obtain ⟨form, hmem⟩ := List.exists_mem_of_ne_nil _ hne
  have hmap : (form.map fun kind => (⟨kind, [], ⟨0, 0, 0⟩⟩ : Token)).map Token.kind = form := by
    rw [List.map_map]
    exact List.map_id form
  exact ⟨_, h.sound _ (hmap.symm ▸ hmem)⟩

/-- A token of another kind than the one that is wanted starts no rest of a sentence. -/
theorem At.not_viable (h : stage.At before (token :: rest)) (hwants : stage.Wants kind)
    (hkind : token.kind ≠ kind) : ¬ Viable (before ++ [token]) := by
  rintro ⟨later, hform⟩
  rw [List.append_assoc] at hform
  have hmem := h.complete (token :: later) hform (by rintro _ ⟨⟩; exact ⟨token, rfl, rfl⟩)
  exact hkind (Option.some.inj (hwants.2 _ hmem))

/-- Where a token is wanted, a line that ends is no sentence. -/
theorem At.not_sentenceForm (h : stage.At before rest) (hwants : stage.Wants kind) :
    ¬ SentenceForm before := by
  intro hform
  have hmem := h.complete [] (by rwa [List.append_nil]) (by simp)
  exact Option.some_ne_none kind (hwants.2 _ hmem).symm

end Stage

/-! ## From stage to stage -/

/-- How a reading comes out that starts behind the tokens `before`, where the tokens `rest` are
left. It goes on to the next stage and says nothing about the form of the line, or it gives up, and
the last thing it says, and no other, is about this form and stands where it belongs. -/
inductive Reading.Told {α : Type} (next : α → Stage) (before rest : List Token)
    (terminator : Terminator) : Reading α → Prop
  | goesOn {diagnostics : List Diagnostic} {a : α} {stop : Cursor} (taken : List Token) :
      (∀ diagnostic ∈ diagnostics, diagnostic.isAboutLine = false) → rest = taken ++ stop.rest →
      (next a).At (before ++ taken) stop.rest →
      Told next before rest terminator ⟨diagnostics, some (a, stop)⟩
  | givesUp {diagnostics : List Diagnostic} {last : Diagnostic} :
      (∀ diagnostic ∈ diagnostics, diagnostic.isAboutLine = false) →
      Line.Locates ⟨before ++ rest, terminator⟩ last →
      Told next before rest terminator ⟨diagnostics ++ [last], none⟩

namespace Reading.Told

variable {α : Type} {next : α → Stage} {before rest : List Token} {terminator : Terminator}
  {reading : Reading α}

theorem stops {diagnostic : Diagnostic}
    (h : Line.Locates ⟨before ++ rest, terminator⟩ diagnostic) :
    (⟨[diagnostic], none⟩ : Reading α).Told next before rest terminator :=
  @givesUp α next before rest terminator [] diagnostic (by simp) h

/-- A reading that starts further back has taken the tokens up to there. -/
theorem behind (taken : List Token) (h : reading.Told next (before ++ taken) rest terminator) :
    reading.Told next before (taken ++ rest) terminator := by
  cases h with
  | goesOn more hothers hrest hat =>
    refine .goesOn (taken ++ more) hothers ?_ ?_
    · rw [hrest, List.append_assoc]
    · rwa [← List.append_assoc]
  | givesUp hothers hlocates =>
    refine .givesUp hothers ?_
    rwa [← List.append_assoc]

/-- Something is said before that is not about the form of the line. -/
theorem also {earlier : List Diagnostic}
    (hearlier : ∀ diagnostic ∈ earlier, diagnostic.isAboutLine = false)
    (h : reading.Told next before rest terminator) :
    (⟨earlier ++ reading.diagnostics, reading.value⟩ : Reading α).Told next before rest
      terminator := by
  cases h with
  | goesOn taken hothers hrest hat =>
    exact .goesOn taken (List.forall_mem_append.2 ⟨hearlier, hothers⟩) hrest hat
  | givesUp hothers hlocates =>
    show Told next before rest terminator ⟨earlier ++ (_ ++ [_]), none⟩
    rw [← List.append_assoc]
    exact .givesUp (List.forall_mem_append.2 ⟨hearlier, hothers⟩) hlocates

end Reading.Told

namespace LineReader

variable {α β : Type} {stage : Stage} {next : α → Stage}

/-- At the stage, the reader goes on to the next one or gives up. -/
def Steps (stage : Stage) (reader : LineReader α) (next : α → Stage) : Prop :=
  ∀ (before : List Token) (context : LineContext) (start : Cursor), stage.At before start.rest →
    (reader context start).Told next before start.rest context.terminator

/-- A reading that has come to a stage is followed by another from there. -/
theorem told_bind {reader : LineReader α} {more : α → LineReader β} {later : β → Stage}
    {before rest : List Token} {context : LineContext} {start : Cursor}
    (h : (reader context start).Told next before rest context.terminator)
    (hmore : ∀ a, Steps (next a) (more a) later) :
    ((reader >>= more : LineReader β) context start).Told later before rest context.terminator := by
  show (LineReader.bind reader more context start).Told later before rest context.terminator
  unfold LineReader.bind
  generalize reader context start = first at h ⊢
  cases h with
  | givesUp hearlier hlocates => exact .givesUp hearlier hlocates
  | @goesOn _ a middle taken hearlier hrest hat =>
    rw [hrest]
    exact ((hmore a _ context middle hat).behind taken).also hearlier

/-- A sequence goes from the first stage of one reader to the last stage of the other. -/
theorem Steps.bind {reader : LineReader α} {more : α → LineReader β} {later : β → Stage}
    (h : Steps stage reader next) (hmore : ∀ a, Steps (next a) (more a) later) :
    Steps stage (reader >>= more) later :=
  fun before context start hat => told_bind (h before context start hat) hmore

/-- A reader that takes nothing, goes on and says nothing about the form of the line leaves the
stage as it is. -/
theorem steps_of_stays {reader : LineReader α}
    (h : ∀ context start, ∃ diagnostics a, reader context start = ⟨diagnostics, some (a, start)⟩ ∧
      (∀ diagnostic ∈ diagnostics, diagnostic.isAboutLine = false) ∧ next a = stage) :
    Steps stage reader next := by
  intro before context start hat
  obtain ⟨diagnostics, a, hreader, hothers, hnext⟩ := h context start
  rw [hreader]
  refine .goesOn [] hothers (List.nil_append _).symm ?_
  rwa [List.append_nil, hnext]

theorem steps_pure (a : α) (h : next a = stage) : Steps stage (pure a) next :=
  steps_of_stays fun _ _ => ⟨[], a, rfl, by simp, h⟩

theorem steps_report {fault : Fault} (span : Span)
    (h : (⟨fault, span⟩ : Diagnostic).isAboutLine = false) :
    Steps stage (report fault span) fun _ => stage :=
  steps_of_stays fun _ _ => ⟨[⟨fault, span⟩], (), rfl, by simpa using h, rfl⟩

theorem steps_checkBank (r : Register) (span : Span) :
    Steps stage (checkBank r span) fun _ => stage := by
  refine steps_of_stays fun context start => ?_
  obtain ⟨bank?, terminator⟩ := context
  cases bank? with
  | none => exact ⟨[], (), rfl, by simp, rfl⟩
  | some bank =>
    refine ⟨_, (), checkBank_eq bank terminator r span start, ?_, rfl⟩
    split
    · simp [Diagnostic.isAboutLine, Diagnostic.code, Fault.code]
    · simp

theorem Steps.check {condition : Prop} [Decidable condition] {fault : Fault} {span : Span}
    {more : LineReader α} (h : Steps stage more next)
    (hfault : fault.isAboutClasses = true) :
    Steps stage (if condition then (do LineReader.report fault span; more) else more) next := by
  split
  · exact (steps_report span (Diagnostic.isAboutLine_of_isAboutClasses hfault span)).bind fun _ => h
  · exact h

/-! ### Tokens -/

theorem takeIf_of_lacks {kind : TokenKind} {start : Cursor} (h : start.Lacks kind)
    (context : LineContext) : takeIf kind context start = ⟨[], some (false, start)⟩ := by
  obtain ⟨last, rest⟩ := start
  cases rest with
  | nil => rfl
  | cons token rest => exact if_neg (h token rfl)

theorem exists_of_not_lacks {kind : TokenKind} {start : Cursor} (h : ¬ start.Lacks kind) :
    ∃ token rest, start = ⟨start.last, token :: rest⟩ ∧ token.kind = kind := by
  obtain ⟨last, rest⟩ := start
  cases rest with
  | nil => exact absurd (by simp [Cursor.Lacks]) h
  | cons token rest => exact ⟨token, rest, rfl, by simpa [Cursor.Lacks] using h⟩

/-- A token that is wanted is taken, or it is said where it is missing. -/
theorem take_cases {kind : TokenKind} {before : List Token} {start : Cursor}
    (context : LineContext) (hwants : stage.Wants kind) (hat : stage.At before start.rest) :
    (∃ token rest, start.rest = token :: rest ∧ token.kind = kind ∧
        take kind context start = ⟨[], some (token, ⟨token.span, rest⟩)⟩) ∨
      ∃ diagnostic, take kind context start = ⟨[diagnostic], none⟩ ∧
        Line.Locates ⟨before ++ start.rest, context.terminator⟩ diagnostic := by
  have hlocates {line : Line} {found : Option TokenKind} {span : Span} (h : line.BreaksAt span) :
      line.Locates ⟨.expected kind found, span⟩ :=
    Line.locates_of_breaksAt h (by simp [Fault.code])
  obtain ⟨last, rest⟩ := start
  have hviable := hat.viable hwants.1
  cases rest with
  | nil =>
    refine .inr ⟨_, rfl, hlocates ?_⟩
    rw [List.append_nil]
    exact .ending hviable (hat.not_sentenceForm hwants)
  | cons token rest =>
    by_cases hkind : token.kind = kind
    · exact .inl ⟨token, rest, rfl, hkind, take_cons_of_kind hkind context last rest⟩
    · refine .inr ⟨⟨.expected kind (some token.kind), token.span⟩, by simp [take, hkind],
        hlocates ?_⟩
      exact .token rfl hviable (hat.not_viable hwants hkind)

/-- What comes behind a token that is wanted may look at its text. -/
theorem steps_take_bind {kind : TokenKind} {more : Token → LineReader β} {later : β → Stage}
    (hwants : stage.Wants kind)
    (hmore : ∀ (before : List Token) (context : LineContext) (token : Token) (rest : List Token),
      token.kind = kind → stage.At before (token :: rest) →
      (more token context ⟨token.span, rest⟩).Told later before (token :: rest)
        context.terminator) :
    Steps stage (take kind >>= more) later := by
  intro before context start hat
  show (LineReader.bind (take kind) more context start).Told later before start.rest _
  unfold LineReader.bind
  rcases take_cases context hwants hat with
    ⟨token, rest, hrest, hkind, heq⟩ | ⟨diagnostic, heq, hlocates⟩
  · simp only [heq]
    rw [hrest] at hat ⊢
    exact (hmore before context token rest hkind hat).also (by simp)
  · simp only [heq]
    exact .stops hlocates

/-- Registers and numbers are taken by readers of their own, which look at the texts. -/
theorem Steps.take_bind {kind : TokenKind} {more : Token → LineReader β} {later : β → Stage}
    (hwants : stage.Wants kind) (hkind : kind ≠ .register ∧ kind ≠ .number)
    (hmore : ∀ token, Steps (stage.after kind) (more token) later) :
    Steps stage (take kind >>= more) later := by
  refine steps_take_bind hwants fun before context token rest heq hat => ?_
  subst heq
  have hmeans := Token.meansAfter_of_kind hkind.1 hkind.2 before
  exact (hmore token _ context ⟨token.span, rest⟩ (hat.take hmeans)).behind [token]

theorem steps_takeIf {kind : TokenKind} (hkind : kind ≠ .register ∧ kind ≠ .number) :
    Steps stage (takeIf kind) fun found =>
      if found then stage.after kind else stage.lacking kind := by
  intro before context start hat
  by_cases hlacks : start.Lacks kind
  · rw [takeIf_of_lacks hlacks]
    refine .goesOn [] (by simp) (List.nil_append _).symm ?_
    rw [List.append_nil]
    exact hat.lacking hlacks
  · obtain ⟨token, rest, hstart, rfl⟩ := exists_of_not_lacks hlacks
    rw [hstart] at hat ⊢
    rw [takeIf_cons_of_kind rfl]
    have hmeans := Token.meansAfter_of_kind hkind.1 hkind.2 before
    exact .goesOn [token] (by simp) rfl (hat.take hmeans)

/-- The next token rules out the forms that it does not start. -/
theorem Steps.takeIf_bind {kind : TokenKind} {more : Bool → LineReader β} {later : β → Stage}
    (hkind : kind ≠ .register ∧ kind ≠ .number)
    (hfound : Steps (stage.after kind) (more true) later)
    (hlacking : Steps (stage.lacking kind) (more false) later) :
    Steps stage (takeIf kind >>= more) later := by
  apply (steps_takeIf hkind).bind
  intro found
  cases found with
  | false => exact hlacking
  | true => exact hfound

theorem steps_register (hwants : stage.Wants .register) :
    Steps stage register fun _ => stage.after .register := by
  refine steps_take_bind hwants fun before context token rest hkind hat => ?_
  cases hparse : Register.parse token.text with
  | error cause =>
    have hnothing : ¬ token.MeansAfter before := by
      rintro ⟨hnames, -⟩
      obtain ⟨r, -, hok⟩ := hnames hkind
      rw [hparse] at hok
      cases hok
    exact .stops ⟨by simp [Diagnostic.code, Fault.code],
      fun _ => .mk rfl hkind hnothing hat.meaningful (hat.viable hwants.1),
      by simp [Diagnostic.code, Fault.code], by simp [Diagnostic.code, Fault.code]⟩
  | ok r =>
    have hmeans : token.MeansAfter before :=
      ⟨fun _ => ⟨r, hkind, hparse⟩, fun hnumber => by simp [hkind] at hnumber⟩
    have hsteps : Steps (stage.after .register)
        (do
          checkBank r token.span
          return (r, token.span))
        fun _ => stage.after .register :=
      (steps_checkBank r token.span).bind fun _ => steps_pure _ rfl
    have hat := hat.take hmeans
    rw [hkind] at hat
    exact (hsteps _ context ⟨token.span, rest⟩ hat).behind [token]

theorem steps_integerRegister (hwants : stage.Wants .register) :
    Steps stage integerRegister fun _ => stage.after .register := by
  apply (steps_register hwants).bind
  intro placed
  refine Steps.check (steps_pure _ rfl) ?_
  rfl

/-- The sign of a number is the one that stands before it. -/
theorem steps_number {negative : Bool} (hwants : stage.Wants .number)
    (hsign : stage.negative = negative) :
    Steps stage (number negative) fun _ => stage.after .number := by
  subst hsign
  refine steps_take_bind hwants fun before context token rest hkind hat => ?_
  cases hconstant : constant? stage.negative token.text with
  | none =>
    have hnothing : ¬ token.MeansAfter before := by
      rintro ⟨-, hfits⟩
      rw [← hat.negative_eq] at hfits
      exact constant?_eq_none_iff.1 hconstant (hfits hkind)
    exact .stops ⟨by simp [Diagnostic.code, Fault.code],
      by simp [Diagnostic.code, Fault.code],
      fun _ => .mk rfl hkind hnothing hat.meaningful (hat.viable hwants.1),
      by simp [Diagnostic.code, Fault.code]⟩
  | some word =>
    have hmeans : token.MeansAfter before := by
      refine ⟨fun hregister => by simp [hkind] at hregister, fun _ => ?_⟩
      rw [← hat.negative_eq]
      by_contra hlarge
      rw [constant?_eq_none_iff.2 hlarge] at hconstant
      cases hconstant
    have hat := hat.take hmeans
    rw [hkind] at hat
    exact (steps_pure word rfl _ context ⟨token.span, rest⟩ hat).behind [token]

/-! ### Operands -/

theorem steps_signedNumber :
    Steps ⟨[[.number], [.minus, .number]], false⟩ signedNumber fun _ => .done := by
  apply Steps.takeIf_bind (by decide)
  · exact steps_number (by decide) rfl
  · exact steps_number (by decide) rfl

theorem steps_pair : Steps ⟨[[.register, .comma, .register]], false⟩ pair fun _ => .done := by
  apply (steps_register (by decide)).bind
  intro left
  apply Steps.take_bind (by decide) (by decide)
  intro comma
  apply (steps_register (by decide)).bind
  intro right
  refine Steps.check (steps_pure _ rfl) ?_
  rfl

/-- The brackets of a memory operand are read around this. -/
theorem steps_offset :
    Steps ⟨[[.rightBracket], [.plus, .number, .rightBracket], [.minus, .number, .rightBracket]],
      false⟩ offset fun _ => ⟨[[.rightBracket]], false⟩ := by
  apply Steps.takeIf_bind (by decide)
  · rw [if_pos rfl]
    exact steps_number (by decide) rfl
  · rw [if_neg Bool.false_ne_true]
    apply Steps.takeIf_bind (by decide)
    · exact steps_number (by decide) rfl
    · exact steps_pure _ rfl

theorem steps_address : Steps ⟨addressForms, false⟩ address fun _ => .done := by
  apply Steps.take_bind (by decide) (by decide)
  intro left
  apply (steps_integerRegister (by decide)).bind
  intro base
  apply steps_offset.bind
  intro word
  apply Steps.take_bind (by decide) (by decide)
  intro right
  exact steps_pure _ rfl

/-! ### Items -/

theorem steps_operands (mnemonic : Mnemonic) :
    Steps ⟨mnemonic.forms, false⟩ (operands mnemonic) fun _ => .done := by
  cases mnemonic with
  | li =>
    apply (steps_integerRegister (by decide)).bind
    intro dst
    apply Steps.take_bind (by decide) (by decide)
    intro comma
    apply steps_signedNumber.bind
    intro imm
    exact steps_pure _ rfl
  | mov | alu | cmp =>
    apply steps_pair.bind
    intro registers
    exact steps_pure _ rfl
  | neg | ret =>
    apply (steps_register (by decide)).bind
    intro placed
    exact steps_pure _ rfl
  | ld | st =>
    apply (steps_register (by decide)).bind
    intro placed
    apply Steps.take_bind (by decide) (by decide)
    intro comma
    apply steps_address.bind
    intro target
    exact steps_pure _ rfl
  | fma =>
    apply (steps_register (by decide)).bind
    intro dst
    apply Steps.take_bind (by decide) (by decide)
    intro comma
    apply steps_pair.bind
    intro factors
    refine Steps.check (steps_pure _ rfl) ?_
    rfl

/-- A mnemonic tells how the sentence goes on. -/
theorem at_forms {name : Token} {mnemonic : Mnemonic} (hcalls : name.Calls mnemonic)
    (rest : List Token) : Stage.At ⟨mnemonic.forms, false⟩ [name] rest where
  sound later hmem := sentenceForm_iff.2 (.inr ⟨name, later, mnemonic, rfl, hcalls, hmem⟩)
  complete later hform _ := by
    rcases sentenceForm_iff.1 hform with hkinds | ⟨_, _, other, heq, hother, hmem⟩
    · have hkind := (List.cons.inj hkinds).1
      rw [hcalls.1] at hkind
      cases hkind
    · obtain ⟨rfl, rfl⟩ := List.cons.inj heq
      have hsame : some mnemonic = some other := by
        rw [← Mnemonic.ofText?_text, ← hcalls.2, hother.2, Mnemonic.ofText?_text]
      obtain rfl := Option.some.inj hsame
      exact hmem
  meaningful := by
    have hmeans : name.MeansAfter [] :=
      Token.meansAfter_of_kind (by simp [hcalls.1]) (by simp [hcalls.1]) []
    exact meaningful_nil.concat hmeans
  negative_eq := by simp [endsInMinus, hcalls.1]

theorem at_assignmentForm {first : Token} (hkind : first.kind = .register) (rest : List Token) :
    Stage.At ⟨[assignmentForm], false⟩ [] (first :: rest) where
  sound later hmem := sentenceForm_iff.2 (.inl (List.mem_singleton.1 hmem))
  complete later hform hnext := by
    rcases sentenceForm_iff.1 hform with hkinds | ⟨name, _, _, rfl, hcalls, -⟩
    · exact List.mem_singleton.2 hkinds
    · obtain ⟨_, ⟨⟩, heq⟩ := hnext name rfl
      rw [hcalls.1, hkind] at heq
      cases heq
  meaningful := meaningful_nil
  negative_eq := rfl

theorem viable_nil : Viable [] :=
  (@at_assignmentForm ⟨.register, [], ⟨0, 0, 0⟩⟩ rfl []).viable (by decide)

theorem steps_assignment : Steps ⟨[assignmentForm], false⟩ assignment fun _ => .done := by
  apply (steps_register (by decide)).bind
  rintro ⟨virt, virtSpan⟩
  apply Steps.take_bind (by decide) (by decide)
  intro arrow
  apply (steps_register (by decide)).bind
  rintro ⟨real, realSpan⟩
  -- Faults of the assignment itself are reported behind its last token.
  cases hfault : assignmentFault? virt real virtSpan realSpan with
  | none =>
    simp only [hfault]
    exact steps_pure _ rfl
  | some diagnostic =>
    simp only [hfault]
    apply (steps_report diagnostic.span (Diagnostic.isAboutLine_of_assignmentFault? hfault)).bind
    intro reported
    exact steps_pure _ rfl

/-- A line that starts with a name that is no mnemonic starts no sentence. -/
theorem told_instruction {name : Token} (hkind : name.kind = .name) (context : LineContext)
    (last : Span) (rest : List Token) :
    (instruction context ⟨last, name :: rest⟩).Told (fun _ => .done) [] (name :: rest)
      context.terminator := by
  rw [instruction_cons hkind]
  cases hmnemonic : Mnemonic.ofText? name.text with
  | none =>
    have hbreaks : ¬ Viable ([] ++ [name]) := by
      rintro ⟨later, hform⟩
      rcases sentenceForm_iff.1 hform with hkinds | ⟨_, _, mnemonic, heq, hcalls, -⟩
      · have hregister := (List.cons.inj hkinds).1
        rw [hkind] at hregister
        cases hregister
      · obtain ⟨rfl, rfl⟩ := List.cons.inj heq
        rw [hcalls.2, Mnemonic.ofText?_text] at hmnemonic
        cases hmnemonic
    exact .stops (Line.locates_of_breaksAt (.token rfl viable_nil hbreaks) (by simp [Fault.code]))
  | some mnemonic =>
    have hcalls : name.Calls mnemonic := ⟨hkind, (Mnemonic.text_eq_of_ofText? hmnemonic).symm⟩
    exact (steps_operands mnemonic [name] context ⟨name.span, rest⟩ (at_forms hcalls rest)).behind
      [name]

theorem told_item (context : LineContext) (last : Span) (first : Token) (rest : List Token) :
    (item first context ⟨last, first :: rest⟩).Told (fun _ => .done) [] (first :: rest)
      context.terminator := by
  -- No sentence starts with a token of another kind.
  have hbreaks (hregister : first.kind ≠ .register) (hname : first.kind ≠ .name) :
      Line.BreaksAt ⟨first :: rest, context.terminator⟩ first.span := by
    refine .token rfl viable_nil ?_
    rintro ⟨later, hform⟩
    rcases sentenceForm_iff.1 hform with hkinds | ⟨_, _, _, heq, hcalls, -⟩
    · exact hregister (List.cons.inj hkinds).1
    · obtain ⟨rfl, rfl⟩ := List.cons.inj heq
      exact hname hcalls.1
  unfold item
  cases hkind : first.kind with
  | register =>
    exact steps_assignment [] context ⟨last, first :: rest⟩ (at_assignmentForm hkind rest)
  | name =>
    exact told_bind (told_instruction hkind context last rest) fun _ => steps_pure _ rfl
  | _ =>
    exact .stops (Line.locates_of_breaksAt (hbreaks (by simp [hkind]) (by simp [hkind]))
      (by simp [Fault.code]))

end LineReader

/-! ## Lines and listings -/

/-- When a line is settled, it may be said besides that its register is assigned already. -/
theorem LineReading.diagnostics_settle (earlier : List Assignment) (reading : LineReading) :
    ∃ twice, (reading.settle earlier).diagnostics =
        reading.diagnostics ++ twice ++ reading.trailing ∧
      ∀ diagnostic ∈ twice, ∃ virt real span, ∃ first ∈ earlier,
        reading.item? = some (.assignment virt real, span) ∧
          diagnostic = ⟨.assignedTwice virt first.span, span⟩ := by
  obtain ⟨diagnostics, item?, trailing⟩ := reading
  have hnothing : ∃ twice, diagnostics ++ trailing = diagnostics ++ twice ++ trailing ∧
      ∀ diagnostic ∈ twice, ∃ virt real span, ∃ first ∈ earlier,
        item? = some (.assignment virt real, span) ∧
          diagnostic = ⟨.assignedTwice virt first.span, span⟩ := ⟨[], by simp, by simp⟩
  cases item? with
  | none => exact hnothing
  | some placed =>
    obtain ⟨item, span⟩ := placed
    cases item with
    | instr inst => exact hnothing
    | assignment virt real =>
      simp only [settle]
      cases hfind : earlier.find? fun assignment => assignment.virt = .reg virt with
      | none => exact hnothing
      | some first =>
        refine ⟨[⟨.assignedTwice virt first.span, span⟩], by simp, ?_⟩
        intro diagnostic hmem
        exact ⟨virt, real, span, first, List.mem_of_find?_eq_some hfind, rfl,
          List.mem_singleton.1 hmem⟩

namespace Line

variable {line : Line}

/-- What follows a sentence is told from its first token to its last one. -/
theorem locates_trailing {before after : List Token} {diagnostic : Diagnostic}
    (htokens : line.tokens = before ++ after) (hform : SentenceForm before)
    (hspaced : Spaced line.tokens)
    (hmem : diagnostic ∈ trailing after) : line.Locates diagnostic := by
  cases after with
  | nil => cases hmem
  | cons first rest =>
    obtain rfl := List.mem_singleton.1 hmem
    have hsuffix : first :: rest <:+ line.tokens := ⟨before, htokens.symm⟩
    have hspan := (hspaced.sublist hsuffix.sublist).cover_lastSpan
    rw [← span_getLast first rest] at hspan
    refine ⟨by simp [Diagnostic.code, Fault.code], by simp [Diagnostic.code, Fault.code],
      by simp [Diagnostic.code, Fault.code], fun _ => ?_⟩
    show line.GoesOnAt (first.span.cover _)
    rw [hspan]
    refine .mk htokens hform ?_
    rw [htokens, List.getLast?_append_of_ne_nil _ (List.cons_ne_nil _ _),
      List.getLast?_eq_some_getLast (List.cons_ne_nil _ _)]

theorem length_filter_trailing_le_one (tokens : List Token) :
    ((trailing tokens).filter Diagnostic.isAboutLine).length ≤ 1 := by
  refine Nat.le_trans (List.length_filter_le _ _) ?_
  cases tokens <;> simp [trailing]

/-- What is said when a line without invalid characters is read. -/
theorem syntax_of_read (bank? : Option Bank) (hvalid : line.invalidTokens = [])
    (hspaced : Spaced line.tokens) :
    (((line.read bank?).diagnostics ++ (line.read bank?).trailing).filter
        Diagnostic.isAboutLine).length ≤ 1 ∧
      ∀ diagnostic ∈ (line.read bank?).diagnostics ++ (line.read bank?).trailing,
        line.Locates diagnostic := by
  obtain ⟨tokens, terminator⟩ := line
  rw [read, hvalid]
  cases tokens with
  | nil => simp
  | cons first rest =>
    simp only
    have htold := LineReader.told_item ⟨bank?, terminator⟩ first.span first rest
    generalize LineReader.item first ⟨bank?, terminator⟩ ⟨first.span, first :: rest⟩ = reading
      at htold ⊢
    have hother {diagnostics : List Diagnostic}
        (h : ∀ diagnostic ∈ diagnostics, diagnostic.isAboutLine = false) :
        diagnostics.filter Diagnostic.isAboutLine = [] :=
      List.filter_eq_nil_iff.2 fun diagnostic hmem => by simp [h diagnostic hmem]
    cases htold with
    | @goesOn diagnostics item? stop taken hothers hrest hat =>
      have hform : SentenceForm taken := by
        have hsound := hat.sound [] (List.mem_singleton.2 rfl)
        rwa [List.append_nil] at hsound
      simp only [List.filter_append, hother hothers, List.nil_append]
      refine ⟨length_filter_trailing_le_one stop.rest, List.forall_mem_append.2 ⟨?_, ?_⟩⟩
      · exact fun diagnostic hmem => locates_of_not_isAboutLine (hothers diagnostic hmem)
      · exact fun diagnostic hmem => locates_trailing hrest hform hspaced hmem
    | givesUp hothers hlocates =>
      simp only [List.append_nil, List.filter_append, hother hothers, List.nil_append]
      refine ⟨List.length_filter_le _ _, List.forall_mem_append.2 ⟨?_, ?_⟩⟩
      · exact fun diagnostic hmem => locates_of_not_isAboutLine (hothers diagnostic hmem)
      · exact List.forall_mem_singleton.2 hlocates

theorem syntaxTold_settle (bank? : Option Bank) (earlier : List Assignment)
    (hspaced : Spaced line.tokens) :
    line.SyntaxTold ((line.read bank?).settle earlier) := by
  obtain ⟨twice, hdiagnostics, htwice⟩ := (line.read bank?).diagnostics_settle earlier
  have hother : ∀ diagnostic ∈ twice, diagnostic.isAboutLine = false := by
    intro diagnostic hmem
    obtain ⟨virt, real, span, first, -, -, rfl⟩ := htwice diagnostic hmem
    rfl
  refine ⟨fun hvalid => ?_, fun hvalid => ?_⟩
  · obtain ⟨hcount, -⟩ := syntax_of_read bank? hvalid hspaced
    have hnone : twice.filter Diagnostic.isAboutLine = [] :=
      List.filter_eq_nil_iff.2 fun diagnostic hmem => by simp [hother diagnostic hmem]
    rw [List.filter_append] at hcount
    rwa [hdiagnostics, List.filter_append, List.filter_append, hnone, List.append_nil]
  · obtain ⟨-, hlocates⟩ := syntax_of_read bank? hvalid hspaced
    obtain ⟨hread, htrailing⟩ := List.forall_mem_append.1 hlocates
    rw [hdiagnostics]
    refine List.forall_mem_append.2 ⟨List.forall_mem_append.2 ⟨hread, ?_⟩, htrailing⟩
    exact fun diagnostic hmem => locates_of_not_isAboutLine (hother diagnostic hmem)

end Line

theorem forall₂_syntaxTold_settleLines (bank? : Option Bank) {lines : List Line}
    (h : ∀ line ∈ lines, Spaced line.tokens) (earlier : List Assignment) :
    List.Forall₂ Line.SyntaxTold lines (settleLines earlier (lines.map (Line.read bank?))) := by
  induction lines generalizing earlier with
  | nil => exact .nil
  | cons line lines ih =>
    obtain ⟨hspaced, hlines⟩ := List.forall_mem_cons.1 h
    exact .cons (Line.syntaxTold_settle bank? earlier hspaced) (ih hlines _)

/-- A line that breaks the grammar is told so once, and where it does. The lines of a text are the
stretches of tokens between newlines, and the diagnostics of the parse are those of its lines, in
their order. -/
theorem Listing.line_faults_located (source : String) (file : Nat) (bank? : Option Bank) :
    let lines := linesOf file source.toList
    let parts := parseLines source.toList file bank?
    lines.map Line.tokens = ((Token.scan file 0 source.toList).splitOnP fun token =>
        token.kind = .newline) ∧
      (parse source file bank?).diagnostics = parts.flatMap ParsedListing.diagnostics ∧
      List.Forall₂ Line.SyntaxTold lines parts := by
  intro lines parts
  have hjoin := ParsedListing.join_eq_flatMap parts
  exact ⟨Line.map_tokens_split _ _, congrArg ParsedListing.diagnostics hjoin,
    forall₂_syntaxTold_settleLines bank? (fun _ hmem => spaced_tokens hmem) []⟩

/-- After one sign a number is expected, and after a sentence nothing is. -/
example :
    ((Listing.parse "li %r0, - -1\nret %r1 %r2" 0 none).diagnostics.map fun diagnostic =>
        (diagnostic.code, diagnostic.span)) =
      [("EL03", ⟨0, 10, 11⟩), ("EL06", ⟨0, 21, 24⟩)] := by
  decide +kernel

end RegisterMapping
