import RegisterMapping.CommandLine.Arguments

/-!
# Flags among the arguments

The flags of a call ask for names in a report or for a log. What is asked of a reader of calls is
that flags do nothing else: leaving some of them out of a call that asks for a report leaves a call
that asks for the same report, but for the flags (`CommandLine.CallReader.FlagsApart`). The reader
of the program is one of that kind (`CommandLine.CallReader.flagsApart_ofWords`).

Arguments are read word by word, and what a word does to the options read so far is either a steady
step, one that can be made as well if fewer flags have been asked for (`CommandLine.Steady`), or it
ends the reading without options (`CommandLine.ReadsSteadily`). So the two calls are read side by
side, with the options of the second always the quieter ones (`CommandLine.FlagsDropped.sameTask`).
A flag in the place of a target is refused, and after two hyphens alone it is the path.
-/

set_option autoImplicit false

namespace RegisterMapping.CommandLine

/-! ## Options of which less is asked for -/

/-- The second options are the first ones, with no more flags asked for. -/
structure Quieter (options quieter : PartialOptions) : Prop where
  target : quieter.target? = options.target?
  path : quieter.path? = options.path?
  names : quieter.names = true → options.names = true
  verbose : quieter.verbose = true → options.verbose = true

/-- A step in reading options that can be made as well if fewer flags have been asked for. -/
def Steady (step : PartialOptions → Option PartialOptions) : Prop :=
  ∀ ⦃options quieter next : PartialOptions⦄, Quieter options quieter → step options = some next →
    ∃ next', step quieter = some next' ∧ Quieter next next'

theorem steady_some : Steady some := by
  intro options quieter next h hnext
  obtain rfl := Option.some.inj hnext
  exact ⟨quieter, rfl, h⟩

/-- Two steady steps, one after the other, are steady. -/
theorem Steady.bind {step later : PartialOptions → Option PartialOptions} (h : Steady step)
    (hlater : Steady later) : Steady fun options => (step options).bind later := by
  intro options quieter last hquieter hlast
  obtain ⟨next, hnext, hlast⟩ := Option.bind_eq_some_iff.1 hlast
  obtain ⟨next', hnext', hquieter'⟩ := h hquieter hnext
  obtain ⟨last', hlast', hquieter''⟩ := hlater hquieter' hlast
  exact ⟨last', Option.bind_eq_some_iff.2 ⟨next', hnext', hlast'⟩, hquieter''⟩

/-- Something is set unless it is set already, and with fewer flags it is not set either. -/
theorem steady_of_unless {step : PartialOptions → Option PartialOptions}
    (guard : PartialOptions → Bool) (set : PartialOptions → PartialOptions)
    (hstep : ∀ options, step options = if guard options then none else some (set options))
    (hguard : ∀ {options quieter}, Quieter options quieter →
      guard quieter = true → guard options = true)
    (hset : ∀ {options quieter}, Quieter options quieter → Quieter (set options) (set quieter)) :
    Steady step := by
  intro options quieter next h hnext
  rw [hstep] at hnext ⊢
  split at hnext
  · cases hnext
  · next hfree =>
    obtain rfl := Option.some.inj hnext
    exact ⟨set quieter, if_neg fun hquieter => hfree (hguard h hquieter), hset h⟩

/-- Whether a target has been given already does not depend on the flags. -/
theorem steady_setTarget (target : String) : Steady (PartialOptions.setTarget? · target) :=
  steady_of_unless (fun options => options.target?.isSome) _ (fun _ => rfl)
    (fun h hset => h.target ▸ hset) fun h => ⟨rfl, h.path, h.names, h.verbose⟩

theorem steady_setPath (path : String) : Steady (PartialOptions.setPath? · path) :=
  steady_of_unless (fun options => options.path?.isSome || path = "") _ (fun _ => rfl)
    (fun h hset => h.path ▸ hset) fun h => ⟨h.target, rfl, h.names, h.verbose⟩

theorem steady_setNames : Steady PartialOptions.setNames? :=
  steady_of_unless PartialOptions.names _ (fun _ => rfl) (fun h => h.names)
    fun h => ⟨h.target, h.path, fun _ => rfl, h.verbose⟩

theorem steady_setVerbose : Steady PartialOptions.setVerbose? :=
  steady_of_unless PartialOptions.verbose _ (fun _ => rfl) (fun h => h.verbose)
    fun h => ⟨h.target, h.path, h.names, fun _ => rfl⟩

/-- Something that one side sets, once, leaves the other side the quieter one. -/
theorem Quieter.of_unless {guard : Bool} {step : Option PartialOptions}
    {set quieter next : PartialOptions} (h : Quieter set quieter)
    (hstep : step = if guard then none else some set) (hnext : step = some next) :
    Quieter next quieter := by
  rw [hstep] at hnext
  split at hnext
  · cases hnext
  · obtain rfl := Option.some.inj hnext
    exact h

theorem Quieter.of_setNames {options quieter next : PartialOptions} (h : Quieter options quieter)
    (hnext : options.setNames? = some next) : Quieter next quieter := by
  have hset : Quieter { options with names := true } quieter :=
    ⟨h.target, h.path, fun _ => rfl, h.verbose⟩
  exact hset.of_unless rfl hnext

theorem Quieter.of_setVerbose {options quieter next : PartialOptions} (h : Quieter options quieter)
    (hnext : options.setVerbose? = some next) : Quieter next quieter := by
  have hset : Quieter { options with verbose := true } quieter :=
    ⟨h.target, h.path, h.names, fun _ => rfl⟩
  exact hset.of_unless rfl hnext

/-! ## One word -/

/-- A cluster of short options makes a steady step to options, or to options that wait for a
target, or it leads to no options. -/
theorem readCluster?_cases (letters : List Char) :
    (∃ step, Steady step ∧ ∀ options, readCluster? options letters = (step options).map .options) ∨
      (∃ step, Steady step ∧
        ∀ options, readCluster? options letters = (step options).map .needsTarget) ∨
      ∀ options, readCluster? options letters = none ∨
        readCluster? options letters = some .version := by
  fun_cases readCluster? PartialOptions.empty letters with
  | case1 => exact .inl ⟨some, steady_some, fun _ => rfl⟩
  | case2 => exact .inr (.inr fun _ => .inr rfl)
  | case3 rest =>
    have hverbose (options : PartialOptions) : readCluster? options ('v' :: rest) =
        options.setVerbose?.bind (readCluster? · rest) := by
      rw [readCluster?]
      cases options.setVerbose? <;> rfl
    rcases readCluster?_cases rest with ⟨step, hstep, hread⟩ | ⟨step, hstep, hread⟩ | hnever
    · refine .inl ⟨_, steady_setVerbose.bind hstep, fun options => ?_⟩
      rw [hverbose, Option.map_bind]
      exact congrArg _ (funext hread)
    · refine .inr (.inl ⟨_, steady_setVerbose.bind hstep, fun options => ?_⟩)
      rw [hverbose, Option.map_bind]
      exact congrArg _ (funext hread)
    · refine .inr (.inr fun options => ?_)
      rw [hverbose]
      cases options.setVerbose? with
      | none => exact .inl rfl
      | some next => exact hnever next
  | case4 rest hverbose => cases hverbose
  | case5 => exact .inr (.inl ⟨some, steady_some, fun _ => rfl⟩)
  | case6 value => exact .inl ⟨_, steady_setTarget (String.ofList value), fun _ => rfl⟩
  | case7 value hne heq =>
    refine .inl ⟨_, steady_setTarget (String.ofList value), fun options => ?_⟩
    rw [readCluster?]
    · exact hne
    · exact heq
  | case8 _ hnil hV hv ht heq hvalue =>
    refine .inr (.inr fun options => .inl ?_)
    rw [readCluster?] <;> assumption
termination_by letters.length

/-- How a word is read after the name of an action, whatever comes after it: it makes a steady step
after which options or a target are read, or no options are read. -/
def ReadsSteadily (action : Action) (word : String) : Prop :=
  (∃ step, Steady step ∧ ∀ options rest, readOptions? action options (word :: rest) =
      (step options).bind (readOptions? action · rest)) ∨
    (∃ step, Steady step ∧ ∀ options rest, readOptions? action options (word :: rest) =
      (step options).bind (readOptions?.awaitTarget action · rest)) ∨
    ∀ options rest, readOptions? action options (word :: rest) = none ∨
      readOptions? action options (word :: rest) = some (.version (some action))

theorem readOptions?_cons_short {word : String} {letters : List Char}
    (hword : Word.ofText word = .short letters) (action : Action) (options : PartialOptions)
    (rest : List String) :
    readOptions? action options (word :: rest) =
      match readCluster? options letters with
      | some (.options next) => readOptions? action next rest
      | some .version => some (.version (some action))
      | some (.needsTarget next) => readOptions?.awaitTarget action next rest
      | none => none := by
  have hread := readOptions?.eq_2 action options word rest
  rw [hword] at hread
  exact hread

/-- A cluster of short options is one step, however many options there are in it. -/
theorem readsSteadily_short {word : String} {letters : List Char}
    (hword : Word.ofText word = .short letters) (action : Action) : ReadsSteadily action word := by
  rcases readCluster?_cases letters with ⟨step, hstep, hcluster⟩ | ⟨step, hstep, hcluster⟩ | hnever
  · refine .inl ⟨step, hstep, fun options rest => ?_⟩
    rw [readOptions?_cons_short hword, hcluster]
    cases step options <;> rfl
  · refine .inr (.inl ⟨step, hstep, fun options rest => ?_⟩)
    rw [readOptions?_cons_short hword, hcluster]
    cases step options <;> rfl
  · refine .inr (.inr fun options rest => ?_)
    rw [readOptions?_cons_short hword]
    rcases hnever options with hcluster | hcluster
    · exact .inl (by rw [hcluster])
    · exact .inr (by rw [hcluster])

theorem readsSteadily_long {word : String} {name : List Char} {value? : Option (List Char)}
    (hword : Word.ofText word = .long name value?) (action : Action) :
    ReadsSteadily action word := by
  have hread (options : PartialOptions) (rest : List String) :=
    readOptions?.eq_2 action options word rest
  rw [hword] at hread
  simp only at hread
  unfold ReadsSteadily
  simp only [hread]
  split
  · exact .inr (.inr fun _ _ => .inr rfl)
  · exact .inl ⟨_, steady_setNames, fun _ _ => rfl⟩
  · exact .inl ⟨_, steady_setVerbose, fun _ _ => rfl⟩
  · exact .inl ⟨_, steady_setTarget _, fun _ _ => rfl⟩
  · exact .inr (.inl ⟨some, steady_some, fun _ _ => rfl⟩)
  · exact .inr (.inr fun _ _ => .inl rfl)

theorem eq_of_ofText_eq_endOfOptions {word : String} (h : Word.ofText word = .endOfOptions) :
    word = "--" := by
  unfold Word.ofText at h
  split at h
  · next hletters => exact String.toList_inj.1 hletters
  · next rest _ _ =>
    unfold Word.ofLong at h
    split at h <;> cases h
  · cases h
  · cases h

/-- A word is two hyphens alone or is read steadily. -/
theorem eq_or_readsSteadily (action : Action) (word : String) :
    word = "--" ∨ ReadsSteadily action word := by
  cases hword : Word.ofText word with
  | endOfOptions => exact .inl (eq_of_ofText_eq_endOfOptions hword)
  | long name value? => exact .inr (readsSteadily_long hword action)
  | short letters => exact .inr (readsSteadily_short hword action)
  | operand =>
    refine .inr (.inl ⟨_, steady_setPath word, fun options rest => ?_⟩)
    rw [readOptions?, hword]
    rfl

/-! ## Words of a call -/

/-- The words that ask for names or for a log and do nothing else. -/
def flagWords : List String := ["--names", "--verbose", "-v"]

/-- Some of the flags in a call are left out. After two hyphens alone there are no flags. -/
inductive FlagsDropped : List String → List String → Prop
  | nil : FlagsDropped [] []
  | drop {flag : String} {words quieter : List String} (hflag : flag ∈ flagWords)
      (hrest : FlagsDropped words quieter) : FlagsDropped (flag :: words) quieter
  | uncluster {letters : List Char} {words quieter : List String} (hletters : letters ≠ [])
      (hrest : FlagsDropped words quieter) :
      FlagsDropped (String.ofList ('-' :: 'v' :: letters) :: words)
        (String.ofList ('-' :: letters) :: quieter)
  | keep {word : String} {words quieter : List String} (hword : word ≠ "--")
      (hrest : FlagsDropped words quieter) : FlagsDropped (word :: words) (word :: quieter)
  | operands (words : List String) : FlagsDropped ("--" :: words) ("--" :: words)

/-- The request is the given one, but for flags. -/
def Asks (action : Action) (options : Options) (request? : Option Request) : Prop :=
  ∃ quieter : Options, request? = some (.report action quieter) ∧
    quieter.target? = options.target? ∧ quieter.path = options.path

/-- If options make up a report, quieter ones make up one that asks for the same. -/
theorem Quieter.asks_finish {options quieter : PartialOptions} (h : Quieter options quieter)
    {action asked : Action} {result : Options}
    (hresult : options.finish?.map (Request.report action) = some (.report asked result)) :
    Asks asked result (quieter.finish?.map (.report action)) := by
  unfold PartialOptions.finish? at hresult ⊢
  rw [h.path]
  cases hpath : options.path? with
  | none =>
    rw [hpath] at hresult
    cases hresult
  | some path =>
    rw [hpath] at hresult
    obtain ⟨rfl, rfl⟩ := Request.report.inj (Option.some.inj hresult)
    exact ⟨_, rfl, h.target, rfl⟩

/-- What is read after two hyphens alone does not depend on flags. -/
theorem Quieter.asks_readOperands {options quieter : PartialOptions} (h : Quieter options quieter)
    {action asked : Action} {result : Options} {words : List String}
    (hresult : (readOperands? options words).map (Request.report action) =
      some (.report asked result)) :
    Asks asked result ((readOperands? quieter words).map (.report action)) := by
  induction words generalizing options quieter with
  | nil => exact h.asks_finish hresult
  | cons word rest ih =>
    rw [readOperands?] at hresult ⊢
    cases hnext : options.setPath? word with
    | none =>
      rw [hnext] at hresult
      cases hresult
    | some next =>
      rw [hnext] at hresult
      obtain ⟨next', hnext', hquieter⟩ := steady_setPath word h hnext
      simp only at hnext'
      rw [hnext']
      exact ih hquieter hresult

/-- Reading the second words leads to the same request as reading the first, but for flags. -/
def SameTask (action : Action) (words quieterWords : List String) : Prop :=
  ∀ ⦃options quieter : PartialOptions⦄ ⦃asked : Action⦄ ⦃result : Options⦄,
    Quieter options quieter →
      (readOptions? action options words = some (.report asked result) →
          Asks asked result (readOptions? action quieter quieterWords)) ∧
        (readOptions?.awaitTarget action options words = some (.report asked result) →
          Asks asked result (readOptions?.awaitTarget action quieter quieterWords))

/-- Where a steady step comes first, only what comes after it has to lead to the same request. -/
theorem Steady.asks {step : PartialOptions → Option PartialOptions}
    {later later' : PartialOptions → Option Request} {options quieter : PartialOptions}
    {action : Action} {result : Options} (h : Steady step) (hquieter : Quieter options quieter)
    (hlater : ∀ {next next'}, Quieter next next' →
      later next = some (.report action result) → Asks action result (later' next'))
    (hresult : (step options).bind later = some (.report action result)) :
    Asks action result ((step quieter).bind later') := by
  obtain ⟨next, hnext, hresult⟩ := Option.bind_eq_some_iff.1 hresult
  obtain ⟨next', hnext', hquieter'⟩ := h hquieter hnext
  rw [hnext']
  exact hlater hquieter' hresult

/-- A target is waited for in a word that is no option. -/
theorem operand_of_awaitTarget {action : Action} {options : PartialOptions} {word : String}
    {rest : List String} {request : Request}
    (h : readOptions?.awaitTarget action options (word :: rest) = some request) :
    Word.ofText word = .operand := by
  rw [readOptions?.awaitTarget] at h
  split at h
  · assumption
  · cases h

theorem awaitTarget_cons {word : String} (h : Word.ofText word = .operand) (action : Action)
    (options : PartialOptions) (rest : List String) :
    readOptions?.awaitTarget action options (word :: rest) =
      (options.setTarget? word).bind (readOptions? action · rest) := by
  rw [readOptions?.awaitTarget, h]
  rfl

theorem SameTask.keep {action : Action} {word : String} {words quieterWords : List String}
    (h : SameTask action words quieterWords) (hword : word ≠ "--") :
    SameTask action (word :: words) (word :: quieterWords) := by
  intro options quieter asked result hquieter
  constructor
  · intro hresult
    rcases (eq_or_readsSteadily action word).resolve_left hword with ⟨step, hstep, hread⟩ |
      ⟨step, hstep, hread⟩ | hnever
    · rw [hread] at hresult ⊢
      exact hstep.asks hquieter (fun hnext => (h hnext).1) hresult
    · rw [hread] at hresult ⊢
      exact hstep.asks hquieter (fun hnext => (h hnext).2) hresult
    · rcases hnever options words with hnone | hversion
      · cases hnone.symm.trans hresult
      · cases hversion.symm.trans hresult
  · intro hresult
    have hoperand := operand_of_awaitTarget hresult
    rw [awaitTarget_cons hoperand] at hresult ⊢
    exact (steady_setTarget word).asks hquieter (fun hnext => (h hnext).1) hresult

/-- A flag changes nothing but what has been asked for. -/
theorem readOptions?_flag {flag : String} (hflag : flag ∈ flagWords) {action : Action}
    {options : PartialOptions} {rest : List String} {request : Request}
    (h : readOptions? action options (flag :: rest) = some request) :
    ∃ next, readOptions? action next rest = some request ∧
      ∀ {quieter}, Quieter options quieter → Quieter next quieter := by
  simp only [flagWords, List.mem_cons, List.not_mem_nil, or_false] at hflag
  rcases hflag with rfl | rfl | rfl
  · obtain ⟨next, hnext, hrest⟩ := Option.bind_eq_some_iff.1
      (show options.setNames?.bind (readOptions? action · rest) = some request from h)
    exact ⟨next, hrest, fun hquieter => hquieter.of_setNames hnext⟩
  · obtain ⟨next, hnext, hrest⟩ := Option.bind_eq_some_iff.1
      (show options.setVerbose?.bind (readOptions? action · rest) = some request from h)
    exact ⟨next, hrest, fun hquieter => hquieter.of_setVerbose hnext⟩
  · have hword : Word.ofText "-v" = .short ['v'] := rfl
    rw [readOptions?_cons_short hword, readCluster?] at h
    cases hnext : options.setVerbose? with
    | none =>
      rw [hnext] at h
      cases h
    | some next =>
      rw [hnext] at h
      exact ⟨next, h, fun hquieter => hquieter.of_setVerbose hnext⟩

theorem ofText_flag {flag : String} (hflag : flag ∈ flagWords) : Word.ofText flag ≠ .operand := by
  simp only [flagWords, List.mem_cons, List.not_mem_nil, or_false] at hflag
  rcases hflag with rfl | rfl | rfl <;> decide

theorem ofText_ofList_short {letter : Char} (h : letter ≠ '-') (letters : List Char) :
    Word.ofText (String.ofList ('-' :: letter :: letters)) = .short (letter :: letters) := by
  rw [Word.ofText, String.toList_ofList]
  split
  · next heq =>
    obtain ⟨-, heq⟩ := List.cons.inj heq
    exact absurd (List.cons.inj heq).1 h
  · next heq =>
    obtain ⟨-, heq⟩ := List.cons.inj heq
    exact absurd (List.cons.inj heq).1 h
  · next heq =>
    obtain ⟨-, heq⟩ := List.cons.inj heq
    exact congrArg Word.short heq.symm
  · next hother => exact absurd rfl (hother letter letters)

/-- A request for a log in front of other short options changes nothing else. -/
theorem readOptions?_cluster {letters : List Char} (hletters : letters ≠ []) {action : Action}
    {options : PartialOptions} {rest : List String} {request : Request}
    (h : readOptions? action options (String.ofList ('-' :: 'v' :: letters) :: rest) =
      some request) :
    String.ofList ('-' :: letters) ≠ "--" ∧
      ∃ next, readOptions? action next (String.ofList ('-' :: letters) :: rest) = some request ∧
        ∀ {quieter}, Quieter options quieter → Quieter next quieter := by
  rw [readOptions?_cons_short (ofText_ofList_short (by decide) letters), readCluster?] at h
  cases hnext : options.setVerbose? with
  | none =>
    rw [hnext] at h
    cases h
  | some next =>
    rw [hnext] at h
    simp only at h
    obtain ⟨letter, more, rfl⟩ := List.exists_cons_of_ne_nil hletters
    have hletter : letter ≠ '-' := by
      rintro rfl
      rw [show readCluster? next ('-' :: more) = none from rfl] at h
      cases h
    refine ⟨fun heq => ?_, next, ?_, fun hquieter => hquieter.of_setVerbose hnext⟩
    · have hshort := ofText_ofList_short hletter more
      rw [heq] at hshort
      cases hshort
    · rw [readOptions?_cons_short (ofText_ofList_short hletter more)]
      exact h

theorem FlagsDropped.sameTask {words quieterWords : List String}
    (h : FlagsDropped words quieterWords) (action : Action) :
    SameTask action words quieterWords := by
  induction h with
  | nil => exact fun _ _ _ _ hquieter => ⟨hquieter.asks_finish, fun hresult => by cases hresult⟩
  | drop hflag hrest ih =>
    intro options quieter asked result hquieter
    constructor
    · intro hresult
      obtain ⟨next, hresult, hnext⟩ := readOptions?_flag hflag hresult
      exact (ih (hnext hquieter)).1 hresult
    · intro hresult
      exact absurd (operand_of_awaitTarget hresult) (ofText_flag hflag)
  | uncluster hletters hrest ih =>
    intro options quieter asked result hquieter
    constructor
    · intro hresult
      obtain ⟨hword, next, hresult, hnext⟩ := readOptions?_cluster hletters hresult
      exact (ih.keep hword (hnext hquieter)).1 hresult
    · intro hresult
      have hoperand := operand_of_awaitTarget hresult
      rw [ofText_ofList_short (by decide)] at hoperand
      cases hoperand
  | keep hword hrest ih => exact ih.keep hword
  | operands words =>
    intro options quieter asked result hquieter
    constructor
    · exact hquieter.asks_readOperands
    · intro hresult
      cases operand_of_awaitTarget hresult

/-! ## Calls -/

theorem readArguments?_cons_eq_report {word : String} {rest : List String} {asked : Action}
    {options : Options} (h : readArguments? (word :: rest) = some (.report asked options)) :
    ∃ action, Action.ofText? word = some action ∧
      readOptions? action .empty rest = some (.report asked options) := by
  rw [readArguments?] at h
  split at h
  · next action haction => exact ⟨action, haction, h⟩
  · split at h
    · split at h <;> cases h
    · cases h
    · cases h

/-- The name of an action is no option. -/
theorem operand_of_action {word : String} {action : Action}
    (h : Action.ofText? word = some action) : Word.ofText word = .operand := by
  unfold Action.ofText? at h
  split at h
  · rfl
  · rfl
  · rfl
  · rfl
  · cases h

theorem quieter_refl (options : PartialOptions) : Quieter options options :=
  ⟨rfl, rfl, id, id⟩

/-- A call that is read starts with the name of an action, which is no flag and so is not dropped.
-/
theorem FlagsDropped.asks {arguments quieterArguments : List String}
    (h : FlagsDropped arguments quieterArguments) {asked : Action} {options : Options}
    (hread : readArguments? arguments = some (.report asked options)) :
    Asks asked options (readArguments? quieterArguments) := by
  cases h with
  | nil => cases hread
  | drop hflag hrest =>
    obtain ⟨action, haction, -⟩ := readArguments?_cons_eq_report hread
    exact absurd (operand_of_action haction) (ofText_flag hflag)
  | uncluster hletters hrest =>
    obtain ⟨action, haction, -⟩ := readArguments?_cons_eq_report hread
    have hoperand := operand_of_action haction
    rw [ofText_ofList_short (by decide)] at hoperand
    cases hoperand
  | keep hword hrest =>
    obtain ⟨action, haction, hread⟩ := readArguments?_cons_eq_report hread
    rw [readArguments?, haction]
    exact (hrest.sameTask action (quieter_refl _)).1 hread
  | operands words =>
    obtain ⟨action, haction, -⟩ := readArguments?_cons_eq_report hread
    cases operand_of_action haction

end RegisterMapping.CommandLine
