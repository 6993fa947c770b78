import RegisterMapping.Proofs.Listing.Excerpts
import RegisterMapping.Proofs.Listing.LineOrder

/-!
# The first assignment of a register

A line assigns a register if it starts with an assignment that keeps the rules, whatever else is
wrong with it (`Line.candidate?`). Of the lines that assign one register, the first one counts: the
listing has its assignment, and each of the others is told that it comes too late, and nothing else
is. So the allocation of a listing has one entry for each of its assignments, and no entry is ever
overwritten (`Listing.first_assignments_count`).

While lines are settled, what is kept of the lines before are their first assignments only. These
answer the question whether a register is assigned as all of them would, with the same first
assignment (`Keeps`), which one line preserves (`Keeps.concat`).
-/

set_option autoImplicit false

namespace RegisterMapping

/-! ## Lines that assign a register -/

/-- What a line assigns if no line before has assigned the register, and where. -/
structure Candidate where
  virt : Register
  real : Register
  span : Span
  deriving DecidableEq

/-- The assignment as it stands in a listing. -/
def Candidate.assignment (candidate : Candidate) : Assignment :=
  ⟨.reg candidate.virt, .reg candidate.real, candidate.span⟩

/-- A line without invalid characters assigns a register if it starts with a virtual register, an
arrow and a real register of the same class. -/
def Line.candidate? (line : Line) : Option Candidate :=
  match line.invalidTokens, line.tokens with
  | [], left :: arrow :: right :: _ =>
    match left.register?, right.register? with
    | some virt, some real =>
      if arrow.kind = .arrow ∧ virt.isVirtual = true ∧ real.isReal = true ∧ virt.cls = real.cls then
        some ⟨virt, real, left.span.cover right.span⟩
      else none
    | _, _ => none
  | _, _ => none

theorem Line.candidate?_eq_some_iff {line : Line} {candidate : Candidate} :
    line.candidate? = some candidate ↔
      line.invalidTokens = [] ∧ ∃ left arrow right rest,
        line.tokens = left :: arrow :: right :: rest ∧
        left.Names candidate.virt ∧ arrow.kind = .arrow ∧ right.Names candidate.real ∧
        (Item.assignment candidate.virt candidate.real).wellTyped = true ∧
        candidate.span = left.span.cover right.span := by
  have htyped (virt real : Register) : (Item.assignment virt real).wellTyped = true ↔
      virt.isVirtual = true ∧ real.isReal = true ∧ virt.cls = real.cls := by
    simp [Item.wellTyped, and_assoc]
  rw [candidate?]
  constructor
  · intro h
    split at h
    · next left arrow right rest hinvalid htokens =>
      split at h
      · next virt real hleft hright =>
        simp only [Option.ite_none_right_eq_some, Option.some.injEq] at h
        obtain ⟨⟨harrow, hrules⟩, rfl⟩ := h
        exact ⟨hinvalid, left, arrow, right, rest, htokens, Token.register?_eq_some_iff.1 hleft,
          harrow, Token.register?_eq_some_iff.1 hright, (htyped virt real).2 hrules, rfl⟩
      · cases h
    · cases h
  · obtain ⟨virt, real, span⟩ := candidate
    rintro ⟨hinvalid, left, arrow, right, rest, htokens, hleft, harrow, hright, hrules, rfl⟩
    rw [hinvalid, htokens]
    simp only [hleft.register?, hright.register?]
    exact if_pos ⟨harrow, (htyped virt real).1 hrules⟩

namespace LineReader

variable {context : LineContext}

/-- A register is read whether the bank has it or not. -/
theorem value_register_of_names {token : Token} {r : Register} (h : token.Names r) (last : Span)
    (rest : List Token) :
    (register context ⟨last, token :: rest⟩).value =
      some ((r, token.span), ⟨token.span, rest⟩) := by
  have htake : (take .register context ⟨last, token :: rest⟩).value =
      some (token, ⟨token.span, rest⟩) := by rw [take_cons_of_kind h.1]
  refine value_bind_eq_some_iff.2 ⟨token, _, htake, ?_⟩
  simp only [h.2]
  exact value_bind_eq_some_iff.2 ⟨(), _, value_checkBank _ _ _ _, rfl⟩

/-- An assignment that keeps the rules is read, whatever follows it. -/
theorem value_assignment_of_names {left arrow right : Token} {virt real : Register}
    (hleft : left.Names virt) (harrow : arrow.kind = .arrow) (hright : right.Names real)
    (hrules : (Item.assignment virt real).wellTyped = true) (last : Span) (rest : List Token) :
    (assignment context ⟨last, left :: arrow :: right :: rest⟩).value =
      some (some (.assignment virt real), ⟨right.span, rest⟩) := by
  have htake : (take .arrow context ⟨left.span, arrow :: right :: rest⟩).value =
      some (arrow, ⟨arrow.span, right :: rest⟩) := by rw [take_cons_of_kind harrow]
  refine value_bind_eq_some_iff.2 ⟨_, _, value_register_of_names hleft _ _, ?_⟩
  refine value_bind_eq_some_iff.2 ⟨_, _, htake, ?_⟩
  refine value_bind_eq_some_iff.2 ⟨_, _, value_register_of_names hright _ _, ?_⟩
  simp only [assignmentFault?_eq_none_iff.2 hrules]
  rfl

end LineReader

/-- A line that assigns a register has this assignment as its item. -/
theorem Line.item?_eq_assignment_iff {bank? : Option Bank} {line : Line} {virt real : Register}
    {span : Span} :
    (line.read bank?).item? = some (.assignment virt real, span) ↔
      line.candidate? = some ⟨virt, real, span⟩ := by
  rw [candidate?_eq_some_iff]
  constructor
  · intro h
    have hrules : (Item.assignment virt real).wellTyped = true := sound_of_read h
    obtain ⟨hinvalid, -⟩ := sentence_of_item h
    obtain ⟨left, tokens, rest, htokens, hsentence, rfl, -⟩ := read_front h
    cases hsentence with
    | @assignment _ arrow right _ _ hleft harrow hright =>
      exact ⟨hinvalid, left, arrow, right, rest, htokens, hleft, harrow, hright, hrules, rfl⟩
  · rintro ⟨hinvalid, left, arrow, right, rest, htokens, hleft, harrow, hright, hrules, rfl⟩
    have hitem : LineReader.item left = LineReader.assignment := by
      rw [LineReader.item, hleft.1]
    simp only [read, hinvalid, htokens, hitem,
      LineReader.value_assignment_of_names hleft harrow hright hrules]
    rfl

/-! ## First and later candidates -/

namespace Candidate

/-- Each of the candidates, with the first of those before it for the same register, if there is
one. -/
def withFirst (candidates : List Candidate) : List (Option Candidate × Candidate) :=
  candidates.zipIdx.map fun (candidate, place) =>
    ((candidates.take place).find? fun first => first.virt = candidate.virt, candidate)

/-- The first candidate for a register makes its assignment. -/
def kept? : Option Candidate × Candidate → Option Assignment
  | (none, candidate) => some candidate.assignment
  | (some _, _) => none

/-- A later candidate is told, together with the first one. -/
def late? : Option Candidate × Candidate → Option Diagnostic
  | (none, _) => none
  | (some first, candidate) =>
    some ⟨.assignedTwice candidate.virt first.span, candidate.span⟩

/-- The same for candidates behind others. -/
def withFirstBehind (past : List Candidate) :
    List Candidate → List (Option Candidate × Candidate)
  | [] => []
  | candidate :: rest =>
    (past.find? fun first => first.virt = candidate.virt, candidate) ::
      withFirstBehind (past ++ [candidate]) rest

theorem withFirstBehind_eq (past candidates : List Candidate) :
    withFirstBehind past candidates =
      (candidates.zipIdx past.length).map fun (candidate, place) =>
        (((past ++ candidates).take place).find? fun first => first.virt = candidate.virt,
          candidate) := by
  induction candidates generalizing past with
  | nil => rfl
  | cons candidate rest ih =>
    rw [withFirstBehind, ih, List.zipIdx_cons, List.map_cons]
    simp only [List.take_left, List.append_assoc, List.singleton_append, List.length_append,
      List.length_singleton]

theorem withFirst_eq (candidates : List Candidate) :
    withFirst candidates = withFirstBehind [] candidates := by
  rw [withFirstBehind_eq]
  rfl

/-- What is kept assigns no register twice, and none that was assigned before. -/
theorem nodup_kept (past candidates : List Candidate) :
    (∀ assignment ∈ (withFirstBehind past candidates).filterMap kept?,
      ∀ first ∈ past, assignment.virt ≠ .reg first.virt) ∧
    (((withFirstBehind past candidates).filterMap kept?).map Assignment.virt).Nodup := by
  induction candidates generalizing past with
  | nil => simp [withFirstBehind]
  | cons candidate rest ih =>
    obtain ⟨hfresh, hnodup⟩ := ih (past ++ [candidate])
    have hpast := fun assignment hmem first hfirst =>
      hfresh assignment hmem first (List.mem_append_left _ hfirst)
    rw [withFirstBehind]
    cases hfind : past.find? fun first => first.virt = candidate.virt with
    | some first => exact ⟨hpast, hnodup⟩
    | none =>
      have hnone : ∀ first ∈ past, first.virt ≠ candidate.virt := by
        simpa [List.find?_eq_none] using hfind
      have hself : ∀ assignment ∈ (withFirstBehind (past ++ [candidate]) rest).filterMap kept?,
          assignment.virt ≠ .reg candidate.virt := fun assignment hmem =>
        hfresh assignment hmem candidate (List.mem_append_right _ (List.mem_singleton_self _))
      refine ⟨List.forall_mem_cons.2 ⟨fun first hfirst heq => ?_, hpast⟩, ?_⟩
      · exact hnone first hfirst (Handle.reg.inj heq).symm
      · refine List.nodup_cons.2 ⟨fun hmem => ?_, hnodup⟩
        obtain ⟨assignment, hassignment, heq⟩ := List.mem_map.1 hmem
        exact hself assignment hassignment heq

end Candidate

/-! ## Settling lines -/

/-- What was read from a line assigns this, if no line before has assigned the register. -/
def LineReading.candidate? (reading : LineReading) : Option Candidate :=
  match reading.item? with
  | some (.assignment virt real, span) => some ⟨virt, real, span⟩
  | _ => none

/-- Of all candidates before, these assignments are kept: the first one for each register. -/
def Keeps (past : List Candidate) (earlier : List Assignment) : Prop :=
  ∀ v : Register, (earlier.find? fun assignment => assignment.virt = .reg v) =
    (past.find? fun first => first.virt = v).map Candidate.assignment

theorem Keeps.concat {past : List Candidate} {earlier : List Assignment} (h : Keeps past earlier)
    (candidate : Candidate) :
    Keeps (past ++ [candidate]) (earlier ++ (Candidate.kept?
      (past.find? fun first => first.virt = candidate.virt, candidate)).toList) := by
  intro v
  rw [List.find?_append, List.find?_append, h v]
  cases hfind : past.find? fun first => first.virt = candidate.virt with
  | none =>
    by_cases heq : candidate.virt = v
    · subst heq
      simp [hfind, Candidate.kept?, Candidate.assignment]
    · simp [heq, Candidate.kept?, Candidate.assignment]
  | some first =>
    -- The first candidate for the register stays the first one.
    by_cases heq : candidate.virt = v
    · subst heq
      simp [hfind, Candidate.kept?]
    · simp [heq, Candidate.kept?]

/-- The diagnostics about registers that are assigned twice. -/
def aboutTwice (diagnostics : List Diagnostic) : List Diagnostic :=
  diagnostics.filter fun diagnostic => diagnostic.code = "EA03"

/-- What a candidate adds to a listing, and whether it is told that it comes too late. -/
theorem Keeps.settle {past : List Candidate} {earlier : List Assignment} (h : Keeps past earlier)
    {reading : LineReading}
    (hothers : aboutTwice (reading.diagnostics ++ reading.trailing) = []) :
    let told := reading.candidate?.map fun candidate =>
      (past.find? fun first => first.virt = candidate.virt, candidate)
    (reading.settle earlier).listing.assignments = (told.bind Candidate.kept?).toList ∧
      aboutTwice (reading.settle earlier).diagnostics = (told.bind Candidate.late?).toList := by
  obtain ⟨diagnostics, item?, trailing⟩ := reading
  cases item? with
  | none => exact ⟨rfl, hothers⟩
  | some placed =>
    obtain ⟨item, span⟩ := placed
    cases item with
    | instr inst => exact ⟨rfl, hothers⟩
    | assignment virt real =>
      simp only [LineReading.settle, h virt, LineReading.candidate?, Option.map_some,
        Option.bind_some]
      cases hfind : past.find? fun first => first.virt = virt with
      | none => exact ⟨rfl, hothers⟩
      | some first =>
        refine ⟨rfl, ?_⟩
        rw [aboutTwice, List.filter_append, List.append_eq_nil_iff] at hothers
        have htwice : (⟨.assignedTwice virt first.span, span⟩ : Diagnostic).code = "EA03" := rfl
        show aboutTwice (diagnostics ++ ⟨.assignedTwice virt first.span, span⟩ :: trailing) = _
        rw [aboutTwice, List.filter_append, List.filter_cons, if_pos (decide_eq_true htwice),
          hothers.1, hothers.2]
        rfl

/-- What lines add to a listing, behind others of which the first assignments are kept. -/
theorem Keeps.join_settleLines {readings : List LineReading}
    (hothers : ∀ reading ∈ readings, aboutTwice (reading.diagnostics ++ reading.trailing) = [])
    {past : List Candidate} {earlier : List Assignment} (h : Keeps past earlier) :
    let told := Candidate.withFirstBehind past (readings.filterMap LineReading.candidate?)
    let parsed := ParsedListing.join (settleLines earlier readings)
    parsed.listing.assignments = told.filterMap Candidate.kept? ∧
      aboutTwice parsed.diagnostics = told.filterMap Candidate.late? := by
  induction readings generalizing past earlier with
  | nil => exact ⟨rfl, rfl⟩
  | cons reading readings ih =>
    obtain ⟨hreading, hreadings⟩ := List.forall_mem_cons.1 hothers
    obtain ⟨hassignments, htwice⟩ := h.settle hreading
    rw [settleLines, ParsedListing.join_cons]
    simp only [ParsedListing.append, aboutTwice, List.filter_append] at htwice ⊢
    cases hcandidate : reading.candidate? with
    | none =>
      rw [hcandidate] at hassignments htwice
      rw [List.filterMap_cons_none hcandidate, hassignments, htwice]
      obtain ⟨hrest, hrest'⟩ := ih hreadings h
      simp only [Option.map_none, Option.bind_none, Option.toList_none, List.append_nil,
        List.nil_append]
      exact ⟨hrest, hrest'⟩
    | some candidate =>
      rw [hcandidate] at hassignments htwice
      rw [List.filterMap_cons_some hcandidate, hassignments, htwice]
      obtain ⟨hrest, hrest'⟩ := ih hreadings (h.concat candidate)
      simp only [Option.map_some, Option.bind_some, Candidate.withFirstBehind]
      rw [hrest]
      refine ⟨(filterMap_cons_toList _ _ _).symm, ?_⟩
      rw [filterMap_cons_toList]
      exact congrArg _ hrest'

namespace Line

variable {bank? : Option Bank} {line : Line}

theorem candidate?_read : (line.read bank?).candidate? = line.candidate? := by
  refine Option.ext fun candidate => ?_
  obtain ⟨virt, real, span⟩ := candidate
  rw [← @item?_eq_assignment_iff bank?, LineReading.candidate?]
  split
  · next v r place hitem => simp [hitem, and_assoc]
  · next hnone => simpa using hnone virt real span

/-- When a line is read by itself, nothing is said of registers that are assigned twice. -/
theorem aboutTwice_read :
    aboutTwice ((line.read bank?).diagnostics ++ (line.read bank?).trailing) = [] := by
  obtain ⟨hdiagnostics, -⟩ :=
    @points_read (fun _ => True) line (fun _ _ _ _ => trivial) (fun _ _ => trivial) bank?
  refine List.filter_eq_nil_iff.2 fun diagnostic hmem => ?_
  cases hdiagnostics diagnostic hmem with
  | @here fault span hplain _ =>
    cases fault with
    | assignedTwice virt first => cases hplain
    | _ => simp [Diagnostic.code, Fault.code]
  | ending what => simp [Diagnostic.code, Fault.code]

end Line

/-! ## Allocations -/

namespace Allocation

/-- Where every key comes once, there are as many entries as pairs. -/
theorem length_entries_ofPairs {pairs : List (Handle × Handle)}
    (h : (pairs.map Prod.fst).Nodup) : (ofPairs pairs).entries.length = pairs.length := by
  have hentries : (ofPairs pairs).entries.Nodup :=
    (ofPairs pairs).ascending.imp fun hlt heq => by
      subst heq
      exact Std.Irrefl.irrefl (r := EntryBefore) _ hlt
  refine ((List.perm_ext_iff_of_nodup hentries h.of_map).2 ?_).length_eq
  rintro ⟨key, value⟩
  rw [← lookup?_ofPairs_eq_some_iff h]
  exact ⟨lookup_of_mem (ofPairs pairs).ascending, mem_of_lookup⟩

end Allocation

/-- The first line that assigns a register counts, and every later one is told so. Among the lines
that assign a register, whatever else is wrong with them, the listing has the assignments of those
that are the first for their register, in their order. For each of the others there is one
diagnostic, which points to its assignment and to the first one for the register, and there are no
others of this code. The allocation maps a register as its assignment says, and has as many entries
as there are assignments. -/
theorem Listing.first_assignments_count (source : String) (file : Nat) (bank? : Option Bank) :
    let parsed := parse source file bank?
    let told := Candidate.withFirst ((linesOf file source.toList).filterMap Line.candidate?)
    parsed.listing.assignments = told.filterMap Candidate.kept? ∧
      aboutTwice parsed.diagnostics = told.filterMap Candidate.late? ∧
      ((aboutTwice parsed.diagnostics).map fun diagnostic =>
          diagnostic.labels.map fun label => (label.primary, label.span)) =
        told.filterMap (fun (first?, candidate) => first?.map fun first =>
          [(true, candidate.span), (false, first.span)]) ∧
      (∀ virt real, parsed.listing.allocation.lookup? virt = some real ↔
        ∃ span, ⟨virt, real, span⟩ ∈ parsed.listing.assignments) ∧
      parsed.listing.allocation.entries.length = parsed.listing.assignments.length := by
  intro parsed told
  have hothers : ∀ reading ∈ (linesOf file source.toList).map (Line.read bank?),
      aboutTwice (reading.diagnostics ++ reading.trailing) = [] := by
    intro reading hmem
    obtain ⟨line, -, rfl⟩ := List.mem_map.1 hmem
    exact Line.aboutTwice_read
  have hnothing : Keeps [] [] := fun _ => rfl
  have hcandidates : ((linesOf file source.toList).map (Line.read bank?)).filterMap
      LineReading.candidate? = (linesOf file source.toList).filterMap Line.candidate? := by
    rw [List.filterMap_map]
    exact List.filterMap_congr fun line _ => Line.candidate?_read
  obtain ⟨hassignments, htwice⟩ := hnothing.join_settleLines hothers
  rw [hcandidates, ← Candidate.withFirst_eq] at hassignments htwice
  have hkeys : ((parsed.listing.assignments.map fun assignment =>
      (assignment.virt, assignment.real)).map Prod.fst).Nodup := by
    obtain ⟨-, hnodup⟩ := Candidate.nodup_kept [] ((linesOf file source.toList).filterMap
      Line.candidate?)
    rw [List.map_map]
    show (parsed.listing.assignments.map Assignment.virt).Nodup
    rwa [← Candidate.withFirst_eq, ← hassignments] at hnodup
  refine ⟨hassignments, htwice, ?_, fun virt real => ?_, ?_⟩
  · show (aboutTwice parsed.diagnostics).map _ = _
    rw [show aboutTwice parsed.diagnostics = told.filterMap Candidate.late? from htwice,
      List.map_filterMap]
    refine List.filterMap_congr fun pair _ => ?_
    obtain ⟨first?, candidate⟩ := pair
    cases first? <;> rfl
  · rw [allocation, Allocation.lookup?_ofPairs_eq_some_iff hkeys, List.mem_map]
    constructor
    · rintro ⟨⟨_, _, span⟩, hmem, heq⟩
      obtain ⟨rfl, rfl⟩ := Prod.mk.inj heq
      exact ⟨span, hmem⟩
    · rintro ⟨span, hmem⟩
      exact ⟨_, hmem, rfl⟩
  · rw [allocation, Allocation.length_entries_ofPairs hkeys, List.length_map]

/-- A line that breaks the rules for assignments does not reserve its register, and one with
something behind its assignment does. -/
example :
    let parsed := Listing.parse "%vR0 -> %r1\n%vR0 -> %R1 9\n%vR0 -> %R2" 0 none
    parsed.listing.assignments.map Assignment.span = [⟨0, 12, 23⟩] ∧
      parsed.diagnostics.map Diagnostic.code = ["EA02", "EL06", "EA03"] := by
  decide +kernel

end RegisterMapping
