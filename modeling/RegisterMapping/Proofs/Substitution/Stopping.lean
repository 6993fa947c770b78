import RegisterMapping.Proofs.Substitution.Refusal

/-!
# A pass stops between two instructions

A pass over a program goes through the instructions before the first one that is refused, and what
it makes of those is what it makes of them alone (`substituteFrom_append`). The refused instruction
and all after it stay as they are, so none is left half replaced, and the failure is the refusal of
that instruction as it stood in the program (`substituteAll_stops_at_first_refused`).
-/

set_option autoImplicit false

namespace RegisterMapping

section Programs

variable {ι ε : Type} [TargetInstruction ι ε] {assign : AssignmentFunction}

/-- A pass never adds or drops an instruction. -/
theorem length_insts_substituteFrom (assign : AssignmentFunction) (index : Nat) (insts : List ι) :
    (substituteFrom assign index insts).insts.length = insts.length := by
  induction insts generalizing index with
  | nil => rfl
  | cons inst rest ih =>
    cases houtcome : (remapFor inst assign).outcome with
    | error cause => rw [substituteFrom_cons_of_error houtcome]
    | ok remap =>
      rw [(substituteFrom_cons_of_ok houtcome index rest).1, List.length_cons, List.length_cons, ih]

theorem failure_substituteFrom_eq_none {insts : List ι}
    (h : ∀ inst ∈ insts, ∃ remap, (remapFor inst assign).outcome = .ok remap) (index : Nat) :
    (substituteFrom assign index insts).failure = none := by
  induction insts generalizing index with
  | nil => rfl
  | cons inst rest ih =>
    obtain ⟨remap, hremap⟩ := h inst List.mem_cons_self
    rw [(substituteFrom_cons_of_ok hremap index rest).2]
    exact ih (fun later hmem => h later (List.mem_cons_of_mem _ hmem)) (index + 1)

/-- A pass goes through instructions that are not refused as if nothing came after them, and from
there on as if nothing came before. -/
theorem substituteFrom_append {before : List ι}
    (h : ∀ inst ∈ before, ∃ remap, (remapFor inst assign).outcome = .ok remap) (index : Nat)
    (after : List ι) :
    (substituteFrom assign index (before ++ after)).insts =
        (substituteFrom assign index before).insts ++
          (substituteFrom assign (index + before.length) after).insts ∧
      (substituteFrom assign index (before ++ after)).failure =
        (substituteFrom assign (index + before.length) after).failure := by
  induction before generalizing index with
  | nil => exact ⟨rfl, rfl⟩
  | cons inst rest ih =>
    obtain ⟨remap, hremap⟩ := h inst List.mem_cons_self
    obtain ⟨hinsts, hfailure⟩ :=
      ih (fun later hmem => h later (List.mem_cons_of_mem _ hmem)) (index + 1)
    have hindex : index + 1 + rest.length = index + (inst :: rest).length := by
      rw [List.length_cons]
      omega
    rw [List.cons_append, (substituteFrom_cons_of_ok hremap index (rest ++ after)).1,
      (substituteFrom_cons_of_ok hremap index (rest ++ after)).2,
      (substituteFrom_cons_of_ok hremap index rest).1, hinsts, hfailure, hindex]
    exact ⟨rfl, rfl⟩

/-- A pass that fails has come to a first instruction that is refused, and stops there. -/
theorem exists_first_refused {insts : List ι} {failure : ProgramFailure ε}
    (h : (substituteAll insts assign).failure = some failure) :
    ∃ before inst after, insts = before ++ inst :: after ∧
      (∀ earlier ∈ before, ∃ remap, (remapFor earlier assign).outcome = .ok remap) ∧
      (remapFor inst assign).outcome = .error failure.cause ∧
      failure.index = before.length ∧
      (substituteAll insts assign).insts =
        (substituteAll before assign).insts ++ inst :: after := by
  have hrefused : ∃ inst ∈ insts, ¬ ∃ remap, (remapFor inst assign).outcome = .ok remap := by
    by_contra hnone
    have hall : ∀ inst ∈ insts, ∃ remap, (remapFor inst assign).outcome = .ok remap := by
      simpa using hnone
    exact absurd ((failure_substituteFrom_eq_none hall 0).symm.trans h) (by simp)
  obtain ⟨before, inst, after, rfl, hbefore, hinst⟩ := exists_first_of_exists hrefused
  obtain ⟨hinsts, hfailure⟩ := substituteFrom_append hbefore 0 (inst :: after)
  cases houtcome : (remapFor inst assign).outcome with
  | ok remap => exact absurd ⟨remap, houtcome⟩ hinst
  | error cause =>
    rw [substituteFrom_cons_of_error houtcome] at hinsts hfailure
    have hstop : some failure = some ⟨0 + before.length, cause⟩ := h.symm.trans hfailure
    obtain rfl := Option.some.inj hstop
    exact ⟨before, inst, after, rfl, hbefore, houtcome, Nat.zero_add _, hinsts⟩

end Programs

/-- A pass that fails stops cleanly between two instructions. Those before the first one that is
refused become what the pass makes of them alone, that one and all after it stay, and the failure
is the refusal of that instruction. Of two-address instructions, the first one is refused that has
an operand that is no register, or a virtual operand to which something is assigned that is no
register or a register of another class. If there is an operand that is no register, it is reported
by the usage table, the first one in the order of the accesses, and whatever is assigned; otherwise
the first assignment that does not fit is reported, in the order of the usage table. -/
theorem substituteAll_stops_at_first_refused :
    (∀ (ι ε : Type) [TargetInstruction ι ε] (insts : List ι) (assign : AssignmentFunction)
        (failure : ProgramFailure ε), (substituteAll insts assign).failure = some failure →
      ∃ before inst after, insts = before ++ inst :: after ∧ failure.index = before.length ∧
        (∀ earlier ∈ before, ∃ remap, (remapFor earlier assign).outcome = .ok remap) ∧
        (remapFor inst assign).outcome = .error failure.cause ∧
        (substituteAll before assign).failure = none ∧
        (substituteAll before assign).insts.length = before.length ∧
        (substituteAll insts assign).insts =
          (substituteAll before assign).insts ++ inst :: after) ∧
    ∀ (insts : List Instr) (assign : AssignmentFunction) (failure : ProgramFailure UsageError),
        (substituteAll insts assign).failure = some failure →
      ∃ before inst after, insts = before ++ inst :: after ∧ failure.index = before.length ∧
        (∀ earlier ∈ before, ¬ earlier.Blocked assign) ∧ inst.Blocked assign ∧
        (.invalid ∈ inst.operands →
          ∃ e, inst.Reports e ∧ failure.cause = .usage e ∧
            ∀ other, remapFor inst other = remapFor inst assign) ∧
        (.invalid ∉ inst.operands →
          ∃ usage e, inst.usage.outcome = .ok usage ∧ usage.Reports assign e ∧
            failure.cause = .remap e) := by
  refine ⟨fun ι ε _ insts assign failure h => ?_, fun insts assign failure h => ?_⟩
  · obtain ⟨before, inst, after, hsplit, hbefore, hcause, hindex, hinsts⟩ :=
      exists_first_refused h
    exact ⟨before, inst, after, hsplit, hindex, hbefore, hcause,
      failure_substituteFrom_eq_none hbefore 0, length_insts_substituteFrom assign 0 before,
      hinsts⟩
  · obtain ⟨before, inst, after, hsplit, hbefore, hcause, hindex, -⟩ := exists_first_refused h
    have hblocked := Instr.exists_error_iff_blocked.1 ⟨_, hcause⟩
    refine ⟨before, inst, after, hsplit, hindex, fun earlier hmem => ?_, hblocked,
      fun hinvalid => ?_, fun hvalid => ?_⟩
    · obtain ⟨remap, hremap⟩ := hbefore earlier hmem
      rw [← Instr.exists_error_iff_blocked, hremap]
      simp
    · obtain ⟨e, hreports, he, hother⟩ := Instr.refused_of_invalid hinvalid assign
      exact ⟨e, hreports, Except.error.inj (hcause.symm.trans he), hother⟩
    · obtain ⟨usage, e, husage, hreports, he⟩ := Instr.refused_of_valid hvalid hblocked
      exact ⟨usage, e, husage, hreports, Except.error.inj (hcause.symm.trans he)⟩

/-- The second instruction has an operand that is no register beside one that is assigned a register
of another class; the operand is reported, and the instruction and what follows it stay. -/
theorem substituteAll_stops_at_first_refused_sample :
    let first : Register := ⟨.int64, true, 0, by decide⟩
    let second : Register := ⟨.flt64, true, 1, by decide⟩
    let real : Register := ⟨.int64, false, 3, by decide⟩
    let program : List Instr :=
      [.neg (.reg first), .fma (.reg second) (.reg first) .invalid, .ret (.reg first)]
    let assign : AssignmentFunction := fun _ => some (.reg real)
    let read : Usage := ⟨[(first, .read)], by decide, by decide⟩
    (substituteAll program assign).failure =
        some ⟨1, .usage (.invalidHandle .read read)⟩ ∧
      (substituteAll program assign).insts =
        [.neg (.reg real), .fma (.reg second) (.reg first) .invalid, .ret (.reg first)] ∧
      ∃ before inst after, program = before ++ inst :: after ∧ before.length = 1 ∧
        inst.Blocked assign ∧ ∀ earlier ∈ before, ¬ earlier.Blocked assign := by
  intro first second real program assign read
  have hfailure : (substituteAll program assign).failure =
      some ⟨1, .usage (.invalidHandle .read read)⟩ := by decide
  obtain ⟨before, inst, after, hsplit, hindex, hbefore, hinst, -⟩ :=
    substituteAll_stops_at_first_refused.2 program assign _ hfailure
  exact ⟨hfailure, by decide, before, inst, after, hsplit, hindex.symm, hinst, hbefore⟩

end RegisterMapping
