import RegisterMapping.OperandList
import RegisterMapping.Proofs.Substitution

/-!
# Why an instruction is refused

The replacement table of an instruction is built from its usage table, so it replaces no register
twice and never runs out of room. What can go wrong is an assignment that does not fit
(`remapFor_of_usage`), and the first register in the order of the usage table to which one belongs
is the one that is reported. For a two-address instruction there is one more reason: an operand
that is no register, which the usage table refuses before any assignment is looked at
(`Instr.refused_of_invalid`, `Instr.refused_of_valid`).
-/

set_option autoImplicit false

namespace RegisterMapping

/-- If what is assigned fits, the pairs that are formed are the registers with what is assigned. -/
theorem AssignmentFunction.map_filterMap_pair? {assign : AssignmentFunction}
    {registers : List Register} (fits : ∀ r ∈ registers, assign.Fits r) :
    (registers.filterMap assign.pair?).map (fun pair => (pair.1, Handle.reg pair.2)) =
      registers.filterMap fun r => (assign (.reg r)).map fun x => (r, x) := by
  rw [List.map_filterMap]
  refine List.filterMap_congr fun r hr => ?_
  rcases fits r hr with hnone | ⟨s, hsome, -⟩
  · simp [pair?, hnone]
  · simp [pair?, hsome, Handle.register?]

/-! ## Instructions of any target -/

section Targets

variable {ι ε : Type} [TargetInstruction ι ε] {assign : AssignmentFunction}

/-- If the usage of an instruction can be told, its replacement table never meets a register twice
and never runs out of room. The table cannot be built exactly if something is assigned to a virtual
register of the instruction that is no register or a register of another class; otherwise its pairs
are the virtual registers that have an assignment, with what is assigned to them, in the order of
the usage table, and no real register is replaced. -/
theorem remapFor_of_usage (inst : ι) (assign : AssignmentFunction) {usage : Usage}
    (returns : (TargetInstruction.usage inst).outcome = .ok usage) :
    (∀ cause, (remapFor inst assign).outcome = .error cause →
        (∀ r existing s, cause ≠ .remap (.remappedTwice r existing s)) ∧
          ∀ r s table, cause ≠ .remap (.overflow r s table)) ∧
      ((∃ cause, (remapFor inst assign).outcome = .error cause) ↔
        ∃ r ∈ usage.virtuals, ∃ x, assign (.reg r) = some x ∧
          (x = .invalid ∨ ∃ s, x = .reg s ∧ s.cls ≠ r.cls)) ∧
      ∀ remap, (remapFor inst assign).outcome = .ok remap →
        remap.pairs.map (fun pair => (pair.1, Handle.reg pair.2)) =
            (usage.virtuals.filterMap fun r => (assign (.reg r)).map fun x => (r, x)) ∧
          ∀ pair ∈ remap.pairs, pair.1.isVirtual = true := by
  simp only [← AssignmentFunction.not_fits_iff]
  by_cases hfits : ∀ r ∈ usage.virtuals, assign.Fits r
  · obtain ⟨remap, hremap, hpairs⟩ := exists_remapFor_of_fits inst returns hfits
    rw [hremap]
    refine ⟨by simp, iff_of_false (by simp) (by simpa using hfits), ?_⟩
    rintro _ ⟨⟩
    refine ⟨?_, fun pair hmem => ?_⟩
    · rw [hpairs, AssignmentFunction.map_filterMap_pair? hfits]
    · rw [hpairs] at hmem
      exact (Usage.mem_virtuals_iff.1 (AssignmentFunction.mem_filterMap_pair?_iff.1 hmem).1).2
  · have hmisfit : ∃ r ∈ usage.virtuals, ¬ assign.Fits r := by simpa using hfits
    obtain ⟨e, ⟨_, _, _, _, -, -, -, hcomplaint⟩, he⟩ :=
      exists_reports_of_misfit inst returns hmisfit
    rw [he]
    refine ⟨?_, iff_of_true ⟨_, rfl⟩ hmisfit, by simp⟩
    rintro _ ⟨⟩
    cases hcomplaint with
    | noRegister => exact ⟨by simp, by simp⟩
    | otherClass => exact ⟨by simp, by simp⟩

/-- One register takes the place of two virtual ones, one of which has two accesses; of another
class, it is refused for the second of them. -/
theorem remapFor_of_usage_sample :
    let first : Register := ⟨.int64, true, 0, by decide⟩
    let second : Register := ⟨.int64, true, 1, by decide⟩
    let real : Register := ⟨.int64, false, 0, by decide⟩
    let other : Register := ⟨.flt64, false, 0, by decide⟩
    let inst : OperandList := ⟨[(.reg first, .read), (.reg real, .modify), (.reg second, .read),
      (.reg first, .write)]⟩
    let same : AssignmentFunction := fun _ => some (.reg real)
    let mixed : AssignmentFunction := fun h => if h = .reg second then some (.reg other) else none
    ∃ usage, (TargetInstruction.usage inst).outcome = .ok usage ∧
      (∃ remap, (remapFor inst same).outcome = .ok remap ∧
        remap.pairs.map (fun pair => (pair.1, Handle.reg pair.2)) =
          [(first, .reg real), (second, .reg real)]) ∧
      ∃ cause, (remapFor inst mixed).outcome = .error cause ∧
        ∀ r existing s, cause ≠ .remap (.remappedTwice r existing s) := by
  intro first second real other inst same mixed
  let usage : Usage := ⟨[(first, .modify), (real, .modify), (second, .read)], by decide, by decide⟩
  have returns : (TargetInstruction.usage inst).outcome = .ok usage := rfl
  have hclasses : ∀ r ∈ usage.virtuals, r.cls = .int64 := by decide
  obtain ⟨-, hsame, hpairs⟩ := remapFor_of_usage inst same returns
  obtain ⟨hcauses, hmixed, -⟩ := remapFor_of_usage inst mixed returns
  refine ⟨usage, returns, ?_, ?_⟩
  · cases houtcome : (remapFor inst same).outcome with
    | ok remap => exact ⟨remap, rfl, (hpairs remap houtcome).1⟩
    | error cause =>
      obtain ⟨r, hmem, x, hx, hbad⟩ := hsame.1 ⟨cause, houtcome⟩
      obtain rfl := Option.some.inj hx
      simp [hclasses r hmem, real] at hbad
  · obtain ⟨cause, houtcome⟩ := hmixed.2
      ⟨second, by decide, .reg other, by decide, .inr ⟨other, rfl, by decide⟩⟩
    exact ⟨cause, houtcome, (hcauses cause houtcome).1⟩

end Targets

/-! ## Two-address instructions -/

namespace Instr

variable {assign : AssignmentFunction} {inst : Instr}

/-- An operand is no register, or something is assigned to a virtual operand that is no register or
a register of another class. -/
def Blocked (assign : AssignmentFunction) (inst : Instr) : Prop :=
  .invalid ∈ inst.operands ∨
    ∃ r : Register, .reg r ∈ inst.operands ∧ r.isVirtual = true ∧
      ∃ x, assign (.reg r) = some x ∧ (x = .invalid ∨ ∃ s, x = .reg s ∧ s.cls ≠ r.cls)

theorem not_assignable_iff : ¬ inst.Assignable assign ↔ inst.Blocked assign := by
  rw [assignable_iff, forall_isValid_iff, Blocked]
  simp only [← AssignmentFunction.not_fits_iff]
  by_cases hinvalid : Handle.invalid ∈ inst.operands
  · exact iff_of_true (fun h => h.1 hinvalid) (.inl hinvalid)
  · simp [hinvalid]

theorem exists_error_iff_blocked :
    (∃ cause, (remapFor inst assign).outcome = .error cause) ↔ inst.Blocked assign := by
  rw [← not_assignable_iff]
  refine ⟨?_, exists_remapFor_error_of_not_assignable⟩
  rintro ⟨cause, hcause⟩ hassignable
  obtain ⟨remap, hremap, -⟩ := exists_remapFor_of_assignable hassignable
  exact absurd (hcause.symm.trans hremap) (by simp)

/-- An operand that is no register is reported by the usage table, and the assignment plays no
part in it. -/
theorem refused_of_invalid (h : .invalid ∈ inst.operands) (assign : AssignmentFunction) :
    ∃ e, inst.Reports e ∧ (remapFor inst assign).outcome = .error (.usage e) ∧
      ∀ other, remapFor inst other = remapFor inst assign := by
  obtain ⟨e, hreports, he⟩ := exists_reports_of_invalid h
  have heq := remapFor_eq_of_usage_error inst he
  refine ⟨e, hreports, by rw [heq], fun other => ?_⟩
  rw [heq, heq]

/-- If every operand is a register, what is reported is the first assignment that does not fit. -/
theorem refused_of_valid (h : .invalid ∉ inst.operands) (hblocked : inst.Blocked assign) :
    ∃ usage e, inst.usage.outcome = .ok usage ∧ usage.Reports assign e ∧
      (remapFor inst assign).outcome = .error (.remap e) := by
  obtain ⟨usage, husage, hregisters⟩ := exists_usage_of_valid (forall_isValid_iff.2 h)
  obtain ⟨r, hr, hvirtual, hmisfit⟩ := hblocked.resolve_left h
  obtain ⟨e, hreports, he⟩ := exists_reports_of_misfit inst husage
    ⟨r, Usage.mem_virtuals_iff.2 ⟨(hregisters r).2 hr, hvirtual⟩,
      AssignmentFunction.not_fits_iff.2 hmisfit⟩
  exact ⟨usage, e, husage, hreports, he⟩

end Instr

end RegisterMapping
