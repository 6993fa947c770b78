import Mathlib.Data.List.Forall2
import RegisterMapping.Instr.Basic
import RegisterMapping.Proofs.Remap
import RegisterMapping.Proofs.Usage

/-!
# Substitution is simultaneous

The pass over a program builds a usage table and a replacement table for each instruction and
applies the second to every operand. What comes out is a simultaneous substitution: each operand
is replaced by what is assigned to it, once, and everything else about the instruction stays
(`substituteAll_eq_replaced`). The pass gets through exactly the programs without invalid operands
whose virtual operands are assigned registers of their class, or nothing; neither table overflows.
-/

set_option autoImplicit false

namespace RegisterMapping

/-- A list with an element that lacks a property has a first one. -/
theorem exists_first_of_exists {α : Type} {p : α → Prop} {l : List α} (h : ∃ x ∈ l, ¬ p x) :
    ∃ before x after, l = before ++ x :: after ∧ (∀ y ∈ before, p y) ∧ ¬ p x := by
  classical
  obtain ⟨y, hmem, hy⟩ := h
  obtain ⟨x, hfind⟩ := Option.isSome_iff_exists.1
    ((List.find?_isSome (p := fun x => decide (¬ p x))).2 ⟨y, hmem, decide_eq_true hy⟩)
  obtain ⟨hx, before, after, hsplit, hbefore⟩ := List.find?_eq_some_iff_append.1 hfind
  exact ⟨before, x, after, hsplit, fun z hz => by simpa using hbefore z hz, of_decide_eq_true hx⟩

/-! ## The replacement table of an instruction -/

namespace Usage

theorem mem_virtuals_iff {usage : Usage} {r : Register} :
    r ∈ usage.virtuals ↔ r ∈ usage.registers ∧ r.isVirtual = true := by
  simp [virtuals]

theorem nodup_virtuals (usage : Usage) : usage.virtuals.Nodup :=
  usage.nodup_registers.filter _

/-- A replacement table has room for every register that one instruction may use. -/
theorem capacity_le_remapCapacity : capacity ≤ Remap.capacity := by decide

theorem length_virtuals_le (usage : Usage) : usage.virtuals.length ≤ Remap.capacity :=
  calc usage.virtuals.length
    _ ≤ usage.registers.length := List.length_filter_le _ _
    _ = usage.size := usage.length_registers
    _ ≤ capacity := usage.length_le
    _ ≤ Remap.capacity := capacity_le_remapCapacity

end Usage

section Targets

variable {ι ε : Type} [TargetInstruction ι ε] {assign : AssignmentFunction}

theorem outcome_remapFor (inst : ι) (assign : AssignmentFunction) :
    (remapFor inst assign).outcome =
      ((TargetInstruction.usage inst).outcome.mapError InstructionError.usage).bind fun usage =>
        (Remap.empty.addAssigned assign (Usage.virtuals usage)).outcome.mapError
          InstructionError.remap :=
  Traced.outcome_bind _ _

/-- If what is assigned fits, the table holds a pair for each virtual register that has an
assignment. -/
theorem exists_remapFor_of_fits (inst : ι) {usage : Usage}
    (husage : (TargetInstruction.usage inst).outcome = .ok usage)
    (fits : ∀ r ∈ usage.virtuals, assign.Fits r) :
    ∃ remap, (remapFor inst assign).outcome = .ok remap ∧
      remap.pairs = usage.virtuals.filterMap assign.pair? := by
  obtain ⟨remap, hremap, hpairs⟩ := Remap.exists_addAssigned_of_fits .empty
    usage.nodup_virtuals (by simp [Remap.empty])
    (by simpa [Remap.empty, RegisterTable.size] using usage.length_virtuals_le) fits
  refine ⟨remap, ?_, by simpa [Remap.empty, Remap.pairs] using hpairs⟩
  rw [outcome_remapFor, husage]
  show (Except.mapError _ _) = _
  rw [hremap]
  rfl

/-- A complaint about the first register of a usage table with an assignment that does not fit. -/
def Usage.Reports (usage : Usage) (assign : AssignmentFunction) (e : RemapError) : Prop :=
  ∃ (before : List Register) (r : Register) (after : List Register) (table : Remap),
    usage.virtuals = before ++ r :: after ∧ (∀ s ∈ before, assign.Fits s) ∧
      table.pairs = before.filterMap assign.pair? ∧ assign.Complaint table r e

/-- If something does not fit, the first register of which this is so is reported. -/
theorem exists_reports_of_misfit (inst : ι) {usage : Usage}
    (returns : (TargetInstruction.usage inst).outcome = .ok usage)
    (h : ∃ r ∈ usage.virtuals, ¬ assign.Fits r) :
    ∃ e, usage.Reports assign e ∧ (remapFor inst assign).outcome = .error (.remap e) := by
  obtain ⟨before, r, after, hsplit, fits, misfit⟩ := exists_first_of_exists h
  have hlength := usage.length_virtuals_le
  have hdistinct := usage.nodup_virtuals
  rw [hsplit] at hdistinct
  simp only [hsplit, List.length_append] at hlength
  obtain ⟨table, e, hpairs, hcomplaint, he⟩ := Remap.empty.exists_complaint_of_misfit
    (List.nodup_append.1 hdistinct).1 (by simp [Remap.empty])
    (by simp [Remap.empty, RegisterTable.size]; omega) fits misfit after
  refine ⟨e, ⟨before, r, after, table, hsplit, fits, hpairs, hcomplaint⟩, ?_⟩
  rw [outcome_remapFor, returns]
  show (Except.mapError _ (Remap.empty.addAssigned assign usage.virtuals).outcome) = _
  rw [hsplit, he]
  rfl

/-- An instruction whose usage cannot be told is refused whatever is assigned to registers. -/
theorem remapFor_eq_of_usage_error (inst : ι) {e : ε}
    (h : (TargetInstruction.usage inst).outcome = .error e) (assign : AssignmentFunction) :
    remapFor inst assign = ⟨(TargetInstruction.usage inst).log, .error (.usage e)⟩ := by
  rw [Traced.ext_iff, outcome_remapFor, h, remapFor, Traced.log_bind, Traced.outcome_mapError, h]
  exact ⟨rfl, rfl⟩

end Targets

/-! ## One instruction -/

/-- What takes the place of an operand: what is assigned to it if it is virtual, and the operand
itself if it is not, or if nothing is assigned. -/
def AssignmentFunction.replace (assign : AssignmentFunction) : Handle → Handle
  | .reg r => if r.isVirtual then (assign (.reg r)).getD (.reg r) else .reg r
  | .invalid => .invalid

namespace AssignmentFunction

/-- Registers that are assigned to virtual registers are real. -/
def AssignsReal (assign : AssignmentFunction) : Prop :=
  ∀ r s : Register, r.isVirtual = true → assign (.reg r) = some (.reg s) → s.isVirtual = false

variable {assign : AssignmentFunction}

theorem mem_filterMap_pair?_iff {registers : List Register} {r s : Register} :
    (r, s) ∈ registers.filterMap assign.pair? ↔
      r ∈ registers ∧ assign (.reg r) = some (.reg s) := by
  simp only [List.mem_filterMap, pair?, Option.map_eq_some_iff, Option.bind_eq_some_iff,
    Prod.mk.injEq]
  -- A pair is formed from what is assigned if that is a register, and from nothing else.
  constructor
  · rintro ⟨_, hmem, _, ⟨h, hassign, hregister⟩, rfl, rfl⟩
    cases h with
    | reg t =>
      obtain rfl := Option.some.inj hregister
      exact ⟨hmem, hassign⟩
    | invalid => exact absurd hregister (by simp [Handle.register?])
  · rintro ⟨hmem, hassign⟩
    exact ⟨r, hmem, s, ⟨_, hassign, rfl⟩, rfl, rfl⟩

/-- What fits a virtual register takes its place, and every other register stays. -/
theorem exists_replace {r : Register} (h : r.isVirtual = true → assign.Fits r) :
    ∃ s : Register, assign.replace (.reg r) = .reg s ∧ s.cls = r.cls ∧
      (r.isVirtual = true ∧ assign (.reg r) = some (.reg s) ∨
        s = r ∧ (r.isVirtual = true → assign (.reg r) = none)) := by
  rw [replace]
  by_cases hvirtual : r.isVirtual = true
  · rcases h hvirtual with hnone | ⟨s, hsome, hcls⟩
    · exact ⟨r, by rw [if_pos hvirtual, hnone, Option.getD_none], rfl, .inr ⟨rfl, fun _ => hnone⟩⟩
    · exact ⟨s, by rw [if_pos hvirtual, hsome, Option.getD_some], hcls, .inl ⟨hvirtual, hsome⟩⟩
  · exact ⟨r, if_neg hvirtual, rfl, .inr ⟨rfl, fun h => absurd h hvirtual⟩⟩

/-- A table of the assigned pairs puts in place of an operand what is assigned to it. -/
theorem apply_eq_replace {remap : Remap} {registers : List Register} {r : Register}
    (hpairs : remap.pairs = registers.filterMap assign.pair?)
    (hmem : r ∈ registers ↔ r.isVirtual = true) (fits : r.isVirtual = true → assign.Fits r) :
    remap.apply (.reg r) = assign.replace (.reg r) := by
  show _ = if r.isVirtual then (assign (.reg r)).getD (.reg r) else .reg r
  by_cases hvirtual : r.isVirtual = true
  · rw [if_pos hvirtual]
    -- What is assigned is in the table; where nothing is assigned, the register is not replaced.
    rcases fits hvirtual with hnone | ⟨s, hsome, -⟩
    · rw [hnone]
      refine Remap.apply_reg_of_not_mem fun s hs => ?_
      rw [hpairs, mem_filterMap_pair?_iff, hnone] at hs
      exact absurd hs.2 (by simp)
    · rw [hsome]
      refine Remap.apply_reg_of_mem ?_
      rw [hpairs, mem_filterMap_pair?_iff]
      exact ⟨hmem.2 hvirtual, hsome⟩
  · rw [if_neg hvirtual]
    refine Remap.apply_reg_of_not_mem fun s hs => ?_
    rw [hpairs, mem_filterMap_pair?_iff] at hs
    exact hvirtual (hmem.1 hs.1)

end AssignmentFunction

namespace Instr

/-- The accesses of an instruction are to its operands. -/
theorem mem_map_accesses_iff {inst : Instr} {h : Handle} :
    h ∈ inst.accesses.map Prod.fst ↔ h ∈ inst.operands := by
  cases inst <;> simp [accesses, operands, or_comm, or_left_comm]

theorem forall_isValid_accesses {inst : Instr} (valid : ∀ h ∈ inst.operands, h.isValid = true) :
    ∀ access ∈ inst.accesses, access.1.isValid = true := fun _ hmem =>
  valid _ (mem_map_accesses_iff.1 (List.mem_map_of_mem hmem))

theorem length_accesses_le (inst : Instr) : inst.accesses.length ≤ Usage.capacity := by
  cases inst <;> simp [accesses, Usage.capacity]

/-- Every operand holds a register, and what is assigned to a virtual one fits it. -/
def Assignable (assign : AssignmentFunction) (inst : Instr) : Prop :=
  ∀ h ∈ inst.operands, ∃ r, h = .reg r ∧ (r.isVirtual = true → assign.Fits r)

/-- What takes the place of an operand holds a register. -/
theorem Assignable.isValid_replace {assign : AssignmentFunction} {inst : Instr}
    (h : inst.Assignable assign) :
    ∀ operand ∈ inst.operands, (assign.replace operand).isValid = true := by
  intro operand hmem
  obtain ⟨r, rfl, hfits⟩ := h operand hmem
  obtain ⟨s, hs, -⟩ := AssignmentFunction.exists_replace hfits
  rw [hs]
  rfl

theorem forall_isValid_iff {inst : Instr} :
    (∀ h ∈ inst.operands, h.isValid = true) ↔ Handle.invalid ∉ inst.operands := by
  refine ⟨fun h hmem => Bool.false_ne_true (h _ hmem), fun habsent h hmem => ?_⟩
  cases h with
  | reg r => rfl
  | invalid => exact absurd hmem habsent

theorem exists_usage_of_valid {inst : Instr} (valid : ∀ h ∈ inst.operands, h.isValid = true) :
    ∃ usage, inst.usage.outcome = .ok usage ∧
      ∀ r, r ∈ usage.registers ↔ .reg r ∈ inst.operands := by
  obtain ⟨usage, husage, hmem⟩ := Usage.exists_addAll_of_valid .empty
    (forall_isValid_accesses valid)
    (by simpa [RegisterTable.size] using inst.length_accesses_le)
  exact ⟨usage, husage, fun r => by simpa [mem_map_accesses_iff] using hmem r⟩

/-- The tables of an assignable instruction: its replacement table has the assigned virtual
registers of its usage table, in order, and puts in place of every operand what is assigned to
it. -/
theorem exists_tables_of_assignable {assign : AssignmentFunction} {inst : Instr}
    (h : inst.Assignable assign) :
    ∃ usage remap, inst.usage.outcome = .ok usage ∧ (remapFor inst assign).outcome = .ok remap ∧
      remap.pairs = usage.virtuals.filterMap assign.pair? ∧
      ∀ operand ∈ inst.operands, remap.apply operand = assign.replace operand := by
  obtain ⟨usage, husage, hregisters⟩ := exists_usage_of_valid fun operand hmem => by
    obtain ⟨r, rfl, -⟩ := h operand hmem
    rfl
  obtain ⟨remap, hremap, hpairs⟩ := exists_remapFor_of_fits inst husage fun r hr => by
    obtain ⟨hused, hvirtual⟩ := Usage.mem_virtuals_iff.1 hr
    obtain ⟨_, heq, hfits⟩ := h _ ((hregisters r).1 hused)
    obtain rfl := Handle.reg.inj heq
    exact hfits hvirtual
  refine ⟨usage, remap, husage, hremap, hpairs, fun operand hmem => ?_⟩
  obtain ⟨r, rfl, hfits⟩ := h operand hmem
  refine AssignmentFunction.apply_eq_replace hpairs ?_ hfits
  rw [Usage.mem_virtuals_iff, hregisters]
  exact and_iff_right hmem

theorem exists_remapFor_of_assignable {assign : AssignmentFunction} {inst : Instr}
    (h : inst.Assignable assign) :
    ∃ remap, (remapFor inst assign).outcome = .ok remap ∧
      ∀ operand ∈ inst.operands, remap.apply operand = assign.replace operand := by
  obtain ⟨-, remap, -, hremap, -, happly⟩ := exists_tables_of_assignable h
  exact ⟨remap, hremap, happly⟩

/-- A complaint about the first operand, in the order of the accesses, that is no register, by the
table of the accesses before it. -/
def Reports (inst : Instr) (e : UsageError) : Prop :=
  ∃ (before : List (Handle × Access)) (access : Access) (after : List (Handle × Access))
      (table : Usage),
    inst.accesses = before ++ (.invalid, access) :: after ∧
      (∀ earlier ∈ before, earlier.1.isValid = true) ∧
      (Usage.ofAccesses before).outcome = .ok table ∧ e = .invalidHandle access table

theorem exists_reports_of_invalid {inst : Instr} (h : .invalid ∈ inst.operands) :
    ∃ e, inst.Reports e ∧ inst.usage.outcome = .error e := by
  obtain ⟨call, hcall, hinvalid⟩ := List.mem_map.1 (mem_map_accesses_iff.2 h)
  have hexists : ∃ call ∈ inst.accesses, ¬ call.1.isValid = true :=
    ⟨call, hcall, by simp [hinvalid, Handle.isValid, Handle.register?]⟩
  obtain ⟨before, ⟨operand, access⟩, after, hsplit, hvalid, hoperand⟩ :=
    exists_first_of_exists hexists
  obtain rfl : operand = .invalid := by
    cases operand with
    | reg r => exact absurd rfl hoperand
    | invalid => rfl
  have hlength := inst.length_accesses_le
  simp only [hsplit, List.length_append] at hlength
  obtain ⟨table, htable, herror⟩ := Usage.exists_addAll_of_first_invalid .empty hvalid
    (by simp [RegisterTable.size]; omega) access after
  refine ⟨_, ⟨before, access, after, table, hsplit, hvalid, htable, rfl⟩, ?_⟩
  rw [usage, Usage.ofAccesses, hsplit]
  exact herror

theorem exists_remapFor_error_of_not_assignable {assign : AssignmentFunction} {inst : Instr}
    (h : ¬ inst.Assignable assign) : ∃ cause, (remapFor inst assign).outcome = .error cause := by
  by_cases hinvalid : .invalid ∈ inst.operands
  -- An operand without a register is refused by the usage table already.
  · obtain ⟨e, -, he⟩ := exists_reports_of_invalid hinvalid
    exact ⟨.usage e, by rw [remapFor_eq_of_usage_error inst he]⟩
  · obtain ⟨usage, husage, hregisters⟩ := exists_usage_of_valid (forall_isValid_iff.2 hinvalid)
    have hmisfit : ∃ r ∈ usage.virtuals, ¬ assign.Fits r := by
      by_contra hnone
      refine h fun operand hmem => ?_
      cases operand with
      | invalid => exact absurd hmem hinvalid
      | reg r =>
        refine ⟨r, rfl, fun hvirtual => ?_⟩
        by_contra hfits
        refine hnone ⟨r, ?_, hfits⟩
        exact Usage.mem_virtuals_iff.2 ⟨(hregisters r).2 hmem, hvirtual⟩
    obtain ⟨e, -, he⟩ := exists_reports_of_misfit inst husage hmisfit
    exact ⟨.remap e, he⟩

end Instr

/-! ## A program -/

section Programs

variable {ι ε : Type} [TargetInstruction ι ε] {assign : AssignmentFunction}

/-- The first instruction that is refused ends the pass, and the rest stays as it is. -/
theorem substituteFrom_cons_of_error {inst : ι} {cause : InstructionError ε}
    (h : (remapFor inst assign).outcome = .error cause) (index : Nat) (rest : List ι) :
    substituteFrom assign index (inst :: rest) =
      ⟨inst :: rest, some ⟨index, cause⟩, (remapFor inst assign).log⟩ := by
  rw [substituteFrom]
  simp only [h]

theorem substituteFrom_cons_of_ok {inst : ι} {remap : Remap}
    (h : (remapFor inst assign).outcome = .ok remap) (index : Nat) (rest : List ι) :
    (substituteFrom assign index (inst :: rest)).insts =
        TargetInstruction.substitute remap inst ::
          (substituteFrom assign (index + 1) rest).insts ∧
      (substituteFrom assign index (inst :: rest)).failure =
        (substituteFrom assign (index + 1) rest).failure := by
  rw [substituteFrom]
  simp only [h, and_self]

/-- The assignment function is only asked about virtual registers. -/
theorem addAssigned_congr {other : AssignmentFunction} {registers : List Register}
    (h : ∀ r ∈ registers, other (.reg r) = assign (.reg r)) (remap : Remap) :
    remap.addAssigned other registers = remap.addAssigned assign registers := by
  induction registers generalizing remap with
  | nil => rfl
  | cons r rest ih =>
    have hrest := ih fun s hs => h s (List.mem_cons_of_mem _ hs)
    rw [Remap.addAssigned, Remap.addAssigned, h r List.mem_cons_self]
    cases assign (.reg r) with
    | none => simp only [hrest]
    | some replacement => simp only [hrest]

theorem remapFor_congr {other : AssignmentFunction}
    (h : ∀ r : Register, r.isVirtual = true → other (.reg r) = assign (.reg r)) (inst : ι) :
    remapFor inst other = remapFor inst assign := by
  rw [remapFor]
  refine congrArg _ (funext fun usage => ?_)
  rw [addAssigned_congr fun r hr => h r (Usage.mem_virtuals_iff.1 hr).2]

theorem substituteFrom_congr {other : AssignmentFunction}
    (h : ∀ r : Register, r.isVirtual = true → other (.reg r) = assign (.reg r)) (index : Nat)
    (insts : List ι) : substituteFrom other index insts = substituteFrom assign index insts := by
  induction insts generalizing index with
  | nil => rfl
  | cons inst rest ih =>
    rw [substituteFrom, substituteFrom, remapFor_congr h, ih]

end Programs

namespace Instr

/-- The constant in an instruction: what is loaded, or the distance of a memory operand. -/
def immediate? : Instr → Option Int64
  | .li _ imm => some imm
  | .ld _ address => some address.offset
  | .st _ address => some address.offset
  | .mov _ _ | .alu _ _ _ | .neg _ | .fma _ _ _ | .cmp _ _ | .ret _ => none

theorem immediate?_mapOperands (f : Handle → Handle) (inst : Instr) :
    (inst.mapOperands f).immediate? = inst.immediate? := by
  cases inst <;> rfl

/-- What becomes of an instruction depends on its own operands only. -/
theorem mapOperands_congr {f g : Handle → Handle} {inst : Instr}
    (h : ∀ operand ∈ inst.operands, f operand = g operand) :
    inst.mapOperands f = inst.mapOperands g := by
  cases inst <;> simp_all [Instr.operands, mapOperands]

theorem mapOperands_of_fixed {f : Handle → Handle} {inst : Instr}
    (h : ∀ operand ∈ inst.operands, f operand = operand) : inst.mapOperands f = inst := by
  cases inst <;> simp_all [Instr.operands, mapOperands]

/-- The second instruction is the first one with its operands replaced, and nothing else. -/
structure ReplacedBy (assign : AssignmentFunction) (before after : Instr) : Prop where
  mnemonic : after.mnemonic = before.mnemonic
  immediate : after.immediate? = before.immediate?
  operands : after.operands = before.operands.map assign.replace

theorem replacedBy_mapOperands (assign : AssignmentFunction) (inst : Instr) :
    inst.ReplacedBy assign (inst.mapOperands assign.replace) where
  mnemonic := mnemonic_mapOperands assign.replace inst
  immediate := immediate?_mapOperands assign.replace inst
  operands := operands_mapOperands assign.replace inst

end Instr

variable {assign : AssignmentFunction}

/-- A pass over assignable instructions gets through and replaces every operand. -/
theorem substituteFrom_eq_map {insts : List Instr} (h : ∀ inst ∈ insts, inst.Assignable assign)
    (index : Nat) :
    (substituteFrom assign index insts).failure = none ∧
      (substituteFrom assign index insts).insts =
        insts.map (Instr.mapOperands assign.replace) := by
  induction insts generalizing index with
  | nil => exact ⟨rfl, rfl⟩
  | cons inst rest ih =>
    obtain ⟨hinst, hrest⟩ := List.forall_mem_cons.1 h
    obtain ⟨remap, hremap, happly⟩ := Instr.exists_remapFor_of_assignable hinst
    obtain ⟨hinsts, hfailure⟩ := substituteFrom_cons_of_ok hremap index rest
    obtain ⟨hlater, hreplaced⟩ := ih hrest (index + 1)
    rw [hinsts, hfailure, hreplaced]
    exact ⟨hlater, congrArg (· :: _) (Instr.mapOperands_congr happly)⟩

/-- The pass goes through assignable instructions and replaces the operands of each. -/
theorem substituteFrom_of_assignable {insts : List Instr}
    (h : ∀ inst ∈ insts, inst.Assignable assign) (index : Nat) :
    (substituteFrom assign index insts).failure = none ∧
      List.Forall₂ (Instr.ReplacedBy assign) insts (substituteFrom assign index insts).insts := by
  obtain ⟨hfailure, hinsts⟩ := substituteFrom_eq_map h index
  rw [hinsts, List.forall₂_map_right_iff, List.forall₂_same]
  exact ⟨hfailure, fun inst _ => inst.replacedBy_mapOperands assign⟩

/-- A pass does not get past an instruction that is not assignable. -/
theorem failure_substituteFrom_ne_none {insts : List Instr}
    (h : ∃ inst ∈ insts, ¬ inst.Assignable assign) (index : Nat) :
    (substituteFrom assign index insts).failure ≠ none := by
  induction insts generalizing index with
  | nil => simp at h
  | cons inst rest ih =>
    -- The pass stops here, or at the instruction that is not assignable, which is a later one.
    cases houtcome : (remapFor inst assign).outcome with
    | error cause =>
      rw [substituteFrom_cons_of_error houtcome]
      simp
    | ok remap =>
      obtain ⟨bad, hmem, hbad⟩ := h
      rcases List.mem_cons.1 hmem with rfl | hrest
      · obtain ⟨cause, hcause⟩ := Instr.exists_remapFor_error_of_not_assignable hbad
        exact absurd (hcause.symm.trans houtcome) (by simp)
      · rw [(substituteFrom_cons_of_ok houtcome index rest).2]
        exact ih ⟨bad, hrest, hbad⟩ (index + 1)

theorem failure_substituteAll_eq_none_iff {insts : List Instr} :
    (substituteAll insts assign).failure = none ↔ ∀ inst ∈ insts, inst.Assignable assign := by
  constructor
  · intro hnone inst hmem
    by_contra hbad
    exact failure_substituteFrom_ne_none ⟨inst, hmem, hbad⟩ 0 hnone
  · exact fun h => (substituteFrom_of_assignable h 0).1

theorem Instr.assignable_iff {inst : Instr} :
    inst.Assignable assign ↔
      (∀ h ∈ inst.operands, h.isValid = true) ∧
        ∀ r, .reg r ∈ inst.operands → r.isVirtual = true → assign.Fits r := by
  constructor
  · intro h
    refine ⟨fun operand hmem => ?_, fun r hmem => ?_⟩
    · obtain ⟨r, rfl, -⟩ := h operand hmem
      rfl
    · obtain ⟨_, heq, hfits⟩ := h _ hmem
      obtain rfl := Handle.reg.inj heq
      exact hfits
  · rintro ⟨hvalid, hfits⟩ operand hmem
    cases operand with
    | reg r => exact ⟨r, rfl, hfits r hmem⟩
    | invalid => exact absurd (hvalid _ hmem) Bool.false_ne_true

/-- The pass gets through exactly the programs without invalid operands in which what is assigned
to a virtual operand is nothing or a register of its class. What comes out has every operand
replaced by what is assigned to it and is otherwise unchanged; and what an assignment function
says of real registers plays no part. -/
theorem substituteAll_eq_replaced (insts : List Instr) (assign : AssignmentFunction) :
    ((substituteAll insts assign).failure = none ↔
        (∀ inst ∈ insts, ∀ h ∈ inst.operands, h.isValid = true) ∧
        ∀ inst ∈ insts, ∀ r, .reg r ∈ inst.operands → r.isVirtual = true →
          assign (.reg r) = none ∨
            ∃ s : Register, assign (.reg r) = some (.reg s) ∧ s.cls = r.cls) ∧
      ((substituteAll insts assign).failure = none →
        List.Forall₂ (Instr.ReplacedBy assign) insts (substituteAll insts assign).insts) ∧
      ∀ other : AssignmentFunction,
        (∀ r : Register, r.isVirtual = true → other (.reg r) = assign (.reg r)) →
          substituteAll insts other = substituteAll insts assign := by
  refine ⟨?_, fun hnone => ?_, fun other h => ?_⟩
  · simp only [failure_substituteAll_eq_none_iff, Instr.assignable_iff, ← forall_and]
    exact Iff.rfl
  · exact (substituteFrom_of_assignable (failure_substituteAll_eq_none_iff.1 hnone) 0).2
  · unfold substituteAll
    rw [substituteFrom_congr h]

/-- A function that assigns two virtual registers to each other swaps them, since what is assigned
is not replaced again. -/
example :
    let first : Handle := .reg ⟨.int64, true, 0, by decide⟩
    let second : Handle := .reg ⟨.int64, true, 1, by decide⟩
    (substituteAll [Instr.alu .sub first second, .ret first]
      (fun h => if h = first then some second else some first)).insts =
        [.alu .sub second first, .ret second] := by
  decide

end RegisterMapping
