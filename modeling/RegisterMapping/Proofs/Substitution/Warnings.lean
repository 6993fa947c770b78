import Mathlib.Data.List.Count
import RegisterMapping.Proofs.Legibility
import RegisterMapping.Proofs.Substitution.Composition
import RegisterMapping.Proofs.Usage.Renaming

/-!
# The warnings of a pass

A virtual register without an assignment stays in the program, and all that is said about it is a
warning in the log. The tables that a pass makes are reported there too, but none of that is a
warning (`Traced.Silent`); so the warnings of a pass are those that its instructions give rise to,
one after the other (`warnings_substituteFrom`). An instruction gives rise to one for each virtual
register without an assignment, in the order of its usage table, however often it mentions the
register (`Instr.warnings_remapFor`).
-/

set_option autoImplicit false

namespace RegisterMapping

/-! ## Warnings in a log -/

/-- The warnings in a log, in order. -/
def warnings (log : List LogRecord) : List LogRecord :=
  log.filter fun entry => entry.level = .warn

/-- The warning that a register stays. -/
def stayingVirtual (r : Register) : LogRecord :=
  ⟨.warn, s!"{r.text} has no assignment and stays virtual"⟩

theorem warnings_append (earlier later : List LogRecord) :
    warnings (earlier ++ later) = warnings earlier ++ warnings later :=
  List.filter_append _ _

/-- The warning tells the register. -/
theorem stayingVirtual_injective : Function.Injective stayingVirtual := by
  intro r s h
  have htext : r.text ++ " has no assignment and stays virtual" =
      s.text ++ " has no assignment and stays virtual" := congrArg LogRecord.message h
  exact Handle.reg.inj (Handle.text_injective ((String.append_left_inj _).1 htext))

namespace Traced

variable {ε α β : Type}

/-- The computation warns of nothing. -/
def Silent (x : Traced ε α) : Prop := warnings x.log = []

theorem silent_trace (message : String) : (record .trace message : Traced ε Unit).Silent := rfl

/-- What a computation warns of that goes on after a silent one. -/
theorem Silent.warnings_bind {x : Traced ε α} (h : x.Silent) {a : α} (ha : x.outcome = .ok a)
    (f : α → Traced ε β) : warnings (x >>= f).log = warnings (f a).log := by
  rw [log_bind, ha, warnings_append, h, List.nil_append]

/-- A sequence of silent parts is silent. -/
theorem Silent.bind {x : Traced ε α} (h : x.Silent) {f : α → Traced ε β}
    (hf : ∀ a, (f a).Silent) : (x >>= f).Silent := by
  cases ha : x.outcome with
  | ok a => exact (h.warnings_bind ha f).trans (hf a)
  | error e =>
    rw [Silent, log_bind, ha]
    exact h

end Traced

/-! ## Tables -/

namespace Usage

theorem silent_add (usage : Usage) (h : Handle) (access : Access) :
    (usage.add h access).Silent := by
  cases h with
  | invalid => rfl
  | reg r =>
    rw [add, addRegister]
    split
    next => exact (Traced.silent_trace _).bind fun _ => rfl
    next =>
      split
      next => exact (Traced.silent_trace _).bind fun _ => rfl
      next => rfl

theorem silent_addAll (usage : Usage) (calls : List (Handle × Access)) :
    (usage.addAll calls).Silent := by
  induction calls generalizing usage with
  | nil => rfl
  | cons call rest ih => exact (usage.silent_add call.1 call.2).bind fun next => ih next

end Usage

namespace Remap

theorem silent_add (remap : Remap) (replaced replacement : Handle) :
    (remap.add replaced replacement).Silent := by
  cases replaced with
  | invalid => rfl
  | reg r =>
    cases replacement with
    | invalid => rfl
    | reg s =>
      rw [add, addRegisters]
      split
      next =>
        split
        next => rfl
        next =>
          split
          next => exact (Traced.silent_trace _).bind fun _ => rfl
          next => rfl
      next => rfl

/-- Where no assignment is refused, the registers that have none are warned of. -/
theorem warnings_addAssigned {assign : AssignmentFunction} {remap final : Remap}
    {registers : List Register} (h : (remap.addAssigned assign registers).outcome = .ok final) :
    warnings (remap.addAssigned assign registers).log =
      (registers.filter fun r => (assign (.reg r)).isNone).map stayingVirtual := by
  induction registers generalizing remap with
  | nil => rfl
  | cons r rest ih =>
    cases hassign : assign (.reg r) with
    -- Without an assignment, a warning comes first and the table is as it was.
    | none =>
      rw [outcome_addAssigned_cons_of_none hassign] at h
      have hlog : (remap.addAssigned assign (r :: rest)).log =
          stayingVirtual r :: (remap.addAssigned assign rest).log := by
        rw [addAssigned, hassign, Traced.log_bind]
        rfl
      rw [hlog, List.filter_cons_of_pos (by rw [hassign]; rfl), List.map_cons, ← ih h]
      rfl
    -- With one, nothing is warned of, and the addition cannot have been refused.
    | some replacement =>
      rw [outcome_addAssigned_cons_of_some hassign] at h
      rw [List.filter_cons_of_neg (by simp [hassign]), addAssigned, hassign]
      cases hadd : (remap.add (.reg r) replacement).outcome with
      | error e =>
        rw [hadd] at h
        cases h
      | ok next =>
        rw [hadd] at h
        exact ((remap.silent_add _ _).warnings_bind hadd _).trans (ih h)

end Remap

/-! ## One instruction -/

section Targets

variable {ι ε : Type} [TargetInstruction ι ε] {assign : AssignmentFunction}

theorem warnings_remapFor_of_usage {inst : ι} {usage : Usage} {remap : Remap}
    (silent : (TargetInstruction.usage inst).Silent)
    (husage : (TargetInstruction.usage inst).outcome = .ok usage)
    (hremap : (remapFor inst assign).outcome = .ok remap) :
    warnings (remapFor inst assign).log =
      (usage.virtuals.filter fun r => (assign (.reg r)).isNone).map stayingVirtual := by
  have htable : ((TargetInstruction.usage inst).mapError InstructionError.usage).outcome =
      .ok usage := Traced.outcome_mapError_of_ok husage _
  have hsilent : ((TargetInstruction.usage inst).mapError InstructionError.usage).Silent := silent
  rw [remapFor, Traced.outcome_bind_of_ok htable] at hremap
  rw [remapFor, hsilent.warnings_bind htable]
  cases hadded : (Remap.empty.addAssigned assign usage.virtuals).outcome with
  | error e =>
    rw [Traced.outcome_mapError, hadded] at hremap
    cases hremap
  | ok final => exact Remap.warnings_addAssigned hadded

end Targets

namespace Instr

/-- The virtual registers of an instruction without an assignment, each once, in the order in which
the accesses of the instruction first mention them. -/
def unassigned (assign : AssignmentFunction) (inst : Instr) : List Register :=
  (Usage.mentioned inst.accesses).eraseDups.filter fun r =>
    r.isVirtual && (assign (.reg r)).isNone

variable {assign : AssignmentFunction} {inst : Instr} {r : Register}

theorem mem_unassigned_iff :
    r ∈ inst.unassigned assign ↔
      .reg r ∈ inst.operands ∧ r.isVirtual = true ∧ assign (.reg r) = none := by
  have hmentioned : r ∈ Usage.mentioned inst.accesses ↔ .reg r ∈ inst.operands := by
    rw [Usage.mem_mentioned_iff, ← mem_map_accesses_iff]
    simp
  rw [unassigned, List.mem_filter, List.mem_eraseDups, hmentioned, Bool.and_eq_true_iff,
    Option.isNone_iff_eq_none]

theorem nodup_unassigned (assign : AssignmentFunction) (inst : Instr) :
    (inst.unassigned assign).Nodup :=
  (RegisterTable.nodup_eraseDups _).filter _

/-- They stand in this order in the usage table. -/
theorem exists_usage_unassigned (valid : ∀ h ∈ inst.operands, h.isValid = true) :
    ∃ usage, inst.usage.outcome = .ok usage ∧
      inst.unassigned assign = usage.virtuals.filter fun r => (assign (.reg r)).isNone := by
  obtain ⟨usage, husage, hentries⟩ := exists_usage_entries valid
  refine ⟨usage, husage, ?_⟩
  rw [unassigned, Usage.virtuals, Usage.registers_of_entries hentries, List.filter_filter]
  exact List.filter_congr fun r _ => Bool.and_comm _ _

/-- An instruction gives rise to one warning for each of them. -/
theorem warnings_remapFor (h : inst.Assignable assign) :
    ∃ remap, (remapFor inst assign).outcome = .ok remap ∧
      warnings (remapFor inst assign).log = (inst.unassigned assign).map stayingVirtual := by
  obtain ⟨usage, husage, hunassigned⟩ := exists_usage_unassigned (assignable_iff.1 h).1
  obtain ⟨remap, hremap, -⟩ := exists_remapFor_of_assignable h
  refine ⟨remap, hremap, ?_⟩
  rw [hunassigned]
  exact warnings_remapFor_of_usage (Usage.silent_addAll _ _) husage hremap

end Instr

/-! ## Programs -/

variable {assign : AssignmentFunction} {insts : List Instr}

theorem warnings_substituteFrom_cons {inst : Instr} {remap : Remap}
    (h : (remapFor inst assign).outcome = .ok remap) (index : Nat) (rest : List Instr) :
    warnings (substituteFrom assign index (inst :: rest)).log =
      warnings (remapFor inst assign).log ++
        warnings (substituteFrom assign (index + 1) rest).log := by
  rw [substituteFrom]
  simp only [h]
  rw [warnings_append]
  rfl

theorem warnings_substituteFrom (h : ∀ inst ∈ insts, inst.Assignable assign) (index : Nat) :
    warnings (substituteFrom assign index insts).log =
      insts.flatMap fun inst => (inst.unassigned assign).map stayingVirtual := by
  induction insts generalizing index with
  | nil => rfl
  | cons inst rest ih =>
    obtain ⟨hinst, hrest⟩ := List.forall_mem_cons.1 h
    obtain ⟨remap, hremap, hwarnings⟩ := Instr.warnings_remapFor hinst
    rw [warnings_substituteFrom_cons hremap, hwarnings, ih hrest, List.flatMap_cons]

/-- A register is warned of once for each instruction that mentions it, if it is virtual and has no
assignment, and else never. -/
theorem count_flatMap_unassigned (assign : AssignmentFunction) (insts : List Instr)
    (r : Register) :
    (insts.flatMap fun inst => (inst.unassigned assign).map stayingVirtual).count
        (stayingVirtual r) =
      insts.countP fun inst => inst.operands.contains (.reg r) &&
        (r.isVirtual && (assign (.reg r)).isNone) := by
  induction insts with
  | nil => rfl
  | cons inst rest ih =>
    -- Each instruction adds one or none, since it warns of distinct registers.
    rw [List.flatMap_cons, List.count_append, ih, List.countP_cons, Nat.add_comm,
      List.count_map_of_injective _ _ stayingVirtual_injective,
      (inst.nodup_unassigned assign).count]
    simp only [Instr.mem_unassigned_iff, Bool.and_eq_true, List.contains_iff_mem,
      Option.isNone_iff_eq_none]

/-- A pass warns exactly of the registers that stay virtual. Over a program with valid operands,
under a function that assigns to a virtual register nothing or a register of its class, the warnings
in the log are those of the instructions, one after the other, and for an instruction there is one
for each of its virtual registers without an assignment, in the order of its usage table. So a
register is warned of as often as there are instructions that mention it, if it is one of those, and
never if it is real or has an assignment. -/
theorem warnings_substituteAll (keeps : assign.KeepsClasses)
    (valid : ∀ inst ∈ insts, ∀ h ∈ inst.operands, h.isValid = true) :
    (substituteAll insts assign).failure = none ∧
      warnings (substituteAll insts assign).log =
        insts.flatMap (fun inst => (inst.unassigned assign).map stayingVirtual) ∧
      (∀ inst ∈ insts,
        (inst.unassigned assign).Nodup ∧
          (∀ r, r ∈ inst.unassigned assign ↔
            .reg r ∈ inst.operands ∧ r.isVirtual = true ∧ assign (.reg r) = none) ∧
          ∃ usage, inst.usage.outcome = .ok usage ∧
            inst.unassigned assign = usage.virtuals.filter fun r => (assign (.reg r)).isNone) ∧
      ∀ r, (substituteAll insts assign).log.count (stayingVirtual r) =
        insts.countP fun inst => inst.operands.contains (.reg r) &&
          (r.isVirtual && (assign (.reg r)).isNone) := by
  have hwarnings : warnings (substituteAll insts assign).log =
      insts.flatMap fun inst => (inst.unassigned assign).map stayingVirtual :=
    warnings_substituteFrom (fun inst hmem => keeps.assignable (valid inst hmem)) 0
  refine ⟨(substituteAll_of_keepsClasses valid keeps).1, hwarnings, fun inst hmem => ?_,
    fun r => ?_⟩
  · exact ⟨inst.nodup_unassigned assign, fun r => Instr.mem_unassigned_iff,
      Instr.exists_usage_unassigned (valid inst hmem)⟩
  · have hcount : (warnings (substituteAll insts assign).log).count (stayingVirtual r) =
        (substituteAll insts assign).log.count (stayingVirtual r) := List.count_filter rfl
    rw [← hcount, hwarnings, count_flatMap_unassigned]

/-- The last factor is read before the destination is written, and is the destination besides; it is
warned of once for this instruction, and once more for the next one. -/
theorem warnings_substituteAll_sample :
    let first : Register := ⟨.int64, true, 0, by decide⟩
    let second : Register := ⟨.int64, true, 1, by decide⟩
    let third : Register := ⟨.int64, true, 2, by decide⟩
    let real : Register := ⟨.int64, false, 3, by decide⟩
    let program : List Instr :=
      [.fma (.reg first) (.reg second) (.reg first), .alu .sub (.reg first) (.reg first),
        .mov (.reg real) (.reg third)]
    let assign : AssignmentFunction := fun h => if h = .reg third then some (.reg real) else none
    assign.KeepsClasses ∧ (∀ inst ∈ program, ∀ h ∈ inst.operands, h.isValid = true) ∧
      warnings (substituteAll program assign).log =
        [stayingVirtual second, stayingVirtual first, stayingVirtual first] ∧
      (substituteAll program assign).log.count (stayingVirtual third) = 0 := by
  intro first second third real program assign
  have keeps : assign.KeepsClasses := by
    intro r _
    by_cases h : r = third
    · subst h
      exact .inr ⟨real, by decide, rfl⟩
    · exact .inl (if_neg fun heq => h (Handle.reg.inj heq))
  have valid : ∀ inst ∈ program, ∀ h ∈ inst.operands, h.isValid = true := by decide
  obtain ⟨-, hwarnings, -, hcount⟩ := warnings_substituteAll keeps valid
  exact ⟨keeps, valid, hwarnings, hcount third⟩

end RegisterMapping
