import RegisterMapping.Proofs.Usage.Renaming

/-!
# What becomes of the operands of an instruction

An instruction is described from several sides: its operands as they are written, its accesses as
they happen, the operands that a replacement goes through, and the ends of a copy. All of them are
about the same operands. What is done with an operand is a matter of the mnemonic and of where the
operand is written (`Mnemonic.roles`), and the accesses are the operands with these roles, in
another order (`Instr.perm_accesses`). Accesses of one register merge to the same in any order, so
the usage table can be read off the written operands (`Instr.find?_usage_iff`), and together with
what a replacement does to them this is `Instr.operands_classified_and_visited`.
-/

set_option autoImplicit false

namespace RegisterMapping

/-- What is done with the operands after a mnemonic, in the order in which they are written. A
destination is written, or modified where arithmetic goes on from its old value; sources, compared
and returned values, stored values and bases are read. -/
def Mnemonic.roles : Mnemonic → List Access
  | .li => [.write]
  | .mov | .ld => [.write, .read]
  | .alu _ => [.modify, .read]
  | .neg => [.modify]
  | .fma => [.modify, .read, .read]
  | .st | .cmp => [.read, .read]
  | .ret => [.read]

namespace Instr

/-- The operands with their roles, in the order in which they are written. -/
def classified (inst : Instr) : List (Handle × Access) := inst.operands.zip inst.mnemonic.roles

/-- Every operand has a role. -/
theorem length_roles (inst : Instr) : inst.mnemonic.roles.length = inst.operands.length := by
  cases inst <;> rfl

/-- An instruction reads its sources before it writes its destination, which is written in front of
them. -/
theorem perm_accesses (inst : Instr) : inst.classified.Perm inst.accesses := by
  cases inst with
  | mov dst src | alu op dst src | ld dst address => exact .swap _ _ []
  | fma dst a b => exact @List.perm_append_comm _ [(dst, Access.modify)] _
  | li dst imm | neg dst | st src address | cmp left right | ret src => exact .refl _

/-- A copy goes from the operand that is written last to the one that is written first. -/
theorem move?_eq_some_iff {inst : Instr} {src dst : Handle} :
    inst.move? = some (src, dst) ↔ inst.mnemonic = .mov ∧ inst.operands = [dst, src] := by
  cases inst <;> simp [move?, mnemonic, operands, and_comm]

theorem move?_mapOperands (f : Handle → Handle) (inst : Instr) :
    (inst.mapOperands f).move? = inst.move?.map (Prod.map f f) := by
  cases inst <;> rfl

variable {inst : Instr} {usage : Usage} {r : Register} {access : Access}

/-- Without an invalid operand there is a usage table, and with one there is none. -/
theorem exists_usage_error_iff :
    (∃ e, inst.usage.outcome = .error e) ↔ .invalid ∈ inst.operands := by
  constructor
  · rintro ⟨e, he⟩
    by_contra habsent
    obtain ⟨usage, husage, -⟩ := exists_usage_of_valid (forall_isValid_iff.2 habsent)
    cases husage.symm.trans he
  · intro hinvalid
    obtain ⟨e, -, he⟩ := exists_reports_of_invalid hinvalid
    exact ⟨e, he⟩

theorem isValid_of_usage (h : inst.usage.outcome = .ok usage) :
    ∀ operand ∈ inst.operands, operand.isValid = true := by
  rw [forall_isValid_iff]
  intro hinvalid
  obtain ⟨e, he⟩ := exists_usage_error_iff.2 hinvalid
  cases h.symm.trans he

theorem mem_registers_iff (h : inst.usage.outcome = .ok usage) :
    r ∈ usage.registers ↔ .reg r ∈ inst.operands := by
  obtain ⟨table, htable, hregisters⟩ := exists_usage_of_valid (isValid_of_usage h)
  obtain rfl := Except.ok.inj (h.symm.trans htable)
  exact hregisters r

/-- The usage table has a register with what the roles of its positions merge to. -/
theorem find?_usage_iff (h : inst.usage.outcome = .ok usage) :
    usage.find? r = some access ↔
      ∃ first rest, Usage.accessesTo inst.classified r = first :: rest ∧
        rest.foldl Access.merge first = access := by
  obtain ⟨table, htable, hentries⟩ := exists_usage_entries (isValid_of_usage h)
  obtain rfl := Except.ok.inj (h.symm.trans htable)
  -- Merged are the accesses of the register as they happen, in another order than they are written.
  have hperm : (Usage.accessesTo inst.classified r).Perm (Usage.accessesTo inst.accesses r) :=
    (inst.perm_accesses.filter _).map _
  rw [Access.exists_merge_iff, Access.combined_perm hperm, RegisterTable.find?_eq_some_iff,
    Usage.mem_entries_iff hentries, ← List.length_pos_iff, hperm.length_eq, List.length_pos_iff]
  refine and_congr_left fun _ => ⟨Usage.accessesTo_ne_nil, fun hne => ?_⟩
  by_contra hmentioned
  exact hne (Usage.accessesTo_eq_nil hmentioned)

/-- Every operand is classified and visited. Each has a role. Usage is refused exactly if some
operand holds no register; otherwise the usage table has the registers of the operands, each with
what the roles of all positions that hold it merge to. A replacement goes through all operands, one
position at a time, and through the ends of a copy, which are its operands; the mnemonic and the
constant stay. -/
theorem operands_classified_and_visited (inst : Instr) :
    inst.mnemonic.roles.length = inst.operands.length ∧
      ((∃ e, (TargetInstruction.usage inst).outcome = .error e) ↔ .invalid ∈ inst.operands) ∧
      (.invalid ∉ inst.operands →
        ∃ usage : Usage, (TargetInstruction.usage inst).outcome = .ok usage ∧
          (∀ r, r ∈ usage.registers ↔ .reg r ∈ inst.operands) ∧
          ∀ r access, usage.find? r = some access ↔
            ∃ first rest, Usage.accessesTo inst.classified r = first :: rest ∧
              rest.foldl Access.merge first = access) ∧
      (∀ src dst, TargetInstruction.move? inst = some (src, dst) ↔
        inst.mnemonic = .mov ∧ inst.operands = [dst, src]) ∧
      ∀ remap : Remap,
        let after := TargetInstruction.substitute remap inst
        after.operands = inst.operands.map remap.apply ∧
          TargetInstruction.move? after =
            (TargetInstruction.move? inst).map (Prod.map remap.apply remap.apply) ∧
          after.mnemonic = inst.mnemonic ∧ after.immediate? = inst.immediate? := by
  refine ⟨inst.length_roles, exists_usage_error_iff, fun habsent => ?_,
    fun src dst => move?_eq_some_iff, fun remap => ⟨?_, ?_, ?_, ?_⟩⟩
  · obtain ⟨usage, husage, -⟩ := exists_usage_of_valid (forall_isValid_iff.2 habsent)
    exact ⟨usage, husage, fun r => mem_registers_iff husage, fun r access => find?_usage_iff husage⟩
  · exact operands_mapOperands remap.apply inst
  · exact move?_mapOperands remap.apply inst
  · exact mnemonic_mapOperands remap.apply inst
  · exact immediate?_mapOperands remap.apply inst

/-- A factor that is also the destination is read and modified, and stands where it is read. -/
example :
    let sum : Register := ⟨.flt64, true, 0, by decide⟩
    let factor : Register := ⟨.flt64, true, 1, by decide⟩
    (Instr.fma (.reg sum) (.reg factor) (.reg sum)).usage.outcome =
      .ok ⟨[(factor, .read), (sum, .modify)], by decide, by decide⟩ := by
  decide

end Instr

end RegisterMapping
