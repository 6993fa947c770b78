import RegisterMapping.Proofs.Substitution

/-!
# One substitution after another

To replace the registers of a program under one assignment function, and then those of the outcome
under another one, is to replace them once: a virtual register by what the second function puts in
place of what the first one puts in its place (`substituteAll_substituteAll`). The second pass makes
tables of its own, for operands of which several may have become one register, or real ones; but a
pass comes to a map over the operands (`substituteAll_of_keepsClasses`), and maps compose.

So a pass repeated changes nothing if it leads to real registers only, and no pass changes a program
that has real registers only.
-/

set_option autoImplicit false

namespace RegisterMapping

theorem Instr.mapOperands_mapOperands (f g : Handle → Handle) (inst : Instr) :
    (inst.mapOperands f).mapOperands g = inst.mapOperands fun h => g (f h) := by
  cases inst <;> rfl

/-! ## What two functions do together -/

namespace AssignmentFunction

/-- What is assigned to a virtual register, if anything is, is a register of its class. -/
def KeepsClasses (assign : AssignmentFunction) : Prop :=
  ∀ r : Register, r.isVirtual = true → assign.Fits r

/-- A virtual register is assigned what `g` puts in place of what `f` puts in its place. What is
assigned to real registers is left open. -/
def Composes (f g both : AssignmentFunction) : Prop :=
  ∀ r : Register, r.isVirtual = true → both (.reg r) = some (g.replace (f.replace (.reg r)))

variable {assign f g both : AssignmentFunction}

theorem replace_of_isVirtual_eq_false {r : Register} (h : r.isVirtual = false) :
    assign.replace (.reg r) = .reg r := by
  rw [replace, h]
  rfl

theorem KeepsClasses.assignable (h : assign.KeepsClasses) {inst : Instr}
    (valid : ∀ operand ∈ inst.operands, operand.isValid = true) : inst.Assignable assign :=
  Instr.assignable_iff.2 ⟨valid, fun r _ => h r⟩

theorem Composes.replace_eq (h : f.Composes g both) (operand : Handle) :
    both.replace operand = g.replace (f.replace operand) := by
  cases operand with
  | invalid => rfl
  | reg r =>
    cases hvirtual : r.isVirtual with
    | true => rw [replace, if_pos hvirtual, h r hvirtual, Option.getD_some]
    -- A real register stays under the first function, and then under the second.
    | false => simp only [replace_of_isVirtual_eq_false hvirtual]

theorem Composes.keepsClasses (h : f.Composes g both) (hf : f.KeepsClasses)
    (hg : g.KeepsClasses) : both.KeepsClasses := by
  intro r hvirtual
  obtain ⟨s, hs, hclass, -⟩ := exists_replace (hf r)
  obtain ⟨t, ht, hclass', -⟩ := exists_replace (hg s)
  refine .inr ⟨t, ?_, hclass'.trans hclass⟩
  rw [h r hvirtual, hs, ht]

/-- Where only real registers are assigned, nothing is left to be replaced again. -/
theorem KeepsClasses.replace_replace (h : assign.KeepsClasses) (real : assign.AssignsReal)
    (operand : Handle) : assign.replace (assign.replace operand) = assign.replace operand := by
  cases operand with
  | invalid => rfl
  | reg r =>
    obtain ⟨s, hs, -, ⟨hvirtual, hassigned⟩ | ⟨rfl, -⟩⟩ := exists_replace (h r)
    · rw [hs, replace_of_isVirtual_eq_false (real r s hvirtual hassigned)]
    · rw [hs, hs]

end AssignmentFunction

/-! ## Passes over programs -/

section Passes

variable {assign f g both : AssignmentFunction} {insts : List Instr}
  (valid : ∀ inst ∈ insts, ∀ h ∈ inst.operands, h.isValid = true)

include valid

/-- A pass under a function that keeps classes gets through, and is a map over the operands. -/
theorem substituteAll_of_keepsClasses (h : assign.KeepsClasses) :
    (substituteAll insts assign).failure = none ∧
      (substituteAll insts assign).insts = insts.map (Instr.mapOperands assign.replace) :=
  substituteFrom_eq_map (fun inst hmem => h.assignable (valid inst hmem)) 0

/-- What comes out has valid operands again. -/
theorem isValid_of_mem_substituteAll (h : assign.KeepsClasses) :
    ∀ inst ∈ (substituteAll insts assign).insts, ∀ operand ∈ inst.operands,
      operand.isValid = true := by
  intro inst hmem operand hoperand
  rw [(substituteAll_of_keepsClasses valid h).2] at hmem
  obtain ⟨before, hbefore, rfl⟩ := List.mem_map.1 hmem
  rw [Instr.operands_mapOperands] at hoperand
  obtain ⟨old, hold, rfl⟩ := List.mem_map.1 hoperand
  exact (h.assignable (valid before hbefore)).isValid_replace old hold

/-- One pass after another comes to a map that does to each operand what they do in turn. -/
theorem insts_substituteAll_substituteAll (hf : f.KeepsClasses) (hg : g.KeepsClasses) :
    (substituteAll (substituteAll insts f).insts g).failure = none ∧
      (substituteAll (substituteAll insts f).insts g).insts =
        insts.map (Instr.mapOperands fun h => g.replace (f.replace h)) := by
  obtain ⟨hfailure, hinsts⟩ :=
    substituteAll_of_keepsClasses (isValid_of_mem_substituteAll valid hf) hg
  refine ⟨hfailure, ?_⟩
  rw [hinsts, (substituteAll_of_keepsClasses valid hf).2, List.map_map]
  exact List.map_congr_left fun inst _ => inst.mapOperands_mapOperands _ _

/-- Where no operand is virtual, every assignment function may be used, and changes nothing. -/
theorem substituteAll_of_real
    (real : ∀ inst ∈ insts, ∀ h ∈ inst.operands, h.holdsVirtual = false)
    (assign : AssignmentFunction) :
    (substituteAll insts assign).failure = none ∧ (substituteAll insts assign).insts = insts := by
  have hreal {inst : Instr} (hmem : inst ∈ insts) :
      ∀ h ∈ inst.operands, ∃ r, h = .reg r ∧ r.isVirtual = false := by
    intro h hoperand
    cases h with
    | invalid => exact absurd (valid inst hmem _ hoperand) Bool.false_ne_true
    | reg r => exact ⟨r, rfl, real inst hmem _ hoperand⟩
  have hassignable : ∀ inst ∈ insts, inst.Assignable assign := by
    intro inst hmem h hoperand
    obtain ⟨r, rfl, hr⟩ := hreal hmem h hoperand
    exact ⟨r, rfl, fun hvirtual => absurd (hr.symm.trans hvirtual) Bool.false_ne_true⟩
  have hfixed : ∀ inst ∈ insts, inst.mapOperands assign.replace = inst := by
    intro inst hmem
    refine Instr.mapOperands_of_fixed fun h hoperand => ?_
    obtain ⟨r, rfl, hr⟩ := hreal hmem h hoperand
    exact AssignmentFunction.replace_of_isVirtual_eq_false hr
  obtain ⟨hfailure, hinsts⟩ := substituteFrom_eq_map hassignable 0
  refine ⟨hfailure, hinsts.trans ?_⟩
  rw [List.map_congr_left hfixed, List.map_id']

end Passes

/-- Substitution composes. Two passes, the second over the outcome of the first, get through and
give what one pass gives under a function that assigns to a virtual register what the second
function puts in place of what the first puts in its place; every operand of the program is replaced
so. If the first function assigns real registers only, a second pass under it changes nothing. And a
program without virtual registers stays as it is under every assignment function. -/
theorem substituteAll_substituteAll {f g both : AssignmentFunction} {insts : List Instr}
    (hf : f.KeepsClasses) (hg : g.KeepsClasses) (hboth : f.Composes g both)
    (valid : ∀ inst ∈ insts, ∀ h ∈ inst.operands, h.isValid = true) :
    let first := substituteAll insts f
    let second := substituteAll first.insts g
    let once := substituteAll insts both
    (first.failure = none ∧ second.failure = none ∧ once.failure = none) ∧
      second.insts = once.insts ∧
      once.insts = insts.map (Instr.mapOperands fun h => g.replace (f.replace h)) ∧
      (f.AssignsReal →
        (substituteAll first.insts f).failure = none ∧
          (substituteAll first.insts f).insts = first.insts) ∧
      ((∀ inst ∈ insts, ∀ h ∈ inst.operands, h.holdsVirtual = false) →
        ∀ assign, (substituteAll insts assign).failure = none ∧
          (substituteAll insts assign).insts = insts) := by
  intro first second once
  obtain ⟨hfirst, hfirstInsts⟩ := substituteAll_of_keepsClasses valid hf
  obtain ⟨hsecond, hsecondInsts⟩ := insts_substituteAll_substituteAll valid hf hg
  obtain ⟨honce, honceInsts⟩ :=
    substituteAll_of_keepsClasses valid (hboth.keepsClasses hf hg)
  rw [funext hboth.replace_eq] at honceInsts
  refine ⟨⟨hfirst, hsecond, honce⟩, hsecondInsts.trans honceInsts.symm, honceInsts, ?_,
    substituteAll_of_real valid⟩
  intro real
  obtain ⟨hagain, hagainInsts⟩ := insts_substituteAll_substituteAll valid hf hf
  refine ⟨hagain, ?_⟩
  rw [hagainInsts, hfirstInsts, funext (hf.replace_replace real)]

/-- The first pass makes two operands one virtual register, and the second makes it the real
register that the third operand is already. A function that assigns the same at once need not leave
real registers alone. -/
theorem substituteAll_substituteAll_sample :
    let first : Register := ⟨.int64, true, 0, by decide⟩
    let second : Register := ⟨.int64, true, 1, by decide⟩
    let real : Register := ⟨.int64, false, 3, by decide⟩
    let program : List Instr :=
      [.fma (.reg first) (.reg second) (.reg real), .mov (.reg second) (.reg first)]
    let f : AssignmentFunction := fun h => if h = .reg first then some (.reg second) else none
    let g : AssignmentFunction := fun h =>
      if h = .reg second then some (.reg real) else if h = .reg first then some h else none
    let both : AssignmentFunction := fun h =>
      match h with
      | .reg r => if r.isVirtual then some (g.replace (f.replace h)) else some .invalid
      | .invalid => none
    f.KeepsClasses ∧ g.KeepsClasses ∧ f.Composes g both ∧
      (∀ inst ∈ program, ∀ h ∈ inst.operands, h.isValid = true) ∧
      (substituteAll (substituteAll program f).insts g).insts = (substituteAll program both).insts ∧
      (substituteAll program both).insts =
        [.fma (.reg real) (.reg real) (.reg real), .mov (.reg real) (.reg real)] := by
  intro first second real program f g both
  have hf : f.KeepsClasses := by
    intro r _
    by_cases h : r = first
    · subst h
      exact .inr ⟨second, by decide, rfl⟩
    · exact .inl (if_neg fun heq => h (Handle.reg.inj heq))
  have hg : g.KeepsClasses := by
    intro r _
    by_cases h : r = second
    · subst h
      exact .inr ⟨real, by decide, rfl⟩
    · have hne : Handle.reg r ≠ .reg second := fun heq => h (Handle.reg.inj heq)
      by_cases h' : r = first
      · subst h'
        exact .inr ⟨first, by decide, rfl⟩
      · exact .inl ((if_neg hne).trans (if_neg fun heq => h' (Handle.reg.inj heq)))
  have hboth : f.Composes g both := fun r hvirtual => if_pos hvirtual
  have valid : ∀ inst ∈ program, ∀ h ∈ inst.operands, h.isValid = true := by decide
  obtain ⟨-, hsame, -⟩ := substituteAll_substituteAll hf hg hboth valid
  exact ⟨hf, hg, hboth, valid, hsame, by decide⟩

end RegisterMapping
