import RegisterMapping.Substitution

/-!
# What adding pairs does to a replacement table

`Remap.add_cases` says everything that adding one pair can do. A table for an instruction is built
from distinct registers, so no register of it is replaced twice, and from no more of them than the
table has room for; then the only pairs that are refused are those that change the class or name
no register, and the table holds the others in order (`Remap.exists_addAssigned_of_fits`). The
first assignment that does not fit is refused with a complaint about its register, by the table of
the assignments before it (`Remap.exists_complaint_of_misfit`).
-/

set_option autoImplicit false

namespace RegisterMapping

/-- What is assigned to a register, if anything is, is a register of its class. -/
def AssignmentFunction.Fits (assign : AssignmentFunction) (r : Register) : Prop :=
  assign (.reg r) = none ∨ ∃ s : Register, assign (.reg r) = some (.reg s) ∧ s.cls = r.cls

/-- A register with the register that is assigned to it. -/
def AssignmentFunction.pair? (assign : AssignmentFunction) (r : Register) :
    Option (Register × Register) :=
  ((assign (.reg r)).bind Handle.register?).map fun s => (r, s)

namespace Remap

/-! ## One pair -/

/-- A register that is not replaced yet gets its replacement, while there is room. -/
theorem outcome_addRegisters_of_fresh {remap : Remap} {r s : Register} (same : r.cls = s.cls)
    (fresh : remap.table.find? r = none) (room : remap.table.size < capacity) :
    ∃ next : Remap, (remap.addRegisters r s).outcome = .ok next ∧
      next.table = remap.table.push r s fresh room := by
  rw [addRegisters]
  rw [dif_pos same]
  split
  · next existing found => exact absurd (fresh.symm.trans found) (by simp)
  · rw [dif_pos room]
    exact ⟨_, rfl, rfl⟩

theorem outcome_addRegisters_of_full {remap : Remap} {r s : Register} (same : r.cls = s.cls)
    (fresh : remap.table.find? r = none) (full : ¬ remap.table.size < capacity) :
    (remap.addRegisters r s).outcome = .error (.overflow r s remap) := by
  rw [addRegisters, dif_pos same]
  split
  · next existing found => exact absurd (fresh.symm.trans found) (by simp)
  · rw [dif_neg full]
    rfl

/-- A second replacement is refused as such even where the table is full. -/
theorem outcome_addRegisters_of_found {remap : Remap} {r s existing : Register}
    (same : r.cls = s.cls) (found : remap.table.find? r = some existing) :
    (remap.addRegisters r s).outcome = .error (.remappedTwice r existing s) := by
  rw [addRegisters, dif_pos same]
  split
  · next other hother =>
    obtain rfl := Option.some.inj (hother.symm.trans found)
    rfl
  · next fresh => exact absurd (fresh.symm.trans found) (by simp)

theorem outcome_addRegisters_of_mismatch {remap : Remap} {r s : Register}
    (differ : r.cls ≠ s.cls) :
    (remap.addRegisters r s).outcome = .error (.classMismatch r s) := by
  rw [addRegisters, dif_neg differ]
  rfl

/-- Everything that adding a pair can come to. -/
theorem add_cases (remap : Remap) (replaced replacement : Handle) :
    (∃ r s next, ∃ fresh : remap.table.find? r = none,
        ∃ room : remap.table.size < capacity,
        replaced = .reg r ∧ replacement = .reg s ∧ r.cls = s.cls ∧
        (remap.add replaced replacement).outcome = .ok next ∧
        next.table = remap.table.push r s fresh room) ∨
      (∃ r s, replaced = .reg r ∧ replacement = .reg s ∧ r.cls = s.cls ∧
        remap.table.find? r = none ∧ ¬ remap.table.size < capacity ∧
        (remap.add replaced replacement).outcome = .error (.overflow r s remap)) ∨
      (∃ r s existing, replaced = .reg r ∧ replacement = .reg s ∧ r.cls = s.cls ∧
        remap.table.find? r = some existing ∧
        (remap.add replaced replacement).outcome = .error (.remappedTwice r existing s)) ∨
      (∃ r s, replaced = .reg r ∧ replacement = .reg s ∧ r.cls ≠ s.cls ∧
        (remap.add replaced replacement).outcome = .error (.classMismatch r s)) ∨
      ((replaced = .invalid ∨ replacement = .invalid) ∧
        (remap.add replaced replacement).outcome =
          .error (.invalidHandle replaced replacement remap)) := by
  cases replaced with
  | invalid => exact .inr (.inr (.inr (.inr ⟨.inl rfl, rfl⟩)))
  | reg r =>
    cases replacement with
    | invalid => exact .inr (.inr (.inr (.inr ⟨.inr rfl, rfl⟩)))
    | reg s =>
      -- The checks are made in this order: classes, freshness, room.
      by_cases same : r.cls = s.cls
      · cases found : remap.table.find? r with
        | some existing =>
          exact .inr (.inr (.inl ⟨r, s, existing, rfl, rfl, same, found,
            outcome_addRegisters_of_found same found⟩))
        | none =>
          by_cases room : remap.table.size < capacity
          · obtain ⟨next, hnext, htable⟩ := outcome_addRegisters_of_fresh same found room
            exact .inl ⟨r, s, next, found, room, rfl, rfl, same, hnext, htable⟩
          · exact .inr (.inl ⟨r, s, rfl, rfl, same, found, room,
              outcome_addRegisters_of_full same found room⟩)
      · exact .inr (.inr (.inr (.inl ⟨r, s, rfl, rfl, same,
          outcome_addRegisters_of_mismatch same⟩)))

/-! ## What a table puts in place of a register -/

theorem apply_reg_of_mem {remap : Remap} {r s : Register} (h : (r, s) ∈ remap.pairs) :
    remap.apply (.reg r) = .reg s := by
  have hfind : remap.table.find? r = some s := RegisterTable.find?_eq_some_iff.2 h
  simp [apply, lookup?, hfind]

theorem apply_reg_of_not_mem {remap : Remap} {r : Register} (h : ∀ s, (r, s) ∉ remap.pairs) :
    remap.apply (.reg r) = .reg r := by
  have hfind : remap.table.find? r = none := by
    cases hfound : remap.table.find? r with
    | none => rfl
    | some s => exact absurd (RegisterTable.find?_eq_some_iff.1 hfound) (h s)
  simp [apply, lookup?, hfind]

/-! ## The assigned registers of an instruction -/

theorem outcome_addAssigned_cons_of_none {assign : AssignmentFunction} {r : Register}
    (h : assign (.reg r) = none) (remap : Remap) (rest : List Register) :
    (remap.addAssigned assign (r :: rest)).outcome = (remap.addAssigned assign rest).outcome := by
  rw [addAssigned, h, Traced.outcome_bind]
  rfl

theorem outcome_addAssigned_cons_of_some {assign : AssignmentFunction} {r : Register}
    {replacement : Handle} (h : assign (.reg r) = some replacement) (remap : Remap)
    (rest : List Register) :
    (remap.addAssigned assign (r :: rest)).outcome =
      (remap.add (.reg r) replacement).outcome.bind fun next =>
        (next.addAssigned assign rest).outcome := by
  rw [addAssigned, h, Traced.outcome_bind]

/-- Distinct registers that the table lacks and has room for are all added, each with what is
assigned to it, if what is assigned fits. -/
theorem exists_addAssigned_of_fits {assign : AssignmentFunction} (remap : Remap)
    {registers : List Register} (distinct : registers.Nodup)
    (fresh : ∀ r ∈ registers, r ∉ remap.table.registers)
    (room : remap.table.size + registers.length ≤ capacity)
    (fits : ∀ r ∈ registers, assign.Fits r) :
    ∃ final : Remap, (remap.addAssigned assign registers).outcome = .ok final ∧
      final.pairs = remap.pairs ++ registers.filterMap assign.pair? := by
  induction registers generalizing remap with
  | nil => exact ⟨remap, rfl, by simp⟩
  | cons r rest ih =>
    obtain ⟨hhead, hrest⟩ := List.nodup_cons.1 distinct
    have fitsRest : ∀ s ∈ rest, assign.Fits s := fun s hs => fits s (List.mem_cons_of_mem _ hs)
    simp only [List.length_cons] at room
    -- Without an assignment the table stays; with one it grows by one pair, and the registers that
    -- are left are still fresh since they are distinct from this one.
    rcases fits r List.mem_cons_self with hnone | ⟨s, hsome, hcls⟩
    · obtain ⟨final, hfinal, hpairs⟩ := ih remap hrest
        (fun s hs => fresh s (List.mem_cons_of_mem _ hs))
        (by omega) fitsRest
      refine ⟨final, ?_, ?_⟩
      · rw [outcome_addAssigned_cons_of_none hnone]
        exact hfinal
      · simpa [AssignmentFunction.pair?, hnone] using hpairs
    · have hfresh := RegisterTable.find?_eq_none_iff.2 (fresh r List.mem_cons_self)
      have hroom : remap.table.size < capacity := by omega
      obtain ⟨next, hnext, htable⟩ := outcome_addRegisters_of_fresh hcls.symm hfresh hroom
      have hregisters : next.table.registers = remap.table.registers ++ [r] := by
        rw [htable, RegisterTable.registers_push]
      have hsize : next.table.size = remap.table.size + 1 := by
        rw [← RegisterTable.length_registers, hregisters, List.length_append,
          RegisterTable.length_registers]
        rfl
      obtain ⟨final, hfinal, hpairs⟩ := ih next hrest
        (fun t ht => by
          rw [hregisters, List.mem_append, List.mem_singleton]
          rintro (hold | rfl)
          · exact fresh t (List.mem_cons_of_mem _ ht) hold
          · exact hhead ht)
        (by omega) fitsRest
      refine ⟨final, ?_, ?_⟩
      · rw [outcome_addAssigned_cons_of_some hsome, show (remap.add (.reg r) (.reg s)).outcome = _
          from hnext]
        exact hfinal
      · rw [hpairs, show next.pairs = remap.pairs ++ [(r, s)] from
          (congrArg RegisterTable.entries htable).trans (RegisterTable.entries_push _ _ _ _ _)]
        simp [AssignmentFunction.pair?, hsome, Handle.register?]

end Remap

/-! ## Assignments that do not fit -/

namespace AssignmentFunction

variable {assign : AssignmentFunction} {r : Register}

theorem not_fits_iff :
    ¬ assign.Fits r ↔
      ∃ x, assign (.reg r) = some x ∧ (x = .invalid ∨ ∃ s, x = .reg s ∧ s.cls ≠ r.cls) := by
  rw [Fits]
  cases assign (.reg r) with
  | none => simp
  | some x =>
    cases x with
    | invalid => simp
    | reg s => simp

/-- The complaint about an assignment that does not fit, by a table that it was to extend. -/
inductive Complaint (assign : AssignmentFunction) (table : Remap) (r : Register) :
    RemapError → Prop where
  | noRegister (h : assign (.reg r) = some .invalid) :
      Complaint assign table r (.invalidHandle (.reg r) .invalid table)
  | otherClass {s : Register} (h : assign (.reg r) = some (.reg s)) (differ : r.cls ≠ s.cls) :
      Complaint assign table r (.classMismatch r s)

/-- The table that would be extended by an assignment that does not fit refuses it. -/
theorem exists_complaint (misfit : ¬ assign.Fits r) (table : Remap) :
    ∃ replacement e, assign (.reg r) = some replacement ∧ assign.Complaint table r e ∧
      (table.add (.reg r) replacement).outcome = .error e := by
  obtain ⟨x, hassign, rfl | ⟨s, rfl, differ⟩⟩ := not_fits_iff.1 misfit
  · exact ⟨_, _, hassign, .noRegister hassign, rfl⟩
  · exact ⟨_, _, hassign, .otherClass hassign differ.symm,
      Remap.outcome_addRegisters_of_mismatch differ.symm⟩

end AssignmentFunction

namespace Remap

variable {assign : AssignmentFunction}

/-- Registers are added one after the other, and the first that is refused ends it. -/
theorem outcome_addAssigned_append (remap : Remap) (before after : List Register) :
    (remap.addAssigned assign (before ++ after)).outcome =
      (remap.addAssigned assign before).outcome.bind fun next =>
        (next.addAssigned assign after).outcome := by
  induction before generalizing remap with
  | nil => rfl
  | cons r rest ih =>
    rw [List.cons_append]
    cases hassign : assign (.reg r) with
    | none =>
      rw [outcome_addAssigned_cons_of_none hassign, outcome_addAssigned_cons_of_none hassign]
      exact ih remap
    | some replacement =>
      rw [outcome_addAssigned_cons_of_some hassign, outcome_addAssigned_cons_of_some hassign]
      cases (remap.add (.reg r) replacement).outcome with
      | error e => rfl
      | ok next => exact ih next

/-- Of distinct registers for which there is room, the first with an assignment that does not fit
is refused, by the table of the assignments before it. -/
theorem exists_complaint_of_misfit (remap : Remap) {before : List Register} {r : Register}
    (distinct : before.Nodup) (fresh : ∀ s ∈ before, s ∉ remap.table.registers)
    (room : remap.table.size + before.length ≤ capacity)
    (fits : ∀ s ∈ before, assign.Fits s) (misfit : ¬ assign.Fits r) (after : List Register) :
    ∃ (table : Remap) (e : RemapError),
      table.pairs = remap.pairs ++ before.filterMap assign.pair? ∧ assign.Complaint table r e ∧
        (remap.addAssigned assign (before ++ r :: after)).outcome = .error e := by
  obtain ⟨table, htable, hpairs⟩ := exists_addAssigned_of_fits remap distinct fresh room fits
  obtain ⟨replacement, e, hassign, hcomplaint, he⟩ :=
    AssignmentFunction.exists_complaint misfit table
  refine ⟨table, e, hpairs, hcomplaint, ?_⟩
  rw [outcome_addAssigned_append, htable]
  show (table.addAssigned assign (r :: after)).outcome = _
  rw [outcome_addAssigned_cons_of_some hassign, he]
  rfl

end Remap

end RegisterMapping
