import RegisterMapping.Usage

/-!
# What recording accesses does to a usage table

`Usage.add_cases` says everything that one access can do: merge with what is recorded, open an
entry, or be refused because the table is full or there is no register. From it follows what a
list of accesses does, if there are no more of them than a table has room for.
-/

set_option autoImplicit false

namespace RegisterMapping

namespace Usage

/-! ## One access -/

theorem outcome_addRegister_of_some {usage : Usage} {r : Register} {access old : Access}
    (h : usage.find? r = some old) :
    (usage.addRegister r access).outcome = .ok (usage.set r (old.merge access)) := by
  rw [addRegister]
  split
  · next existing found =>
    obtain rfl := Option.some.inj (found.symm.trans h)
    rfl
  · next fresh => exact absurd (fresh.symm.trans h) (by simp)

theorem outcome_addRegister_of_none {usage : Usage} {r : Register} {access : Access}
    (fresh : usage.find? r = none) (room : usage.size < capacity) :
    (usage.addRegister r access).outcome = .ok (usage.push r access fresh room) := by
  rw [addRegister]
  split
  · next existing found => exact absurd (fresh.symm.trans found) (by simp)
  · rw [dif_pos room]
    rfl

theorem outcome_addRegister_of_full {usage : Usage} {r : Register} {access : Access}
    (fresh : usage.find? r = none) (full : ¬ usage.size < capacity) :
    (usage.addRegister r access).outcome = .error (.overflow r access usage) := by
  rw [addRegister]
  split
  · next existing found => exact absurd (fresh.symm.trans found) (by simp)
  · rw [dif_neg full]
    rfl

/-- Everything that recording an access can come to. -/
theorem add_cases (usage : Usage) (h : Handle) (access : Access) :
    (∃ r old, h = .reg r ∧ usage.find? r = some old ∧
        (usage.add h access).outcome = .ok (usage.set r (old.merge access))) ∨
      (∃ r, ∃ fresh : usage.find? r = none, ∃ room : usage.size < capacity,
        h = .reg r ∧ (usage.add h access).outcome = .ok (usage.push r access fresh room)) ∨
      (∃ r, h = .reg r ∧ usage.find? r = none ∧ ¬ usage.size < capacity ∧
        (usage.add h access).outcome = .error (.overflow r access usage)) ∨
      (h = .invalid ∧ (usage.add h access).outcome = .error (.invalidHandle access usage)) := by
  cases h with
  | invalid => exact .inr (.inr (.inr ⟨rfl, rfl⟩))
  | reg r =>
    cases found : usage.find? r with
    | some old => exact .inl ⟨r, old, rfl, found, outcome_addRegister_of_some found⟩
    | none =>
      by_cases room : usage.size < capacity
      · exact .inr (.inl ⟨r, found, room, rfl, outcome_addRegister_of_none found room⟩)
      · exact .inr (.inr (.inl ⟨r, rfl, found, room, outcome_addRegister_of_full found room⟩))

/-- Where the table has room, an access of a register is recorded. -/
theorem exists_add_of_room {usage : Usage} (r : Register) (access : Access)
    (room : usage.size < capacity) :
    ∃ next : Usage, (usage.add (.reg r) access).outcome = .ok next ∧
      next.size ≤ usage.size + 1 ∧
      ∀ s, s ∈ next.registers ↔ s ∈ usage.registers ∨ s = r := by
  -- Merged, a register is in the table already; else it gets an entry, for which there is room.
  rcases usage.add_cases (.reg r) access with ⟨_, old, heq, found, houtcome⟩ |
    ⟨_, fresh, room, heq, houtcome⟩ | ⟨_, -, -, full, -⟩ | ⟨heq, -⟩
  · obtain rfl := Handle.reg.inj heq
    have hmem : r ∈ usage.registers := by
      rw [← Decidable.not_not (p := r ∈ usage.registers), ← RegisterTable.find?_eq_none_iff, found]
      simp
    refine ⟨_, houtcome, ?_, fun s => ?_⟩
    · rw [← RegisterTable.length_registers, RegisterTable.registers_set,
        RegisterTable.length_registers]
      exact Nat.le_succ _
    · rw [RegisterTable.registers_set]
      exact ⟨.inl, fun h => h.elim id fun h => h ▸ hmem⟩
  · obtain rfl := Handle.reg.inj heq
    refine ⟨_, houtcome, ?_, fun s => by simp⟩
    rw [← RegisterTable.length_registers, RegisterTable.registers_push, List.length_append,
      RegisterTable.length_registers]
    exact Nat.le_refl _
  · exact absurd room full
  · exact Handle.noConfusion heq

/-! ## Several accesses -/

theorem outcome_addAll_cons (usage : Usage) (h : Handle) (access : Access)
    (rest : List (Handle × Access)) :
    (usage.addAll ((h, access) :: rest)).outcome =
      (usage.add h access).outcome.bind fun next => (next.addAll rest).outcome :=
  Traced.outcome_bind _ _

/-- Valid accesses for which a table has room are all recorded, and the table then holds their
registers beside those that it held. -/
theorem exists_addAll_of_valid (usage : Usage) {accesses : List (Handle × Access)}
    (valid : ∀ access ∈ accesses, access.1.isValid = true)
    (room : usage.size + accesses.length ≤ capacity) :
    ∃ final : Usage, (usage.addAll accesses).outcome = .ok final ∧
      ∀ r, r ∈ final.registers ↔ r ∈ usage.registers ∨ .reg r ∈ accesses.map Prod.fst := by
  induction accesses generalizing usage with
  | nil => exact ⟨usage, rfl, fun r => by simp⟩
  | cons first rest ih =>
    obtain ⟨h, access⟩ := first
    cases h with
    | invalid => exact absurd (valid _ List.mem_cons_self) Bool.false_ne_true
    | reg r =>
      simp only [List.length_cons] at room
      -- One access takes up at most one entry, so there is room for the rest.
      obtain ⟨next, hnext, hsize, hmem⟩ := exists_add_of_room r access
        (by omega : usage.size < capacity)
      obtain ⟨final, hfinal, hregisters⟩ := ih next
        (fun later hlater => valid later (List.mem_cons_of_mem _ hlater)) (by omega)
      refine ⟨final, ?_, fun s => ?_⟩
      · rw [outcome_addAll_cons, hnext]
        exact hfinal
      · simp [hregisters, hmem, or_assoc]

theorem outcome_addAll_append (usage : Usage) (before after : List (Handle × Access)) :
    (usage.addAll (before ++ after)).outcome =
      (usage.addAll before).outcome.bind fun next => (next.addAll after).outcome := by
  induction before generalizing usage with
  | nil => rfl
  | cons first rest ih =>
    rw [List.cons_append, outcome_addAll_cons, outcome_addAll_cons]
    cases (usage.add first.1 first.2).outcome with
    | error e => rfl
    | ok next => exact ih next

/-- The first access of no register is reported together with the table of the accesses before it,
if there is room for those. -/
theorem exists_addAll_of_first_invalid (usage : Usage) {before : List (Handle × Access)}
    (valid : ∀ earlier ∈ before, earlier.1.isValid = true)
    (room : usage.size + before.length ≤ capacity) (access : Access)
    (after : List (Handle × Access)) :
    ∃ table : Usage, (usage.addAll before).outcome = .ok table ∧
      (usage.addAll (before ++ (.invalid, access) :: after)).outcome =
        .error (.invalidHandle access table) := by
  obtain ⟨table, htable, -⟩ := usage.exists_addAll_of_valid valid room
  refine ⟨table, htable, ?_⟩
  rw [outcome_addAll_append, htable]
  exact outcome_addAll_cons table .invalid access after

end Usage

end RegisterMapping
