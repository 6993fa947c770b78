import Mathlib.Data.List.Basic
import RegisterMapping.Proofs.Remap
import RegisterMapping.Proofs.Table

/-!
# Runs of replacements, some of them refused

A replacement table is offered pairs of handles one after the other, and goes on as it was after
one that it refuses. The pairs in it can be read off the sequence: of the pairs of registers of one
class, those of the first distinct replaced registers, each with the replacement with which it
appeared first (`Remap.pairs_afterAttempts`). A pair is refused for the first of four reasons that
applies (`Remap.refused_of_error`, `Remap.outcome_of_refused`), so a second replacement of one
register is never taken for an overflow.
-/

set_option autoImplicit false

namespace RegisterMapping

namespace Remap

/-! ## What a run is about -/

/-- The table after a run of attempts to add pairs, starting from the empty one. -/
def afterAttempts (calls : List (Handle × Handle)) : Remap :=
  calls.foldl (fun remap call => remap.tryAdd call.1 call.2) empty

/-- The registers of a pair of handles, if both hold one and the classes agree. -/
def compatible? : Handle × Handle → Option (Register × Register)
  | (.reg r, .reg s) => if r.cls = s.cls then some (r, s) else none
  | (.reg _, .invalid) | (.invalid, _) => none

/-- The pairs of a run that replace a register by one of its class. -/
def compatible (calls : List (Handle × Handle)) : List (Register × Register) :=
  calls.filterMap compatible?

/-- The registers that a run replaces: the first distinct ones, as many as there is room for. -/
def replaced (calls : List (Handle × Handle)) : List Register :=
  RegisterTable.firstDistinct capacity ((compatible calls).map Prod.fst)

/-- A register with the replacement with which it appears first. -/
def firstPair? (calls : List (Handle × Handle)) (r : Register) : Option (Register × Register) :=
  ((compatible calls).lookup r).map fun s => (r, s)

/-- The pairs that a run leaves in the table. -/
def kept (calls : List (Handle × Handle)) : List (Register × Register) :=
  (replaced calls).filterMap (firstPair? calls)

variable {calls : List (Handle × Handle)} {a b : Handle} {r s : Register}

theorem compatible_append (before after : List (Handle × Handle)) :
    compatible (before ++ after) = compatible before ++ compatible after :=
  List.filterMap_append

theorem compatible_reg (same : r.cls = s.cls) : compatible [(.reg r, .reg s)] = [(r, s)] := by
  simp [compatible, compatible?, same]

theorem compatible_of_differ (differ : r.cls ≠ s.cls) :
    compatible [(.reg r, .reg s)] = [] := by
  simp [compatible, compatible?, differ]

/-- A pair with an invalid handle is not among the compatible ones, on whichever side it stands. -/
theorem compatible_of_invalid (invalid : a = .invalid ∨ b = .invalid) :
    compatible [(a, b)] = [] := by
  cases a with
  | invalid => rfl
  | reg r =>
    obtain rfl : b = .invalid := by simpa using invalid
    rfl

/-- A register that is replaced somewhere in a run has a first replacement. -/
theorem exists_firstPair? (h : r ∈ (compatible calls).map Prod.fst) :
    ∃ s, (compatible calls).lookup r = some s := by
  obtain ⟨pair, hmem, rfl⟩ := List.mem_map.1 h
  exact Option.isSome_iff_exists.1 (List.lookup_isSome_iff.2 ⟨pair, hmem, by simp⟩)

/-- Every replaced register is kept with a replacement. -/
theorem map_fst_kept (calls : List (Handle × Handle)) :
    (kept calls).map Prod.fst = replaced calls := by
  rw [kept, List.map_filterMap]
  refine (List.filterMap_congr fun r hr => ?_).trans List.filterMap_some
  obtain ⟨s, hs⟩ := exists_firstPair? (RegisterTable.mem_of_mem_firstDistinct hr)
  rw [firstPair?, hs]
  rfl

/-! ## What is kept when one more pair is offered -/

/-- With which replacement a register appears first is not changed by a later pair. -/
theorem firstPair?_concat (h : r ∈ replaced calls) (a b : Handle) :
    firstPair? (calls ++ [(a, b)]) r = firstPair? calls r := by
  obtain ⟨s, hs⟩ := exists_firstPair? (RegisterTable.mem_of_mem_firstDistinct h)
  rw [firstPair?, firstPair?, compatible_append, List.lookup_append, hs, Option.some_or]

/-- A register that no pair replaced before gets its first replacement from the new pair. -/
theorem firstPair?_concat_fresh (h : r ∉ (compatible calls).map Prod.fst)
    (same : r.cls = s.cls) : firstPair? (calls ++ [(.reg r, .reg s)]) r = some (r, s) := by
  have hnone : (compatible calls).lookup r = none := by
    refine List.lookup_eq_none_iff.2 fun pair hmem => ?_
    have hne : r ≠ pair.1 := fun heq => h (List.mem_map.2 ⟨pair, hmem, heq.symm⟩)
    simpa using hne
  rw [firstPair?, compatible_append, List.lookup_append, hnone, compatible_reg same]
  simp

theorem filterMap_firstPair?_concat (calls : List (Handle × Handle)) (a b : Handle) :
    (replaced calls).filterMap (firstPair? (calls ++ [(a, b)])) = kept calls :=
  List.filterMap_congr fun _ hr => firstPair?_concat hr a b

theorem replaced_concat (same : r.cls = s.cls) (calls : List (Handle × Handle)) :
    replaced (calls ++ [(.reg r, .reg s)]) =
      RegisterTable.firstDistinct capacity ((compatible calls).map Prod.fst ++ [r]) := by
  rw [replaced, compatible_append, compatible_reg same, List.map_append]
  rfl

/-- A pair that is no pair of registers of one class leaves what is kept. -/
theorem kept_concat_of_incompatible (h : compatible [(a, b)] = []) :
    kept (calls ++ [(a, b)]) = kept calls := by
  have hreplaced : replaced (calls ++ [(a, b)]) = replaced calls := by
    rw [replaced, compatible_append, h, List.append_nil]
    rfl
  rw [kept, hreplaced, filterMap_firstPair?_concat]

/-- A second replacement of a register leaves what is kept. -/
theorem kept_concat_of_mem (same : r.cls = s.cls) (hmem : r ∈ replaced calls) :
    kept (calls ++ [(.reg r, .reg s)]) = kept calls := by
  rw [kept, replaced_concat same, RegisterTable.firstDistinct_concat_of_mem
    (RegisterTable.mem_of_mem_firstDistinct hmem)]
  exact filterMap_firstPair?_concat calls _ _

/-- Where as many registers are replaced as there is room for, a pair leaves what is kept. -/
theorem kept_concat_of_full (same : r.cls = s.cls)
    (full : ¬ (replaced calls).length < capacity) :
    kept (calls ++ [(.reg r, .reg s)]) = kept calls := by
  rw [kept, replaced_concat same, RegisterTable.firstDistinct_concat_of_full full]
  exact filterMap_firstPair?_concat calls _ _

/-- The first replacement of a register is added at the end while there is room. -/
theorem kept_concat_of_room (same : r.cls = s.cls) (fresh : r ∉ replaced calls)
    (room : (replaced calls).length < capacity) :
    kept (calls ++ [(.reg r, .reg s)]) = kept calls ++ [(r, s)] := by
  have habsent := RegisterTable.not_mem_of_room fresh room
  rw [kept, replaced_concat same, RegisterTable.firstDistinct_concat_of_room fresh room,
    List.filterMap_append]
  refine congrArg₂ _ (filterMap_firstPair?_concat calls _ _) ?_
  simp [firstPair?_concat_fresh habsent same]

/-! ## What the table holds -/

theorem tryAdd_of_ok {remap next : Remap} (houtcome : (remap.add a b).outcome = .ok next) :
    remap.tryAdd a b = next := by
  simp only [tryAdd, houtcome]

/-- A refused pair leaves the table as it was. -/
theorem tryAdd_of_error {remap : Remap} {e : RemapError}
    (houtcome : (remap.add a b).outcome = .error e) : remap.tryAdd a b = remap := by
  simp only [tryAdd, houtcome]

theorem afterAttempts_concat (calls : List (Handle × Handle)) (a b : Handle) :
    afterAttempts (calls ++ [(a, b)]) = (afterAttempts calls).tryAdd a b := by
  simp [afterAttempts]

theorem registers_of_pairs {remap : Remap} (hpairs : remap.pairs = kept calls) :
    remap.table.registers = replaced calls := by
  rw [← map_fst_kept, ← hpairs]
  rfl

/-- Each kept pair takes one place of the table. -/
theorem size_of_pairs {remap : Remap} (hpairs : remap.pairs = kept calls) :
    remap.table.size = (replaced calls).length := by
  rw [← RegisterTable.length_registers, registers_of_pairs hpairs]

/-- An attempt keeps the pairs of the table those that the run keeps. -/
theorem pairs_tryAdd {remap : Remap} (hpairs : remap.pairs = kept calls) (a b : Handle) :
    (remap.tryAdd a b).pairs = kept (calls ++ [(a, b)]) := by
  have hregisters := registers_of_pairs hpairs
  have hsize := size_of_pairs hpairs
  rcases remap.add_cases a b with
    ⟨r, s, next, fresh, room, rfl, rfl, same, houtcome, htable⟩ |
    ⟨r, s, rfl, rfl, same, -, full, houtcome⟩ | ⟨r, s, existing, rfl, rfl, same, found, houtcome⟩ |
    ⟨r, s, rfl, rfl, differ, houtcome⟩ | ⟨invalid, houtcome⟩
  · have habsent := hregisters ▸ RegisterTable.find?_eq_none_iff.1 fresh
    rw [tryAdd_of_ok houtcome, kept_concat_of_room same habsent (hsize ▸ room), ← hpairs]
    exact congrArg RegisterTable.entries htable
  · rw [tryAdd_of_error houtcome, kept_concat_of_full same (hsize ▸ full)]
    exact hpairs
  · have hmem : r ∈ replaced calls := by
      rw [← hregisters]
      exact List.mem_map_of_mem (RegisterTable.find?_eq_some_iff.1 found)
    rw [tryAdd_of_error houtcome, kept_concat_of_mem same hmem]
    exact hpairs
  · rw [tryAdd_of_error houtcome, kept_concat_of_incompatible (compatible_of_differ differ)]
    exact hpairs
  · rw [tryAdd_of_error houtcome, kept_concat_of_incompatible (compatible_of_invalid invalid)]
    exact hpairs

/-- After a run, the table holds the first distinct replaced registers, each with the replacement
with which it appeared first. -/
theorem pairs_afterAttempts (calls : List (Handle × Handle)) :
    (afterAttempts calls).pairs = kept calls := by
  induction calls using List.reverseRecOn with
  | nil => rfl
  | append_singleton calls call ih =>
    rw [afterAttempts_concat]
    exact pairs_tryAdd ih call.1 call.2

/-- The table finds the replacements of the kept pairs. -/
theorem find?_afterAttempts_eq_some_iff :
    (afterAttempts calls).table.find? r = some s ↔ (r, s) ∈ kept calls := by
  rw [← pairs_afterAttempts]
  exact RegisterTable.find?_eq_some_iff

theorem find?_afterAttempts_eq_none_iff :
    (afterAttempts calls).table.find? r = none ↔ r ∉ replaced calls := by
  rw [RegisterTable.find?_eq_none_iff, registers_of_pairs (pairs_afterAttempts calls)]

theorem lookup?_afterAttempts_eq_some_iff {h : Handle} :
    (afterAttempts calls).lookup? h = some s ↔ ∃ r, h = .reg r ∧ (r, s) ∈ kept calls := by
  cases h with
  | invalid => simp [lookup?]
  | reg r => simp [lookup?, find?_afterAttempts_eq_some_iff]

/-- A lookup fails for the handles of all other registers, and for the invalid handle. -/
theorem lookup?_afterAttempts_eq_none_iff {h : Handle} :
    (afterAttempts calls).lookup? h = none ↔ ∀ r ∈ replaced calls, h ≠ .reg r := by
  cases h with
  | invalid => simp [lookup?]
  | reg r =>
    rw [lookup?, find?_afterAttempts_eq_none_iff]
    constructor
    · rintro hr s hs heq
      exact hr (Handle.reg.inj heq ▸ hs)
    · exact fun hall hr => hall r hr rfl

/-- A table puts a register of its class in place of a register. -/
theorem exists_apply_reg (remap : Remap) (r : Register) :
    ∃ s, remap.apply (.reg r) = .reg s ∧ s.cls = r.cls := by
  cases hfound : remap.table.find? r with
  | none => exact ⟨r, by simp [apply, lookup?, hfound], rfl⟩
  | some s =>
    have hmem := RegisterTable.find?_eq_some_iff.1 hfound
    exact ⟨s, apply_reg_of_mem hmem, (remap.classes_agree _ hmem).symm⟩

/-! ## Why a pair is refused -/

/-- The reason for which a pair is refused after a run, the first one that applies. -/
inductive Refused (calls : List (Handle × Handle)) : Handle → Handle → RemapError → Prop where
  | invalidHandle {a b : Handle} (invalid : a = .invalid ∨ b = .invalid) :
      Refused calls a b (.invalidHandle a b (afterAttempts calls))
  | classMismatch {r s : Register} (differ : r.cls ≠ s.cls) :
      Refused calls (.reg r) (.reg s) (.classMismatch r s)
  | remappedTwice {r s existing : Register} (same : r.cls = s.cls)
      (present : (r, existing) ∈ kept calls) :
      Refused calls (.reg r) (.reg s) (.remappedTwice r existing s)
  | overflow {r s : Register} (same : r.cls = s.cls) (fresh : r ∉ replaced calls)
      (full : (replaced calls).length = capacity) :
      Refused calls (.reg r) (.reg s) (.overflow r s (afterAttempts calls))

/-- A pair that is refused is refused for a reason, which is the first that applies. -/
theorem refused_of_error {e : RemapError}
    (h : ((afterAttempts calls).add a b).outcome = .error e) : Refused calls a b e := by
  rcases (afterAttempts calls).add_cases a b with
    ⟨r, s, next, -, -, rfl, rfl, -, houtcome, -⟩ |
    ⟨r, s, rfl, rfl, same, fresh, full, houtcome⟩ |
    ⟨r, s, existing, rfl, rfl, same, found, houtcome⟩ |
    ⟨r, s, rfl, rfl, differ, houtcome⟩ | ⟨invalid, houtcome⟩
  all_goals obtain heq := houtcome.symm.trans h
  · exact absurd heq (by simp)
  · obtain rfl := Except.error.inj heq
    rw [size_of_pairs (pairs_afterAttempts calls)] at full
    exact .overflow same (find?_afterAttempts_eq_none_iff.1 fresh)
      (Nat.le_antisymm (RegisterTable.length_firstDistinct_le _) (Nat.le_of_not_lt full))
  · obtain rfl := Except.error.inj heq
    exact .remappedTwice same (find?_afterAttempts_eq_some_iff.1 found)
  · obtain rfl := Except.error.inj heq
    exact .classMismatch differ
  · obtain rfl := Except.error.inj heq
    exact .invalidHandle invalid

/-- A reason is enough for a pair to be refused: the reasons exclude each other. -/
theorem outcome_of_refused {e : RemapError} (h : Refused calls a b e) :
    ((afterAttempts calls).add a b).outcome = .error e := by
  cases h with
  | invalidHandle invalid =>
    cases a with
    | invalid => rfl
    | reg r =>
      obtain rfl : b = .invalid := by simpa using invalid
      rfl
  | classMismatch differ => exact outcome_addRegisters_of_mismatch differ
  | remappedTwice same present =>
    exact outcome_addRegisters_of_found same (find?_afterAttempts_eq_some_iff.2 present)
  | overflow same fresh full =>
    refine outcome_addRegisters_of_full same (find?_afterAttempts_eq_none_iff.2 fresh) ?_
    rw [size_of_pairs (pairs_afterAttempts calls), full]
    exact Nat.lt_irrefl _

/-! ## Runs as a whole -/

/-- After any run of attempts, the table holds the pairs of registers of one class that replace
the first distinct registers, each with its first replacement. So at every moment no register is
replaced twice and the classes agree; a lookup finds the replacements of these registers and
nothing else, and what stands for a handle afterwards is its replacement or the handle itself, a
register of its class if it is a register. A refused pair leaves the table as it is, and the reason
given is the first of these that applies: one side is no register, the classes differ, the register
is replaced already, even in a full table, or there is no room. -/
theorem afterAttempts_keeps_first_replacements (calls : List (Handle × Handle)) :
    (afterAttempts calls).pairs = kept calls ∧
      (kept calls).map Prod.fst = replaced calls ∧
      (replaced calls).Nodup ∧
      (∀ pair ∈ kept calls, pair.1.cls = pair.2.cls) ∧
      (∀ h s, (afterAttempts calls).lookup? h = some s ↔ ∃ r, h = .reg r ∧ (r, s) ∈ kept calls) ∧
      (∀ h, (afterAttempts calls).lookup? h = none ↔ ∀ r ∈ replaced calls, h ≠ .reg r) ∧
      (∀ r s, (r, s) ∈ kept calls → (afterAttempts calls).apply (.reg r) = .reg s) ∧
      (∀ h, (∀ r ∈ replaced calls, h ≠ .reg r) → (afterAttempts calls).apply h = h) ∧
      (afterAttempts calls).apply .invalid = .invalid ∧
      (∀ r, ∃ s, (afterAttempts calls).apply (.reg r) = .reg s ∧ s.cls = r.cls) ∧
      ∀ a b e, (((afterAttempts calls).add a b).outcome = .error e ↔ Refused calls a b e) ∧
        (((afterAttempts calls).add a b).outcome = .error e →
          afterAttempts (calls ++ [(a, b)]) = afterAttempts calls) := by
  refine ⟨pairs_afterAttempts calls, map_fst_kept calls, ?_, ?_, ?_, ?_, ?_, ?_, rfl, ?_, ?_⟩
  · rw [← registers_of_pairs (pairs_afterAttempts calls)]
    exact RegisterTable.nodup_registers _
  · rw [← pairs_afterAttempts]
    exact (afterAttempts calls).classes_agree
  · exact fun h s => lookup?_afterAttempts_eq_some_iff
  · exact fun h => lookup?_afterAttempts_eq_none_iff
  · intro r s hmem
    rw [← pairs_afterAttempts] at hmem
    exact apply_reg_of_mem hmem
  · intro h hother
    rw [apply, lookup?_afterAttempts_eq_none_iff.2 hother]
  · exact exists_apply_reg _
  · refine fun a b e => ⟨⟨refused_of_error, outcome_of_refused⟩, fun houtcome => ?_⟩
    rw [afterAttempts_concat, tryAdd_of_error houtcome]

/-- A full table tells a register that it replaces already from one for which there is no room. -/
example :
    let r (i : Fin 8) : Register := ⟨.int64, true, i, Nat.lt_trans i.isLt (by decide)⟩
    let full := [0, 1, 2, 3].map fun i => (Handle.reg (r i), Handle.reg (r 7))
    ((afterAttempts full).add (.reg (r 3)) (.reg (r 4))).outcome =
        .error (.remappedTwice (r 3) (r 7) (r 4)) ∧
      ((afterAttempts full).add (.reg (r 4)) (.reg (r 4))).outcome =
        .error (.overflow (r 4) (r 4) (afterAttempts full)) := by
  decide

end Remap

end RegisterMapping
