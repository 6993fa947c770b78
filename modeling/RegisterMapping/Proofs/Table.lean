import Mathlib.Data.List.Induction
import RegisterMapping.Table

/-!
# The first distinct registers of a sequence

A table that is offered registers one at a time takes those that it does not hold yet, until it is
full. Which registers it ends up with can be said without the table: they are the first distinct
registers of the sequence, as many as there is room for (`RegisterTable.firstDistinct`). The lemmas
say how these change when one more register is offered, and that they do not change any more for a
register that has been offered (`RegisterTable.mem_firstDistinct_append_iff`).
-/

set_option autoImplicit false

namespace RegisterMapping

namespace RegisterTable

variable {capacity : Nat} {registers later : List Register} {r : Register}

/-! ## Registers in order of first appearance -/

theorem eraseDups_concat_of_mem (h : r ∈ registers) :
    (registers ++ [r]).eraseDups = registers.eraseDups := by
  rw [List.eraseDups_append]
  simp [List.removeAll, h]

theorem eraseDups_concat_of_not_mem (h : r ∉ registers) :
    (registers ++ [r]).eraseDups = registers.eraseDups ++ [r] := by
  rw [List.eraseDups_append]
  simp [List.removeAll, List.eraseDups_cons, h]

/-- Each distinct register is listed once. -/
theorem nodup_eraseDups (registers : List Register) : registers.eraseDups.Nodup := by
  induction registers using List.reverseRecOn with
  | nil => simp
  | append_singleton earlier r ih =>
    by_cases h : r ∈ earlier
    · rw [eraseDups_concat_of_mem h]
      exact ih
    · have habsent : r ∉ earlier.eraseDups := by rwa [List.mem_eraseDups]
      rw [eraseDups_concat_of_not_mem h, List.nodup_append]
      refine ⟨ih, by simp, fun s hs t ht => ?_⟩
      rw [List.mem_singleton.1 ht]
      exact fun heq => habsent (heq ▸ hs)

/-- How many distinct registers a sequence has does not depend on its order. -/
theorem length_eraseDups_eq_of_perm {other : List Register} (h : other.Perm registers) :
    other.eraseDups.length = registers.eraseDups.length := by
  refine List.Perm.length_eq ?_
  rw [List.perm_ext_iff_of_nodup (nodup_eraseDups _) (nodup_eraseDups _)]
  intro r
  rw [List.mem_eraseDups, List.mem_eraseDups]
  exact h.mem_iff

/-! ## As many as a table has room for -/

/-- The first distinct registers of a sequence, as many as a table has room for. -/
def firstDistinct (capacity : Nat) (registers : List Register) : List Register :=
  registers.eraseDups.take capacity

/-- There are no more registers than there is room for. -/
theorem length_firstDistinct_le (registers : List Register) :
    (firstDistinct capacity registers).length ≤ capacity :=
  List.length_take_le _ _

theorem mem_of_mem_firstDistinct (h : r ∈ firstDistinct capacity registers) : r ∈ registers :=
  List.mem_eraseDups.1 (List.mem_of_mem_take h)

/-- While there is room, no distinct register is left out. -/
theorem firstDistinct_of_room (room : (firstDistinct capacity registers).length < capacity) :
    firstDistinct capacity registers = registers.eraseDups := by
  refine List.take_of_length_le ?_
  rw [firstDistinct, List.length_take] at room
  omega

theorem firstDistinct_concat_of_mem (h : r ∈ registers) :
    firstDistinct capacity (registers ++ [r]) = firstDistinct capacity registers := by
  rw [firstDistinct, eraseDups_concat_of_mem h]
  rfl

/-- Once there is no room left, no register adds anything. -/
theorem firstDistinct_concat_of_full
    (full : ¬ (firstDistinct capacity registers).length < capacity) :
    firstDistinct capacity (registers ++ [r]) = firstDistinct capacity registers := by
  have hlength : capacity ≤ registers.eraseDups.length := by
    rw [firstDistinct, List.length_take] at full
    omega
  rw [firstDistinct, List.eraseDups_append, List.take_append_of_le_length hlength]
  rfl

theorem not_mem_of_room (fresh : r ∉ firstDistinct capacity registers)
    (room : (firstDistinct capacity registers).length < capacity) : r ∉ registers := by
  rwa [firstDistinct_of_room room, List.mem_eraseDups] at fresh

theorem firstDistinct_concat_of_room (fresh : r ∉ firstDistinct capacity registers)
    (room : (firstDistinct capacity registers).length < capacity) :
    firstDistinct capacity (registers ++ [r]) = firstDistinct capacity registers ++ [r] := by
  have habsent := not_mem_of_room fresh room
  rw [firstDistinct, eraseDups_concat_of_not_mem habsent, ← firstDistinct_of_room room]
  exact List.take_of_length_le (by simpa using Nat.succ_le_of_lt room)

/-- Whether a register is among the first ones is settled when it appears; what comes later does
not matter. -/
theorem mem_firstDistinct_append_iff (h : r ∈ registers) :
    r ∈ firstDistinct capacity (registers ++ later) ↔ r ∈ firstDistinct capacity registers := by
  -- What the later registers add are others than those that have appeared.
  have hlater : ∀ n, r ∉ ((later.removeAll registers).eraseDups).take n := fun n hmem => by
    have := List.mem_eraseDups.1 (List.mem_of_mem_take hmem)
    simp [List.removeAll, h] at this
  rw [firstDistinct, firstDistinct, List.eraseDups_append, List.take_append, List.mem_append]
  simp [hlater]

end RegisterTable

end RegisterMapping
