import RegisterMapping.Register.Basic

/-!
# Tables keyed by registers

An instruction mentions few registers. A `RegisterTable` attaches a value to each of at most as many
registers as its capacity, keeps its entries in the order in which the registers came, and never
holds a register twice; both facts are part of the type. It grows by `push`, which asks for a
fresh register and for room, and `set` replaces the value of a register that is there.
-/

set_option autoImplicit false

namespace RegisterMapping

/-- Values attached to at most `capacity` registers, in order of first mention. -/
structure RegisterTable (capacity : Nat) (α : Type) where
  entries : List (Register × α)
  distinct : (entries.map Prod.fst).Nodup
  length_le : entries.length ≤ capacity
  deriving DecidableEq

namespace RegisterTable

variable {capacity : Nat} {α : Type}

/-- The table without entries. -/
def empty : RegisterTable capacity α := ⟨[], by simp, by simp⟩

instance : Inhabited (RegisterTable capacity α) := ⟨empty⟩

/-- The value attached to a register. -/
def find? (table : RegisterTable capacity α) (r : Register) : Option α := table.entries.lookup r

/-- The registers of the table, in order. -/
def registers (table : RegisterTable capacity α) : List Register := table.entries.map Prod.fst

/-- The number of entries. -/
def size (table : RegisterTable capacity α) : Nat := table.entries.length

/-- The table has no entry. -/
def isEmpty (table : RegisterTable capacity α) : Bool := table.entries.isEmpty

/-- Replace the value attached to a register; other entries stay as they are. -/
def set (table : RegisterTable capacity α) (r : Register) (value : α) :
    RegisterTable capacity α where
  entries := table.entries.map fun entry => if entry.1 = r then (r, value) else entry
  distinct := by
    have keys : (fun entry : Register × α => (if entry.1 = r then (r, value) else entry).1)
        = Prod.fst := by
      funext entry
      split <;> simp_all
    simpa [Function.comp_def, keys] using table.distinct
  length_le := by simpa using table.length_le

/-- Add an entry for a fresh register to a table with room. -/
def push (table : RegisterTable capacity α) (r : Register) (value : α)
    (fresh : table.find? r = none) (room : table.size < capacity) :
    RegisterTable capacity α where
  entries := table.entries ++ [(r, value)]
  distinct := by
    have absent : r ∉ table.entries.map Prod.fst := by
      intro mem
      obtain ⟨entry, hmem, rfl⟩ := List.mem_map.1 mem
      have := List.lookup_eq_none_iff.1 fresh entry hmem
      simp at this
    rw [List.map_append, List.nodup_append]
    refine ⟨table.distinct, by simp, ?_⟩
    intro a ha b hb
    simp only [List.map_cons, List.map_nil, List.mem_singleton] at hb
    subst hb
    rintro rfl
    exact absent ha
  length_le := by
    simpa [size] using Nat.succ_le_of_lt room

/-- The text form of a table: its entries in braces, separated by commas. -/
def text (showEntry : Register × α → String) (table : RegisterTable capacity α) : String :=
  if table.isEmpty then
    "\x7b\x7d"
  else
    "\x7b " ++ ", ".intercalate (table.entries.map showEntry) ++ " \x7d"

@[simp]
theorem entries_empty : (empty : RegisterTable capacity α).entries = [] := rfl

@[simp]
theorem entries_push (table : RegisterTable capacity α) (r : Register) (value : α)
    (fresh : table.find? r = none) (room : table.size < capacity) :
    (table.push r value fresh room).entries = table.entries ++ [(r, value)] := rfl

theorem entries_set (table : RegisterTable capacity α) (r : Register) (value : α) :
    (table.set r value).entries =
      table.entries.map fun entry => if entry.1 = r then (r, value) else entry := rfl

@[simp]
theorem registers_empty : (empty : RegisterTable capacity α).registers = [] := rfl

@[simp]
theorem registers_push (table : RegisterTable capacity α) (r : Register) (value : α)
    (fresh : table.find? r = none) (room : table.size < capacity) :
    (table.push r value fresh room).registers = table.registers ++ [r] := by
  simp [registers]

@[simp]
theorem registers_set (table : RegisterTable capacity α) (r : Register) (value : α) :
    (table.set r value).registers = table.registers := by
  rw [registers]
  rw [entries_set, List.map_map]
  refine List.map_congr_left fun entry _ => ?_
  by_cases h : entry.1 = r <;> simp [h]

theorem nodup_registers (table : RegisterTable capacity α) : table.registers.Nodup := table.distinct

theorem length_registers (table : RegisterTable capacity α) :
    table.registers.length = table.size := by
  simp [registers, size]

theorem find?_eq_none_iff {table : RegisterTable capacity α} {r : Register} :
    table.find? r = none ↔ r ∉ table.registers := by
  rw [find?, registers]
  rw [List.lookup_eq_none_iff, List.mem_map]
  constructor
  · rintro h ⟨entry, hmem, rfl⟩
    exact absurd (h entry hmem) (by simp)
  · intro h entry hmem
    have hne : r ≠ entry.1 := by
      rintro rfl
      exact h ⟨entry, hmem, rfl⟩
    simpa using hne

/-- Since no register has two entries, looking one up finds what is there. -/
theorem find?_eq_some_iff {table : RegisterTable capacity α} {r : Register} {value : α} :
    table.find? r = some value ↔ (r, value) ∈ table.entries := by
  obtain ⟨entries, distinct, length_le⟩ := table
  show entries.lookup r = some value ↔ (r, value) ∈ entries
  clear length_le
  induction entries with
  | nil => simp
  | cons entry rest ih =>
    obtain ⟨s, old⟩ := entry
    obtain ⟨hhead, hrest⟩ := List.nodup_cons.1 distinct
    rw [List.lookup_cons]
    by_cases h : r = s
    · subst h
      have hmem : (r, value) ∉ rest := fun hmem => hhead (List.mem_map.2 ⟨_, hmem, rfl⟩)
      simp [hmem, eq_comm]
    · simp only [beq_false_of_ne h, List.mem_cons, Prod.mk.injEq, h, false_and, false_or]
      exact ih hrest

theorem ext_iff {s t : RegisterTable capacity α} : s = t ↔ s.entries = t.entries := by
  cases s
  cases t
  simp

end RegisterTable

end RegisterMapping
