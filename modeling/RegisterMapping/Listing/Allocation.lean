import RegisterMapping.Register.Order

/-!
# Allocations

An allocation maps handles to handles. It is kept as a list of entries with strictly ascending
keys, so two allocations with the same entries are equal, and listing the entries sorts them.
Inserting a pair for a key that is there replaces the entry: `Allocation.lookup?_insert`.
-/

set_option autoImplicit false

namespace RegisterMapping

/-- The keys of a list of entries ascend strictly. -/
def AscendingKeys (entries : List (Handle × Handle)) : Prop :=
  entries.Pairwise fun a b => Handle.compare a.1 b.1 = .lt

/-- Insert a pair into a list of entries with ascending keys. -/
def insertEntry (key value : Handle) : List (Handle × Handle) → List (Handle × Handle)
  | [] => [(key, value)]
  | entry :: rest =>
    match Handle.compare key entry.1 with
    | .lt => (key, value) :: entry :: rest
    | .eq => (key, value) :: rest
    | .gt => entry :: insertEntry key value rest

theorem mem_insertEntry {key value : Handle} {entries : List (Handle × Handle)}
    {e : Handle × Handle} (h : e ∈ insertEntry key value entries) :
    e = (key, value) ∨ e ∈ entries := by
  induction entries with
  | nil => simpa [insertEntry] using h
  | cons entry rest ih =>
    rw [insertEntry] at h
    split at h
    · simpa using h
    · rcases List.mem_cons.1 h with rfl | hr
      · exact .inl rfl
      · exact .inr (List.mem_cons_of_mem _ hr)
    · rcases List.mem_cons.1 h with rfl | hr
      · exact .inr List.mem_cons_self
      · exact (ih hr).imp id (List.mem_cons_of_mem _)

theorem AscendingKeys.insertEntry {entries : List (Handle × Handle)} (key value : Handle)
    (h : AscendingKeys entries) : AscendingKeys (insertEntry key value entries) := by
  induction entries with
  | nil => simp [RegisterMapping.insertEntry, AscendingKeys]
  | cons entry rest ih =>
    obtain ⟨hhead, htail⟩ := List.pairwise_cons.1 h
    rw [RegisterMapping.insertEntry]
    split
    · next hlt =>
      refine List.pairwise_cons.2 ⟨fun e he => ?_, h⟩
      rcases List.mem_cons.1 he with rfl | hr
      · exact hlt
      · exact Std.TransCmp.lt_trans hlt (hhead e hr)
    · next heq =>
      refine List.pairwise_cons.2 ⟨fun e he => ?_, htail⟩
      rw [Handle.compare_eq_iff.1 heq]
      exact hhead e he
    · next hgt =>
      refine List.pairwise_cons.2 ⟨fun e he => ?_, ih htail⟩
      rcases mem_insertEntry he with rfl | hr
      · exact Std.OrientedCmp.lt_of_gt hgt
      · exact hhead e hr

/-- A finite map from handles to handles. -/
structure Allocation where
  entries : List (Handle × Handle)
  ascending : AscendingKeys entries

namespace Allocation

/-- The map without entries. -/
def empty : Allocation := ⟨[], List.Pairwise.nil⟩

/-- What a handle is mapped to. -/
def lookup? (allocation : Allocation) (key : Handle) : Option Handle :=
  allocation.entries.lookup key

/-- Map a handle to a value, whatever it was mapped to before. -/
def insert (allocation : Allocation) (key value : Handle) : Allocation :=
  ⟨insertEntry key value allocation.entries, allocation.ascending.insertEntry key value⟩

/-- The map of a list of pairs; of several pairs with one key the last counts. -/
def ofPairs (pairs : List (Handle × Handle)) : Allocation :=
  pairs.foldl (fun allocation pair => allocation.insert pair.1 pair.2) empty

theorem ext_iff {a b : Allocation} : a = b ↔ a.entries = b.entries := by
  cases a
  cases b
  simp

@[simp]
theorem lookup?_empty (key : Handle) : empty.lookup? key = none := rfl

theorem lookup_cons_eq_ite (k other old : Handle) (rest : List (Handle × Handle)) :
    List.lookup k ((other, old) :: rest) = if k = other then some old else rest.lookup k := by
  rw [List.lookup_cons]
  by_cases h : k = other
  · simp [h]
  · simp [beq_false_of_ne h, h]

theorem lookup_insertEntry (key value k : Handle) (entries : List (Handle × Handle)) :
    (insertEntry key value entries).lookup k =
      if k = key then some value else entries.lookup k := by
  induction entries with
  | nil => simp [insertEntry]
  | cons entry rest ih =>
    obtain ⟨other, old⟩ := entry
    rw [insertEntry]
    split
    · simp only [lookup_cons_eq_ite]
    · next heq =>
      obtain rfl := Handle.compare_eq_iff.1 heq
      simp only [lookup_cons_eq_ite]
      split <;> rfl
    · next hgt =>
      have hne : key ≠ other := by
        rintro rfl
        rw [Handle.compare_eq_iff.2 rfl] at hgt
        exact Ordering.noConfusion hgt
      simp only [lookup_cons_eq_ite, ih]
      by_cases h : k = other
      · simp [h, hne.symm]
      · simp [h]

theorem lookup?_insert (allocation : Allocation) (key value k : Handle) :
    (allocation.insert key value).lookup? k =
      if k = key then some value else allocation.lookup? k :=
  lookup_insertEntry key value k allocation.entries

end Allocation

end RegisterMapping
