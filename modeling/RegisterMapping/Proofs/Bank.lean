import Mathlib.Data.PEquiv
import Mathlib.Data.Set.Card
import RegisterMapping.Proofs.Legibility
import RegisterMapping.Proofs.Spelling

/-!
# The registers of a bank

A bank answers four questions: how many registers a class has, whether a register is one of them,
what it is called, and which one has a given name. The first two are about the length of a list of
names and the others about what stands in it, so they agree only if no name stands there twice
(`Bank.nodup_layout`).

The names can also be kept in a `Directory`, a map that is read both ways and forgets what clashes
with a new entry. If a name were entered twice, it would keep the later index only
(`Directory.ofNames_eq_some_iff`); since no name is, the directory of a class has all of them, each
under its own index, and answers as the list does (`Directory.ofNames_apply`).
-/

set_option autoImplicit false

namespace RegisterMapping

/-! ## Directories -/

/-- A map between indices and names that is read both ways. -/
abbrev Directory := PEquiv Nat String

namespace Directory

/-- Enter a name under an index. What was under the index is forgotten, and so is where the name
was. -/
def insert (d : Directory) (index : Nat) (name : String) : Directory where
  toFun i := if i = index then some name else if d i = some name then none else d i
  invFun n := if n = name then some index else if d.symm n = some index then none else d.symm n
  inv i n := by
    have hentry := d.eq_some_iff (a := i) (b := n)
    by_cases hi : i = index
    · by_cases hn : n = name <;> grind
    · by_cases hn : n = name <;> grind

theorem insert_eq_some_iff {d : Directory} {index i : Nat} {name n : String} :
    d.insert index name i = some n ↔
      i = index ∧ n = name ∨ i ≠ index ∧ n ≠ name ∧ d i = some n := by
  have hinsert : d.insert index name i =
      if i = index then some name else if d i = some name then none else d i := rfl
  rw [hinsert]
  split
  next hi => simp [hi, eq_comm]
  next hi =>
    split
    next hname => grind
    next hname => grind

/-- The names in the order of their indices, entered one after another. -/
def ofNames (names : List String) : Directory :=
  names.zipIdx.foldl (fun d entry => d.insert entry.2 entry.1) ⊥

theorem ofNames_concat (names : List String) (last : String) :
    ofNames (names ++ [last]) = (ofNames names).insert names.length last := by
  simp [ofNames, List.zipIdx_append]

/-- A name is found under the last index that it was entered under. -/
theorem ofNames_eq_some_iff {names : List String} {i : Nat} {n : String} :
    ofNames names i = some n ↔ names[i]? = some n ∧ ∀ j > i, names[j]? ≠ some n := by
  induction names using List.reverseRecOn generalizing i with
  | nil =>
    have hempty : ofNames [] i = none := rfl
    simp [hempty]
  | append_singleton names last ih =>
    rw [ofNames_concat, insert_eq_some_iff, ih]
    have hat (j : Nat) : (names ++ [last])[j]? = some n ↔
        names[j]? = some n ∨ j = names.length ∧ n = last := by grind
    -- The last name is under the last index, so every other index loses it.
    simp only [ne_eq, hat]
    grind

/-- An index loses its name to a later one. -/
example :
    (List.range 3).map (ofNames ["r0", "r1", "r0"]) = [none, some "r1", some "r0"] := by
  decide

/-- Distinct names are found under their places in the list. -/
theorem ofNames_apply {names : List String} (h : names.Nodup) (i : Nat) :
    ofNames names i = names[i]? := by
  refine Option.ext fun n => ofNames_eq_some_iff.trans ⟨And.left, fun hn => ⟨hn, ?_⟩⟩
  rintro j hj hagain
  have hlt := (List.getElem?_eq_some_iff.1 hn).1
  exact Nat.ne_of_lt hj ((List.getElem?_inj hlt h).1 (hn.trans hagain.symm))

/-- How many entries there are. -/
noncomputable def size (d : Directory) : ENat := {i | (d i).isSome = true}.encard

theorem size_ofNames {names : List String} (h : names.Nodup) :
    (ofNames names).size = names.length := by
  have hindices : {i | (ofNames names i).isSome = true} = Finset.range names.length := by
    ext i
    simp [ofNames_apply h]
  rw [size, hindices, Set.encard_coe_eq_coe_finsetCard, Finset.card_range]

end Directory

/-! ## Names of a class -/

namespace RegisterLayout

/-- Numbered names are distinct, since their numbers are. -/
theorem nodup_numbered (stem : String) (count : Nat) (ending : String) :
    (numbered stem count ending).Nodup := by
  refine List.nodup_range.map fun i j heq => ?_
  have hdigits : toString i = toString j :=
    (String.append_right_inj stem).1 ((String.append_left_inj ending).1 heq)
  rw [← decimalValue_toDigits i, ← decimalValue_toDigits j, ← Nat.toList_repr, ← Nat.toList_repr]
  exact congrArg (decimalValue ∘ String.toList) hdigits

end RegisterLayout

namespace Bank

/-- No two registers of a class have the same name. -/
theorem nodup_layout (bank : Bank) (cls : RegisterClass) : (bank.layout cls).Nodup := by
  rcases bank.layout_cases with hlayout | hlayout | hlayout <;> rw [hlayout]
  · cases cls with
    | int32 | int64 => decide
    | flt64 | vec64 | vec128 => exact RegisterLayout.nodup_numbered _ _ _
  · cases cls <;> exact RegisterLayout.nodup_numbered _ _ _
  · cases cls with
    | int32 | vec64 => exact List.nodup_nil
    | int64 | flt64 | vec128 => exact RegisterLayout.nodup_numbered _ _ _

/-! ## Queries -/

variable {bank : Bank} {cls : RegisterClass} {name : String} {r s : Register}

theorem nameOf?_eq_some_iff :
    bank.nameOf? r = some name ↔ r.isReal = true ∧ (bank.layout r.cls)[r.index]? = some name := by
  rw [nameOf?]
  split
  next hreal => simp [hreal]
  next hvirtual => simp [hvirtual]

theorem contains_iff : bank.contains r = true ↔ ∃ name, bank.nameOf? r = some name := by
  rw [← isSome_nameOf?, Option.isSome_iff_exists]

/-- What is looked up by a name is the register of the class that has it. -/
theorem lookup?_eq_some_iff :
    bank.lookup? cls name = some r ↔ r.cls = cls ∧ bank.nameOf? r = some name := by
  have hnodup := bank.nodup_layout cls
  constructor
  · intro h
    rw [lookup?] at h
    split at h
    next hlt =>
      cases h
      refine ⟨rfl, nameOf?_eq_some_iff.2 ⟨rfl, ?_⟩⟩
      exact List.getElem?_idxOf (List.idxOf_lt_length_iff.1 hlt)
    next => cases h
  · rintro ⟨rfl, hname⟩
    obtain ⟨hreal, hindex⟩ := nameOf?_eq_some_iff.1 hname
    obtain ⟨hlt, rfl⟩ := List.getElem?_eq_some_iff.1 hindex
    have hfound := hnodup.idxOf_getElem r.index hlt
    have hcount : (bank.layout r.cls).idxOf (bank.layout r.cls)[r.index] < bank.count r.cls :=
      hfound.symm ▸ hlt
    rw [lookup?, dif_pos hcount, Option.some.injEq, Register.ext_iff]
    exact ⟨rfl, (Register.isReal_iff.1 hreal).symm, hfound⟩

/-- Registers of one class that have the same name are the same. -/
theorem eq_of_nameOf? (hcls : r.cls = s.cls) (hr : bank.nameOf? r = some name)
    (hs : bank.nameOf? s = some name) : r = s := by
  have hfound : bank.lookup? s.cls name = some r := lookup?_eq_some_iff.2 ⟨hcls, hr⟩
  rw [lookup?_eq_some_iff.2 ⟨rfl, hs⟩] at hfound
  exact (Option.some.inj hfound).symm

/-- A bank holds as many registers of a class as it counts. -/
theorem encard_contains (bank : Bank) (cls : RegisterClass) :
    {r : Register | r.cls = cls ∧ r.isReal = true ∧ bank.contains r = true}.encard =
      bank.count cls := by
  have hbound (i : Fin (bank.count cls)) : i.val < Register.indexBound :=
    Nat.lt_trans i.isLt (bank.count_lt_indexBound cls)
  -- There is one register for each index below the count.
  have hrange : {r : Register | r.cls = cls ∧ r.isReal = true ∧ bank.contains r = true} =
      Set.range fun i : Fin (bank.count cls) => (⟨cls, false, i.val, hbound i⟩ : Register) := by
    ext r
    constructor
    · rintro ⟨rfl, hreal, hcontains⟩
      have hlt := of_decide_eq_true (Bool.and_eq_true_iff.1 hcontains).2
      have hkind := Register.isReal_iff.1 hreal
      exact ⟨⟨r.index, hlt⟩, Register.ext_iff.2 ⟨rfl, hkind.symm, rfl⟩⟩
    · rintro ⟨i, rfl⟩
      exact ⟨rfl, rfl, Bool.and_eq_true_iff.2 ⟨rfl, decide_eq_true i.isLt⟩⟩
  have hinjective : Function.Injective
      fun i : Fin (bank.count cls) => (⟨cls, false, i.val, hbound i⟩ : Register) :=
    fun i j h => Fin.ext (Register.ext_iff.1 h).2.2
  rw [hrange, ← Set.image_univ, hinjective.encard_image]
  simp

/-! ## Spelling -/

theorem spell_of_no_name (h : bank.nameOf? r = none) : spell (some bank) (.reg r) = r.text := by
  have hhandle : bank.nameOfHandle? (.reg r) = none := h
  rw [spell, Option.bind_some, hhandle, Option.getD_none, Handle.text]

/-- No name looks like the text form of a register. -/
theorem ne_text_of_name (h : bank.nameOf? r = some name) (s : Register) : name ≠ s.text := by
  rintro rfl
  refine not_mem_of_mem_names (c := '%') (by decide) (mem_names_of_nameOf? h) ?_
  rw [s.toList_text]
  exact List.mem_cons_self

/-- Registers of one class are spelled differently, whether the bank names them or not. -/
theorem eq_of_spell (hcls : r.cls = s.cls)
    (h : spell (some bank) (.reg r) = spell (some bank) (.reg s)) : r = s := by
  cases hr : bank.nameOf? r with
  | some m =>
    rw [spell_of_name hr] at h
    cases hs : bank.nameOf? s with
    | some n =>
      rw [spell_of_name hs] at h
      exact eq_of_nameOf? hcls hr (h ▸ hs)
    -- The text form starts with a sign that no name has.
    | none =>
      rw [spell_of_no_name hs] at h
      exact absurd h (ne_text_of_name hr s)
  | none =>
    rw [spell_of_no_name hr] at h
    cases hs : bank.nameOf? s with
    | some n =>
      rw [spell_of_name hs] at h
      exact absurd h.symm (ne_text_of_name hs r)
    | none =>
      rw [spell_of_no_name hs] at h
      exact Handle.reg.inj (Handle.text_injective h)

/-! ## A bank as directories -/

/-- The names of a class, entered one after another. -/
def directory (bank : Bank) (cls : RegisterClass) : Directory := .ofNames (bank.layout cls)

theorem directory_apply (bank : Bank) (cls : RegisterClass) (i : Nat) :
    bank.directory cls i = (bank.layout cls)[i]? :=
  Directory.ofNames_apply (bank.nodup_layout cls) i

theorem map_index_lookup? (bank : Bank) (cls : RegisterClass) (name : String) :
    (bank.lookup? cls name).map Register.index = (bank.directory cls).symm name := by
  refine Option.ext fun i => ?_
  rw [PEquiv.eq_some_iff, directory_apply, Option.map_eq_some_iff]
  constructor
  · rintro ⟨r, hfound, rfl⟩
    obtain ⟨rfl, hname⟩ := lookup?_eq_some_iff.1 hfound
    exact (nameOf?_eq_some_iff.1 hname).2
  · intro hname
    have hlt : i < bank.count cls := (List.getElem?_eq_some_iff.1 hname).1
    refine ⟨⟨cls, false, i, Nat.lt_trans hlt (bank.count_lt_indexBound cls)⟩, ?_, rfl⟩
    exact lookup?_eq_some_iff.2 ⟨rfl, nameOf?_eq_some_iff.2 ⟨rfl, hname⟩⟩

/-- The questions that a bank answers fit together. It contains exactly the handles that it can
name. Looking up a name in a class finds the register of that class with this name and no other, so
no two registers of a class have the same name. The count of a class is the number of its real
registers that the bank contains. And registers of one class, virtual or real, in the bank or not,
are spelled differently. All this is read off directories: the count is the number of entries, and
names and registers are found in the one direction and in the other. -/
theorem queries_agree (bank : Bank) :
    (∀ h : Handle, bank.containsHandle h = true ↔ ∃ name, bank.nameOfHandle? h = some name) ∧
      (∀ (cls : RegisterClass) (name : String) (h : Handle),
        (bank.lookup? cls name).map Handle.reg = some h ↔
          h.cls = .ok cls ∧ bank.nameOfHandle? h = some name) ∧
      (∀ (r s : Register) (name : String), r.cls = s.cls → bank.nameOf? r = some name →
        bank.nameOf? s = some name → r = s) ∧
      (∀ cls : RegisterClass,
        {r : Register | r.cls = cls ∧ r.isReal = true ∧ bank.contains r = true}.encard =
          bank.count cls) ∧
      (∀ r s : Register, r.cls = s.cls →
        spell (some bank) (.reg r) = spell (some bank) (.reg s) → r = s) ∧
      ∀ cls : RegisterClass,
        (bank.directory cls).size = bank.count cls ∧
          (∀ r : Register, r.cls = cls →
            bank.nameOf? r = if r.isReal then bank.directory cls r.index else none) ∧
          ∀ name : String,
            (bank.lookup? cls name).map Register.index = (bank.directory cls).symm name := by
  refine ⟨fun h => ?_, fun cls name h => ?_, fun r s name => eq_of_nameOf?, bank.encard_contains,
    fun r s => eq_of_spell, fun cls => ⟨?_, ?_, bank.map_index_lookup? cls⟩⟩
  · cases h with
    | reg r => exact contains_iff
    | invalid => simp [containsHandle, nameOfHandle?, Handle.register?]
  · cases h with
    | reg r => simp [lookup?_eq_some_iff, Handle.cls, Handle.project, nameOfHandle?,
        Handle.register?]
    | invalid => simp [nameOfHandle?, Handle.register?]
  · exact Directory.size_ofNames (bank.nodup_layout cls)
  · rintro r rfl
    rw [directory_apply, nameOf?]

end Bank

end RegisterMapping
