import RegisterMapping.Proofs.Register.Packing
import RegisterMapping.Register.Order

/-!
# Handles in order

Three descriptions of the order of handles agree. The declarations of classes, registers and handles
give one, in which earlier constructors and earlier fields decide first. `Handle.Precedes` says in
words what comes before what. And the packed forms are ordered as numbers: the fields of a packed
register stand in the order in which registers are compared, and none carries into the one above it
(`Register.packed_lt_packed_iff`), while the word for no register is greater than all of them.

So handles may be sorted by their packed forms, and the sorted list is the only one that has the
same handles in ascending order (`Handle.sort_eq_iff`).
-/

set_option autoImplicit false

namespace RegisterMapping

-- The order in which constructors and fields are declared.
deriving instance Ord for RegisterClass, Register, Handle

/-! ## Classes -/

namespace RegisterClass

/-- The codes of classes ascend in the order in which the classes are declared. -/
theorem ord_eq_compare_code (a b : RegisterClass) :
    Ord.compare a b = Ord.compare a.code b.code := by
  cases a <;> cases b <;> rfl

theorem code_eq_idxOf_add (cls : RegisterClass) : cls.code = all.idxOf cls + 4 := by
  cases cls <;> rfl

end RegisterClass

/-! ## Registers -/

namespace Register

/-- A register comes before another one of a class that is listed later; of one class, before a
virtual one if it is real; and of one class and kind, before one with a greater index. -/
inductive Precedes (a b : Register) : Prop where
  | cls (lt : RegisterClass.all.idxOf a.cls < RegisterClass.all.idxOf b.cls)
  | kind (sameClass : a.cls = b.cls) (real : a.isVirtual = false) (virt : b.isVirtual = true)
  | index (sameClass : a.cls = b.cls) (sameKind : a.isVirtual = b.isVirtual)
      (lt : a.index < b.index)

variable {a b : Register}

/-- The order of registers, with the classes compared by their codes. -/
theorem precedes_iff :
    a.Precedes b ↔
      a.cls.code < b.cls.code ∨ a.cls.code = b.cls.code ∧
        (a.isVirtual = false ∧ b.isVirtual = true ∨
          a.isVirtual = b.isVirtual ∧ a.index < b.index) := by
  have hcode : a.cls.code < b.cls.code ↔
      RegisterClass.all.idxOf a.cls < RegisterClass.all.idxOf b.cls := by
    rw [RegisterClass.code_eq_idxOf_add, RegisterClass.code_eq_idxOf_add, Nat.add_lt_add_iff_right]
  rw [hcode]
  constructor
  · intro h
    cases h with
    | cls lt => exact .inl lt
    | kind sameClass real virt => exact .inr ⟨congrArg _ sameClass, .inl ⟨real, virt⟩⟩
    | index sameClass sameKind lt => exact .inr ⟨congrArg _ sameClass, .inr ⟨sameKind, lt⟩⟩
  · rintro (lt | ⟨hsame, ⟨real, virt⟩ | ⟨sameKind, lt⟩⟩)
    · exact .cls lt
    · exact .kind (RegisterClass.code_injective hsame) real virt
    · exact .index (RegisterClass.code_injective hsame) sameKind lt

theorem compare_eq_lt_iff : a.compare b = .lt ↔ a.Precedes b := by
  have hflags : Ord.compare a.isVirtual b.isVirtual = .lt ↔
      a.isVirtual = false ∧ b.isVirtual = true := by
    cases a.isVirtual <;> cases b.isVirtual <;> decide
  simp only [precedes_iff, compare, compareLex, compareOn, Ordering.then_eq_lt, Nat.compare_eq_lt,
    Std.compare_eq_iff_eq, hflags]

/-- A field of a packed register decides before all fields below it, since those together are less
than its unit. -/
theorem packed_lt_packed_iff : a.packed < b.packed ↔ a.Precedes b := by
  have ha := a.index_lt
  have hb := b.index_lt
  rw [precedes_iff]
  simp only [packed, indexBound_eq, flagUnit_eq, codeUnit_eq] at *
  cases a.isVirtual <;> cases b.isVirtual <;> simp <;> omega

theorem ord_eq_compare (a b : Register) : Ord.compare a b = a.compare b := by
  have hfields : Ord.compare a b = (Ord.compare a.cls b.cls).then
      ((Ord.compare a.isVirtual b.isVirtual).then ((Ord.compare a.index b.index).then .eq)) := rfl
  rw [hfields, RegisterClass.ord_eq_compare_code, Ordering.then_eq]
  rfl

end Register

/-! ## Handles -/

namespace Handle

/-- Handles of registers come in the order of the registers, and all of them before the mark for
none. -/
inductive Precedes : Handle → Handle → Prop where
  | reg {r s : Register} (h : r.Precedes s) : Precedes (reg r) (reg s)
  | invalid (r : Register) : Precedes (reg r) invalid

variable {a b : Handle}

theorem precedes_reg_iff {r s : Register} : Precedes (reg r) (reg s) ↔ r.Precedes s := by
  constructor
  · rintro ⟨h⟩
    exact h
  · exact .reg

theorem not_precedes_of_invalid (b : Handle) : ¬ Precedes invalid b := nofun

theorem compare_eq_lt_iff : a.compare b = .lt ↔ a.Precedes b := by
  cases a with
  | reg r =>
    cases b with
    | reg s => exact Register.compare_eq_lt_iff.trans precedes_reg_iff.symm
    | invalid => exact iff_of_true rfl (.invalid r)
  | invalid => exact iff_of_false (by cases b <;> nofun) (not_precedes_of_invalid b)

/-- The order of handles is that of their packed words. -/
theorem toBits_lt_toBits_iff : a.toBits < b.toBits ↔ a.Precedes b := by
  have hinvalid : (toBits invalid).toNat = 0xFFFFFFFF := rfl
  rw [UInt32.lt_iff_toNat_lt]
  cases a with
  | reg r =>
    rw [toNat_toBits_reg]
    cases b with
    | reg s => rw [toNat_toBits_reg, Register.packed_lt_packed_iff, precedes_reg_iff]
    | invalid => exact iff_of_true r.packed_lt (.invalid r)
  | invalid =>
    -- No word is greater than that for no register.
    refine iff_of_false (Nat.not_lt.2 ?_) (not_precedes_of_invalid b)
    rw [hinvalid]
    exact Nat.le_of_lt_succ (UInt32.toNat_lt_size _)

/-- Handles compare as their packed forms do. -/
theorem compare_eq_compare_toBits (a b : Handle) :
    a.compare b = Ord.compare a.toBits b.toBits := by
  cases h : a.compare b with
  | lt => exact (Std.compare_eq_lt.2 (toBits_lt_toBits_iff.2 (compare_eq_lt_iff.1 h))).symm
  | eq =>
    rw [compare_eq_iff.1 h]
    exact Std.ReflCmp.compare_self.symm
  | gt =>
    have hprecedes := compare_eq_lt_iff.1 (Std.OrientedCmp.lt_of_gt h)
    exact (Std.compare_eq_gt.2 (toBits_lt_toBits_iff.2 hprecedes)).symm

theorem isLE_compare_iff : (a.compare b).isLE = true ↔ a.toBits ≤ b.toBits := by
  rw [compare_eq_compare_toBits, Std.isLE_compare]

theorem isLE_compare_total (a b : Handle) :
    (a.compare b).isLE = true ∨ (b.compare a).isLE = true := by
  rw [isLE_compare_iff, isLE_compare_iff]
  exact UInt32.le_total _ _

theorem eq_of_isLE_compare (hab : (a.compare b).isLE = true) (hba : (b.compare a).isLE = true) :
    a = b :=
  compare_eq_iff.1 (Std.OrientedCmp.isLE_antisymm hab hba)

theorem ord_eq_compare (a b : Handle) : Ord.compare a b = a.compare b := by
  cases a with
  | invalid => cases b <;> rfl
  | reg r =>
    cases b with
    | invalid => rfl
    | reg s =>
      have hregisters : Ord.compare (reg r) (reg s) = (Ord.compare r s).then .eq := rfl
      rw [hregisters, Ordering.then_eq, Register.ord_eq_compare]
      rfl

/-! ## Sorted lists -/

theorem pairwise_sort (handles : List Handle) :
    (sort handles).Pairwise fun a b => a.toBits ≤ b.toBits := by
  have htotal (a b : Handle) : ((a.compare b).isLE || (b.compare a).isLE) = true :=
    Bool.or_eq_true_iff.2 (isLE_compare_total a b)
  have hsorted : (sort handles).Pairwise fun a b => (a.compare b).isLE = true :=
    List.pairwise_mergeSort (fun _ _ _ => Std.TransCmp.isLE_trans) htotal handles
  exact hsorted.imp isLE_compare_iff.1

/-- A list is sorted to the only list of the same handles whose packed forms ascend. -/
theorem sort_eq_iff {handles sorted : List Handle} :
    sort handles = sorted ↔
      sorted.Perm handles ∧ sorted.Pairwise fun a b => a.toBits ≤ b.toBits := by
  have hperm : (sort handles).Perm handles := List.mergeSort_perm _ _
  constructor
  · rintro rfl
    exact ⟨hperm, pairwise_sort handles⟩
  · rintro ⟨hsame, hsorted⟩
    refine List.Perm.eq_of_pairwise ?_ (pairwise_sort handles) hsorted (hperm.trans hsame.symm)
    intro a b _ _ hab hba
    exact eq_of_isLE_compare (isLE_compare_iff.2 hab) (isLE_compare_iff.2 hba)

/-- The packed forms of the sorted handles are the sorted packed forms. -/
theorem map_toBits_sort (handles : List Handle) :
    (sort handles).map toBits = (handles.map toBits).mergeSort fun m n => m ≤ n := by
  refine List.map_mergeSort fun a _ b _ => ?_
  rw [Bool.eq_iff_iff, isLE_compare_iff, decide_eq_true_iff]

/-- The order of handles is that of their packed forms. It is also the order that the declarations
give, and it goes by class, then real before virtual, then by index, with the mark for no register
behind everything. It is total, and handles that compare as equal are the same. Sorting handles is
sorting by packed form: the packed forms of the sorted handles are the sorted packed forms, and no
other list of the same handles has ascending ones. -/
theorem ordered_as_packed :
    (∀ a b : Handle,
        a.compare b = Ord.compare a.toBits b.toBits ∧ Ord.compare a b = a.compare b) ∧
      (∀ a b : Handle, (a.compare b = .lt ↔ a.Precedes b) ∧ (a.compare b = .eq ↔ a = b) ∧
        (a.compare b = .gt ↔ b.Precedes a)) ∧
      (∀ a b : Handle, (a.compare b).isLE = true ∨ (b.compare a).isLE = true) ∧
      (∀ a b : Handle, (a.compare b).isLE = true → (b.compare a).isLE = true → a = b) ∧
      (∀ a b c : Handle, (a.compare b).isLE = true → (b.compare c).isLE = true →
        (a.compare c).isLE = true) ∧
      (∀ a : Handle, (a.compare invalid).isLE = true) ∧
      ∀ handles : List Handle,
        (sort handles).map toBits = (handles.map toBits).mergeSort (fun m n => m ≤ n) ∧
          ∀ sorted, sort handles = sorted ↔
            sorted.Perm handles ∧ sorted.Pairwise fun a b => a.toBits ≤ b.toBits := by
  refine ⟨fun a b => ⟨compare_eq_compare_toBits a b, ord_eq_compare a b⟩,
    fun a b => ⟨compare_eq_lt_iff, compare_eq_iff, ?_⟩, isLE_compare_total,
    fun a b => eq_of_isLE_compare, fun a b c => Std.TransCmp.isLE_trans, fun a => ?_,
    fun handles => ⟨map_toBits_sort handles, fun sorted => sort_eq_iff⟩⟩
  · rw [Std.OrientedCmp.gt_iff_lt, compare_eq_lt_iff]
  · cases a <;> rfl

/-- A virtual register stands behind every real one of its class, and before the next class. -/
example :
    sort [invalid, reg ⟨.int64, false, 0, by decide⟩, reg ⟨.int32, true, 0, by decide⟩,
        reg ⟨.int32, false, 8388607, by decide⟩] =
      [reg ⟨.int32, false, 8388607, by decide⟩, reg ⟨.int32, true, 0, by decide⟩,
        reg ⟨.int64, false, 0, by decide⟩, invalid] := by
  cbv

end Handle

end RegisterMapping
