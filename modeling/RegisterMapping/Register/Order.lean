import RegisterMapping.Register.Basic

/-!
# The order of handles

Registers are compared by class, then real before virtual, then by index. The invalid handle is
greater than every register. `Handle.compare` is a transitive comparison whose equality is
equality of handles (`Handle.compare_eq_iff`).
-/

set_option autoImplicit false

namespace RegisterMapping

namespace Register

/-- Compare two registers by class, virtual flag and index, in this order. -/
def compare : Register → Register → Ordering :=
  compareLex (compareOn fun r => r.cls.code)
    (compareLex (compareOn Register.isVirtual) (compareOn Register.index))

instance : Std.TransCmp Register.compare :=
  inferInstanceAs (Std.TransCmp (compareLex _ _))

theorem compare_eq_iff {a b : Register} : a.compare b = .eq ↔ a = b := by
  constructor
  · intro h
    simp only [Register.compare, compareLex_eq_eq, compareOn, Std.LawfulEqCmp.compare_eq_iff_eq]
      at h
    exact Register.ext_iff.2 ⟨RegisterClass.code_injective h.1, h.2.1, h.2.2⟩
  · rintro rfl
    exact Std.ReflCmp.compare_self

end Register

namespace Handle

/-- Compare two handles; the invalid one comes last. -/
def compare : Handle → Handle → Ordering
  | reg a, reg b => a.compare b
  | reg _, invalid => .lt
  | invalid, reg _ => .gt
  | invalid, invalid => .eq

theorem compare_eq_iff {a b : Handle} : a.compare b = .eq ↔ a = b := by
  cases a <;> cases b <;> simp [compare, Register.compare_eq_iff]

instance : Std.TransCmp Handle.compare where
  eq_swap {a b} := by
    cases a <;> cases b <;> simp [compare]
    exact Std.OrientedCmp.eq_swap
  isLE_trans {a b c} := by
    cases a <;> cases b <;> cases c <;> simp [compare]
    exact Std.TransCmp.isLE_trans

/-- Sort handles in ascending order. -/
def sort (handles : List Handle) : List Handle :=
  handles.mergeSort fun a b => (a.compare b).isLE

end Handle

end RegisterMapping
