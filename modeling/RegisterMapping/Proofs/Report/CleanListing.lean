import RegisterMapping.Proofs.Report.Printing

/-!
# Substitution keeps the rules

A text without faults gives a listing whose items keep the rules for lines: the classes of the
operands are as the instructions demand, assignments go from a virtual register to a real one of
its class, and real registers are in the bank (`Listing.Admissible`). Substitution replaces a
register by one of its class that was checked against the bank itself, so the instructions that a
report ends with keep the rules as well (`Listing.Admissible.exists_report`).
-/

set_option autoImplicit false

namespace RegisterMapping

/-! ## Replacing operands -/

namespace Instr

theorem isValid_of_wellTyped {inst : Instr} (h : inst.wellTyped = true) :
    ∀ operand ∈ inst.operands, operand.isValid = true := by
  unfold wellTyped at h
  split at h
  all_goals simp_all [operands, Handle.isValid, Handle.register?]

/-- Registers of the same classes are as good as those that they replace. -/
theorem wellTyped_mapOperands {f : Handle → Handle} {inst : Instr} (h : inst.wellTyped = true)
    (hf : ∀ r : Register, ∃ s : Register, f (.reg r) = .reg s ∧ s.cls = r.cls) :
    (inst.mapOperands f).wellTyped = true := by
  choose g hg hcls using hf
  unfold wellTyped at h
  split at h
  all_goals simp_all [mapOperands, wellTyped]

end Instr

theorem AssignmentFunction.replace_of_none {assign : AssignmentFunction}
    (h : ∀ r : Register, assign (.reg r) = none) (operand : Handle) :
    assign.replace operand = operand := by
  cases operand with
  | invalid => rfl
  | reg r => rw [replace, h, Option.getD_none, ite_self]

/-! ## The instructions of a report -/

/-- The report of a sound listing exists, with an entry for each instruction. -/
theorem Listing.Sound.exists_describing {listing : Listing} (h : listing.Sound) :
    ∃ report, listing.substitutionReport.outcome = .ok report ∧
      List.Forall₂ (SubstitutionEntry.Describes listing.allocation.lookup?)
        listing.instructions report.entries := by
  obtain ⟨entries, hentries, hdescribe⟩ :=
    SubstitutionReport.exists_entriesFrom_describing h.assignable 0
  refine ⟨⟨entries⟩, ?_, hdescribe⟩
  rw [Listing.substitutionReport_eq, hentries]
  rfl

/-- The report of a sound listing ends with the instructions of the listing, their operands replaced
by what the listing assigns. -/
theorem Listing.Sound.exists_report {listing : Listing} (h : listing.Sound) :
    ∃ report, listing.substitutionReport.outcome = .ok report ∧
      report.insts = listing.instructions.map
        (Instr.mapOperands (AssignmentFunction.replace listing.allocation.lookup?)) := by
  obtain ⟨report, hreport, hdescribe⟩ := h.exists_describing
  exact ⟨report, hreport, SubstitutionReport.map_after_of_describes hdescribe⟩

/-- The usage report of a sound listing exists. -/
theorem Listing.Sound.exists_usageReport {listing : Listing} (h : listing.Sound) :
    ∃ report, listing.usageReport.outcome = .ok report := by
  obtain ⟨entries, hentries⟩ := UsageReport.exists_entriesFrom h.operands_valid 0
  refine ⟨⟨entries⟩, ?_⟩
  rw [Listing.usageReport, Traced.outcome_bind_of_ok (Traced.outcome_record _ _),
    Traced.outcome_bind_of_ok hentries]
  rfl

/-! ## Listings that keep the rules -/

/-- Every bank admits a virtual register. -/
theorem Bank.admits_of_isVirtual {bank? : Option Bank} {r : Register} (h : r.isVirtual = true) :
    admits bank? r = true := by
  cases bank? with
  | none => rfl
  | some bank => simp [admits, h]

section Lists

variable {α β : Type} {R : α → β → Prop} {as : List α} {bs : List β}

theorem exists_of_mem_right (h : List.Forall₂ R as bs) {b : β} (hmem : b ∈ bs) :
    ∃ a ∈ as, R a b := by
  induction h with
  | nil => exact absurd hmem List.not_mem_nil
  | cons hfirst _ ih =>
    rcases List.mem_cons.1 hmem with rfl | hrest
    · exact ⟨_, List.mem_cons_self, hfirst⟩
    · obtain ⟨a, ha, hrel⟩ := ih hrest
      exact ⟨a, List.mem_cons_of_mem _ ha, hrel⟩

theorem exists_of_mem_left (h : List.Forall₂ R as bs) {a : α} (hmem : a ∈ as) :
    ∃ b ∈ bs, R a b :=
  exists_of_mem_right h.flip hmem

end Lists

/-- Whatever a listing holds keeps the rules for lines. -/
structure Listing.Admissible (bank? : Option Bank) (listing : Listing) : Prop where
  instructions : ∀ inst ∈ listing.instructions, (Item.instr inst).Admissible bank?
  assignments : ∀ assignment ∈ listing.assignments, ∃ virt real : Register,
    assignment.virt = .reg virt ∧ assignment.real = .reg real ∧
      (Item.assignment virt real).Admissible bank?

namespace Listing

variable {bank? : Option Bank}

theorem exists_mem_of_instructions_ofItems {items : List (Item × Span)} {inst : Instr}
    (h : inst ∈ (ofItems items).instructions) : ∃ span, (.instr inst, span) ∈ items := by
  obtain ⟨⟨other, span⟩, hmem, rfl⟩ := List.mem_map.1 h
  obtain ⟨⟨item, place⟩, hplaced, hitem⟩ := List.mem_filterMap.1 hmem
  cases item with
  | instr said =>
    cases hitem
    exact ⟨_, hplaced⟩
  | assignment virt real => cases hitem

theorem exists_mem_of_assignments_ofItems {items : List (Item × Span)} {assignment : Assignment}
    (h : assignment ∈ (ofItems items).assignments) :
    ∃ virt real span, assignment = ⟨.reg virt, .reg real, span⟩ ∧
      (.assignment virt real, span) ∈ items := by
  obtain ⟨⟨item, span⟩, hplaced, hitem⟩ := List.mem_filterMap.1 h
  cases item with
  | instr said => cases hitem
  | assignment virt real =>
    cases hitem
    exact ⟨virt, real, span, rfl, hplaced⟩

theorem admissible_ofItems {items : List (Item × Span)}
    (h : ∀ placed ∈ items, placed.1.Admissible bank?) : (ofItems items).Admissible bank? where
  instructions := by
    intro inst hmem
    obtain ⟨span, hplaced⟩ := exists_mem_of_instructions_ofItems hmem
    exact h _ hplaced
  assignments := by
    intro assignment hmem
    obtain ⟨virt, real, span, rfl, hplaced⟩ := exists_mem_of_assignments_ofItems hmem
    exact ⟨virt, real, rfl, rfl, h _ hplaced⟩

/-- A text that parses without a diagnostic is made up of lines that say items. -/
theorem exists_items_of_clean {source : String} {file : Nat}
    (h : (parse source file bank?).diagnostics = []) :
    ∃ items, List.Forall₂ (Says bank?) (sentenceLines file source.toList) items ∧
      (parse source file bank?).listing = ofItems items := by
  have hclean : ParsedListing.join (settleLines []
      ((linesOf file source.toList).map (Line.read bank?))) =
      ⟨(parse source file bank?).listing, []⟩ := by
    rw [← h]
    rfl
  obtain ⟨items, hsays, -, hitems⟩ := join_settleLines_eq_clean_iff.1 hclean
  rw [linesOf, Line.map_tokens_split] at hsays
  exact ⟨items, hsays, hitems⟩

/-- The listing of a text that parses without a diagnostic keeps the rules. -/
theorem admissible_of_clean {source : String} {file : Nat}
    (h : (parse source file bank?).diagnostics = []) :
    (parse source file bank?).listing.Admissible bank? := by
  obtain ⟨items, hsays, hitems⟩ := exists_items_of_clean h
  rw [hitems]
  apply admissible_ofItems
  intro placed hmem
  obtain ⟨tokens, -, hsaid⟩ := exists_of_mem_right hsays hmem
  exact hsaid.2.1

namespace Admissible

variable {listing : Listing}

theorem sound (h : listing.Admissible bank?) : listing.Sound where
  operands_valid := by
    intro inst hmem operand hoperand
    exact Instr.isValid_of_wellTyped (h.instructions inst hmem).1 operand hoperand
  assignments_sound := by
    intro assignment hmem
    obtain ⟨virt, real, hvirt, hreal, hrules⟩ := h.assignments assignment hmem
    exact ⟨virt, real, hvirt, hreal, hrules.1⟩

/-- What the listing assigns a register is a real register that the bank admits. -/
theorem of_lookup? (h : listing.Admissible bank?) {r s : Register}
    (hfound : listing.allocation.lookup? (.reg r) = some (.reg s)) :
    s.isReal = true ∧ Bank.admits bank? s = true := by
  obtain ⟨assignment, hmem, hpair⟩ := List.mem_map.1 (Allocation.mem_of_lookup?_ofPairs hfound)
  obtain ⟨virt, real, -, hreal, htyped, hadmits⟩ := h.assignments assignment hmem
  obtain rfl : real = s := Handle.reg.inj (hreal.symm.trans (Prod.mk.inj hpair).2)
  simp only [Item.wellTyped, Bool.and_eq_true] at htyped
  exact ⟨htyped.1.2, hadmits real (List.mem_cons_of_mem _ List.mem_cons_self)⟩

/-- What takes the place of an operand is a real register that the bank admits, or the operand
itself, a virtual register that the listing does not assign. -/
theorem exists_replace (h : listing.Admissible bank?) {inst : Instr}
    (hmem : inst ∈ listing.instructions) {operand : Handle} (hoperand : operand ∈ inst.operands) :
    ∃ s : Register,
      AssignmentFunction.replace listing.allocation.lookup? operand = .reg s ∧
      (s.isReal = true ∧ Bank.admits bank? s = true ∨
        operand = .reg s ∧ s.isVirtual = true ∧
          listing.allocation.lookup? (.reg s) = none) := by
  cases operand with
  | invalid => exact absurd (h.sound.operands_valid inst hmem _ hoperand) Bool.false_ne_true
  | reg r =>
    obtain ⟨s, hs, -, ⟨hvirtual, hfound⟩ | ⟨rfl, hnone⟩⟩ :=
      AssignmentFunction.exists_replace fun _ => h.sound.fits r
    · exact ⟨s, hs, .inl (h.of_lookup? hfound)⟩
    · refine ⟨s, hs, ?_⟩
      cases hvirtual : s.isVirtual with
      | true => exact .inr ⟨rfl, rfl, hnone hvirtual⟩
      | false =>
        have hregister : s ∈ (Item.instr inst).registers :=
          List.mem_filterMap.2 ⟨.reg s, hoperand, rfl⟩
        exact .inl ⟨Register.isReal_iff.2 hvirtual, (h.instructions inst hmem).2 s hregister⟩

/-- Replacing the operands keeps the rules. -/
theorem mapOperands_replace (h : listing.Admissible bank?) {inst : Instr}
    (hmem : inst ∈ listing.instructions) :
    (Item.instr (inst.mapOperands
      (AssignmentFunction.replace listing.allocation.lookup?))).Admissible bank? := by
  obtain ⟨htyped, hadmits⟩ := h.instructions inst hmem
  constructor
  · apply Instr.wellTyped_mapOperands htyped
    intro r
    obtain ⟨s, hs, hcls, -⟩ := AssignmentFunction.exists_replace fun _ => h.sound.fits r
    exact ⟨s, hs, hcls⟩
  · intro s hs
    obtain ⟨after, hafter, hregister⟩ := List.mem_filterMap.1 hs
    rw [Instr.operands_mapOperands] at hafter
    obtain ⟨operand, hoperand, rfl⟩ := List.mem_map.1 hafter
    obtain ⟨t, ht, hreplaced⟩ := h.exists_replace hmem hoperand
    rw [ht] at hregister
    obtain rfl := Option.some.inj hregister
    rcases hreplaced with ⟨-, hadmitted⟩ | ⟨-, hvirtual, -⟩
    · exact hadmitted
    · exact Bank.admits_of_isVirtual hvirtual

/-- The report of a listing that keeps the rules exists and ends with instructions that keep the
rules. -/
theorem exists_report (h : listing.Admissible bank?) :
    ∃ report, listing.substitutionReport.outcome = .ok report ∧
      report.insts = listing.instructions.map
        (Instr.mapOperands (AssignmentFunction.replace listing.allocation.lookup?)) ∧
      ∀ inst ∈ report.insts, (Item.instr inst).Admissible bank? := by
  obtain ⟨report, hreport, hinsts⟩ := h.sound.exists_report
  refine ⟨report, hreport, hinsts, ?_⟩
  rw [hinsts]
  intro inst hmem
  obtain ⟨before, hbefore, rfl⟩ := List.mem_map.1 hmem
  exact h.mapOperands_replace hbefore

end Admissible

end Listing

end RegisterMapping
