import RegisterMapping.Proofs.Report.CleanListing
import RegisterMapping.Proofs.Spelling

/-!
# Registers with names

Under a bank, what a report of a text without faults ends with mentions real registers of the bank,
and those virtual registers that no line of the text assigns. If every virtual register that the
instructions mention is assigned by some line, none is left: no warning is printed, the bank has a
name for every operand, and the text of an instruction with these names has no percent sign
(`report_registers_named`).

That a line assigns a register is said by the grammar alone (`Listing.Assigns`). In a text without
faults it is the same as an entry of the allocation of its listing
(`Listing.assigns_iff_of_clean`).
-/

set_option autoImplicit false

namespace RegisterMapping

/-! ## Assignment lines -/

/-- Some line of the text assigns a register to `r`. -/
def Listing.Assigns (file : Nat) (source : String) (r : Register) : Prop :=
  ∃ tokens ∈ sentenceLines file source.toList, ∃ real, Sentence tokens (.assignment r real)

/-- The tokens of an assignment say nothing else. -/
theorem Sentence.assigned?_eq {tokens : List Token} {r real : Register} {item : Item}
    (h : Sentence tokens (.assignment r real)) (hitem : Sentence tokens item) :
    item.assigned? = some r := by
  cases h with
  | assignment hleft harrow hright =>
    cases hitem with
    | instr hcalls hphrase => cases hleft.1.symm.trans hcalls.1
    | assignment hother harrow' hright' =>
      exact congrArg some (Except.ok.inj (hother.2.symm.trans hleft.2))

namespace Allocation

/-- Nothing is found for a register that is not among the inserted keys. -/
theorem lookup?_foldl_insert_eq_none_iff {pairs : List (Handle × Handle)} {allocation : Allocation}
    {key : Handle} :
    (pairs.foldl (fun allocation pair => allocation.insert pair.1 pair.2) allocation).lookup? key =
        none ↔ (∀ pair ∈ pairs, pair.1 ≠ key) ∧ allocation.lookup? key = none := by
  induction pairs generalizing allocation with
  | nil => simp
  | cons pair rest ih =>
    rw [List.foldl_cons, ih, List.forall_mem_cons, lookup?_insert]
    by_cases hkey : key = pair.1
    · simp [hkey]
    · simp [hkey, Ne.symm hkey]

theorem lookup?_ofPairs_eq_none_iff {pairs : List (Handle × Handle)} {key : Handle} :
    (ofPairs pairs).lookup? key = none ↔ ∀ pair ∈ pairs, pair.1 ≠ key := by
  rw [ofPairs, lookup?_foldl_insert_eq_none_iff]
  exact and_iff_left (lookup?_empty key)

end Allocation

namespace Listing

theorem lookup?_allocation_eq_none_iff {listing : Listing} {r : Register} :
    listing.allocation.lookup? (.reg r) = none ↔ Unassigned listing.assignments r := by
  rw [allocation, Allocation.lookup?_ofPairs_eq_none_iff, List.forall_mem_map]
  rfl

/-- Items that assign nothing to a register leave it unassigned. -/
theorem unassigned_ofItems_iff {items : List (Item × Span)} {r : Register} :
    Unassigned (ofItems items).assignments r ↔
      ∀ placed ∈ items, placed.1.assigned? ≠ some r := by
  constructor
  · intro h placed hplaced hassigned
    obtain ⟨item, span⟩ := placed
    cases item with
    | instr inst => cases hassigned
    | assignment virt real =>
      obtain rfl := Option.some.inj hassigned
      have hmem : (⟨.reg virt, .reg real, span⟩ : Assignment) ∈ (ofItems items).assignments :=
        List.mem_filterMap.2 ⟨_, hplaced, rfl⟩
      exact h _ hmem rfl
  · intro h assignment hmem hvirt
    obtain ⟨virt, real, span, rfl, hplaced⟩ := exists_mem_of_assignments_ofItems hmem
    exact h _ hplaced (congrArg some (Handle.reg.inj hvirt))

/-- The registers that a text without faults assigns are those that its listing knows. -/
theorem assigns_iff_of_clean {bank? : Option Bank} {source : String} {file : Nat} {r : Register}
    (h : (parse source file bank?).diagnostics = []) :
    Assigns file source r ↔ ¬ Unassigned (parse source file bank?).listing.assignments r := by
  obtain ⟨items, hsays, hitems⟩ := exists_items_of_clean h
  rw [hitems]
  constructor
  · intro hline hunassigned
    obtain ⟨tokens, hmem, real, hsentence⟩ := hline
    obtain ⟨placed, hplaced, hsaid⟩ := exists_of_mem_left hsays hmem
    exact unassigned_ofItems_iff.1 hunassigned placed hplaced (hsentence.assigned?_eq hsaid.1)
  · intro hassigned
    obtain ⟨assignment, hmem, hvirt⟩ : ∃ assignment ∈ (ofItems items).assignments,
        assignment.virt = .reg r := by
      by_contra hnone
      exact hassigned fun assignment hmem hvirt => hnone ⟨assignment, hmem, hvirt⟩
    obtain ⟨virt, real, span, rfl, hplaced⟩ := exists_mem_of_assignments_ofItems hmem
    obtain ⟨tokens, htokens, hsaid⟩ := exists_of_mem_right hsays hplaced
    obtain rfl := Handle.reg.inj hvirt
    exact ⟨tokens, htokens, real, hsaid.1⟩

end Listing

/-! ## Reports under a bank -/

/-- Where no operand is virtual, there is nothing to warn of. -/
theorem SubstitutionReport.warningLines_eq_nil {report : SubstitutionReport}
    (h : ∀ inst ∈ report.insts, ∀ operand ∈ inst.operands, operand.holdsVirtual = false)
    (emphasis : Emphasis) : report.warningLines emphasis = [] := by
  have hcount : report.virtualCount = 0 := by
    rw [virtualCount, List.countP_eq_zero]
    intro entry hmem
    have hinst : entry.after ∈ report.insts := List.mem_map.2 ⟨entry, hmem, rfl⟩
    rw [Instr.mentionsVirtual, List.any_eq_true]
    intro hany
    obtain ⟨operand, hoperand, hvirtual⟩ := hany
    rw [h _ hinst operand hoperand] at hvirtual
    cases hvirtual
  rw [warningLines, if_pos hcount]

namespace Listing

variable {bank : Bank} {source : String} {file : Nat}

/-- An operand after the substitution is in the bank, or it is a virtual one of the text that no
line assigns. -/
theorem exists_replace_of_clean (hclean : (parse source file (some bank)).diagnostics = [])
    {inst : Instr} (hmem : inst ∈ (parse source file (some bank)).listing.instructions)
    {operand : Handle} (hoperand : operand ∈ inst.operands) :
    ∃ r : Register,
      AssignmentFunction.replace (parse source file (some bank)).listing.allocation.lookup?
        operand = .reg r ∧
      (r.isReal = true ∧ bank.contains r = true ∨
        operand = .reg r ∧ r.isVirtual = true ∧ ¬ Assigns file source r) := by
  obtain ⟨r, hr, ⟨hreal, hadmitted⟩ | ⟨hsame, hvirtual, hnone⟩⟩ :=
    (admissible_of_clean hclean).exists_replace hmem hoperand
  · refine ⟨r, hr, .inl ⟨hreal, ?_⟩⟩
    rw [Bank.admits, Option.all_some, Bool.or_eq_true] at hadmitted
    rcases hadmitted with hvirtual | hcontained
    · rw [Register.isReal, hvirtual] at hreal
      cases hreal
    · exact hcontained
  · refine ⟨r, hr, .inr ⟨hsame, hvirtual, ?_⟩⟩
    rw [assigns_iff_of_clean hclean, not_not]
    exact lookup?_allocation_eq_none_iff.1 hnone

/-- The report of a text without faults exists, and what it ends with mentions registers of the bank
and, unassigned, virtual registers that the text mentions. -/
theorem exists_report_of_clean (hclean : (parse source file (some bank)).diagnostics = []) :
    ∃ report,
      (parse source file (some bank)).listing.substitutionReport.outcome = .ok report ∧
      ∀ inst ∈ report.insts, ∀ h ∈ inst.operands, ∃ r, h = .reg r ∧
        (r.isReal = true ∧ bank.contains r = true ∨
          r.isVirtual = true ∧ ¬ Assigns file source r ∧
            ∃ before ∈ (parse source file (some bank)).listing.instructions,
              .reg r ∈ before.operands) := by
  obtain ⟨report, hreport, hinsts, -⟩ := (admissible_of_clean hclean).exists_report
  refine ⟨report, hreport, ?_⟩
  intro inst hmem h hoperand
  rw [hinsts] at hmem
  obtain ⟨before, hbefore, rfl⟩ := List.mem_map.1 hmem
  rw [Instr.operands_mapOperands] at hoperand
  obtain ⟨operand, horiginal, rfl⟩ := List.mem_map.1 hoperand
  obtain ⟨r, hr, hkind⟩ := exists_replace_of_clean hclean hbefore horiginal
  refine ⟨r, hr, ?_⟩
  rcases hkind with hreal | ⟨rfl, hvirtual, hunassigned⟩
  · exact .inl hreal
  · exact .inr ⟨hvirtual, hunassigned, before, hbefore, horiginal⟩

end Listing

/-- Under a bank, the report of a text without faults ends with instructions each operand of which
is a real register that the bank contains, or a virtual register that no line of the text assigns.
If the text assigns every virtual register that its instructions mention, then no operand at the end
is virtual, no warning is printed, and each operand has a name in the bank. The instructions are
written with these names and nothing else for their operands, so that their texts have no percent
sign. -/
theorem report_registers_named (bank : Bank) (source : String) (file : Nat)
    (hclean : (Listing.parse source file (some bank)).diagnostics = []) :
    let listing := (Listing.parse source file (some bank)).listing
    ∃ report, listing.substitutionReport.outcome = .ok report ∧
      (∀ inst ∈ report.insts, ∀ h ∈ inst.operands, ∃ r, h = .reg r ∧
        (r.isReal = true ∧ bank.contains r = true ∨
          r.isVirtual = true ∧ ¬ Listing.Assigns file source r)) ∧
      ((∀ inst ∈ listing.instructions, ∀ r, .reg r ∈ inst.operands → r.isVirtual = true →
          Listing.Assigns file source r) →
        (∀ inst ∈ report.insts, ∀ h ∈ inst.operands, h.holdsVirtual = false) ∧
        (∀ emphasis, report.warningLines emphasis = []) ∧
        ∀ inst ∈ report.insts,
          (∀ h ∈ inst.operands, ∃ name, bank.nameOfHandle? h = some name ∧
            Bank.spell (some bank) h = name) ∧
          inst.textIn (some bank) = inst.textWith (fun h => (bank.nameOfHandle? h).getD "") ∧
          '%' ∉ (inst.textIn (some bank)).toList) := by
  intro listing
  obtain ⟨report, hreport, hoperands⟩ := Listing.exists_report_of_clean hclean
  refine ⟨report, hreport, ?_, ?_⟩
  · intro inst hmem h hoperand
    obtain ⟨r, rfl, hreal | ⟨hvirtual, hunassigned, -⟩⟩ := hoperands inst hmem h hoperand
    · exact ⟨r, rfl, .inl hreal⟩
    · exact ⟨r, rfl, .inr ⟨hvirtual, hunassigned⟩⟩
  · intro hassigned
    -- A virtual operand that is left is one of the text, which assigns it.
    have hreal : ∀ inst ∈ report.insts, ∀ h ∈ inst.operands, ∃ r, h = .reg r ∧
        r.isReal = true ∧ bank.contains r = true := by
      intro inst hmem h hoperand
      obtain ⟨r, rfl, hreal | ⟨hvirtual, hunassigned, before, hbefore, horiginal⟩⟩ :=
        hoperands inst hmem h hoperand
      · exact ⟨r, rfl, hreal⟩
      · exact absurd (hassigned before hbefore r horiginal hvirtual) hunassigned
    have hvirtual : ∀ inst ∈ report.insts, ∀ h ∈ inst.operands, h.holdsVirtual = false := by
      intro inst hmem h hoperand
      obtain ⟨r, rfl, hr, -⟩ := hreal inst hmem h hoperand
      rw [Register.isReal, Bool.not_eq_true'] at hr
      exact hr
    refine ⟨hvirtual, SubstitutionReport.warningLines_eq_nil hvirtual, ?_⟩
    intro inst hmem
    apply Instr.named_of_contains
    intro h hoperand
    obtain ⟨r, hr, -, hcontained⟩ := hreal inst hmem h hoperand
    exact ⟨r, hr, hcontained⟩

/-- Every virtual register is assigned, and the report names the real ones. -/
theorem report_registers_named_sample :
    let bank : Bank := ⟨.x86_64, .x86, rfl⟩
    let source := "%vR0 -> %R3\nadd %vR0, %R1\nret %vR0"
    (Listing.parse source 0 (some bank)).diagnostics = [] ∧
    ∃ report,
      (Listing.parse source 0 (some bank)).listing.substitutionReport.outcome = .ok report ∧
      report.insts.map (Instr.textIn (some bank)) = ["add rbx, rcx", "ret rbx"] ∧
      report.warningLines .plain = [] ∧
      ∀ inst ∈ report.insts, '%' ∉ (inst.textIn (some bank)).toList := by
  intro bank source
  let virt : Register := ⟨.int64, true, 0, by decide⟩
  let kept : Register := ⟨.int64, false, 1, by decide⟩
  have hclean : (Listing.parse source 0 (some bank)).diagnostics = [] := by decide +kernel
  have hinsts : (Listing.parse source 0 (some bank)).listing.instructions =
      [.alu .add (.reg virt) (.reg kept), .ret (.reg virt)] := by decide +kernel
  have hvirts : (Listing.parse source 0 (some bank)).listing.assignments.map Assignment.virt =
      [.reg virt] := by decide +kernel
  have htexts : (Listing.parse source 0 (some bank)).listing.substitutionReport.outcome.map
      (fun report => report.insts.map (Instr.textIn (some bank))) =
      .ok ["add rbx, rcx", "ret rbx"] := by decide +kernel
  have hlines : ∀ inst ∈ (Listing.parse source 0 (some bank)).listing.instructions, ∀ r,
      .reg r ∈ inst.operands → r.isVirtual = true → Listing.Assigns 0 source r := by
    intro inst hmem r hr hvirtual
    rw [Listing.assigns_iff_of_clean hclean]
    intro hunassigned
    have hsame : r = virt := by
      have hkept : r ≠ kept := by
        intro h
        rw [h] at hvirtual
        cases hvirtual
      rw [hinsts, List.mem_cons, List.mem_singleton] at hmem
      rcases hmem with rfl | rfl
      · simpa [Instr.operands, hkept] using hr
      · simpa [Instr.operands] using hr
    have hassigned : Handle.reg virt ∈
        (Listing.parse source 0 (some bank)).listing.assignments.map Assignment.virt := by
      rw [hvirts]
      exact List.mem_singleton_self _
    obtain ⟨assignment, hassignment, hvirt⟩ := List.mem_map.1 hassigned
    exact hunassigned assignment hassignment (hvirt.trans (congrArg Handle.reg hsame.symm))
  obtain ⟨report, hreport, -, hnamed⟩ := report_registers_named bank source 0 hclean
  obtain ⟨-, hwarning, hsigils⟩ := hnamed hlines
  rw [hreport] at htexts
  refine ⟨hclean, report, hreport, Except.ok.inj htexts, hwarning .plain, ?_⟩
  intro inst hmem
  exact (hsigils inst hmem).2.2

end RegisterMapping
