import RegisterMapping.Proofs.Listing.RoundTrip
import RegisterMapping.Proofs.Report.CleanListing

/-!
# Reading a report's instructions again

The instructions that a report ends with, written one to a line, are a text without faults: they
keep the rules for lines, and a text of instructions assigns nothing. Reading that text gives the
same instructions, and since nothing is assigned, a report of it ends with them once more
(`parse_report_insts`).
-/

set_option autoImplicit false

namespace RegisterMapping

namespace Listing

variable {bank? : Option Bank} {insts : List Instr}

theorem ofItems_instrs {placed : List (Item × Span)} (h : placed.map Prod.fst = insts.map .instr) :
    (ofItems placed).instructions = insts ∧ (ofItems placed).assignments = [] := by
  induction placed generalizing insts with
  | nil =>
    obtain rfl := List.map_eq_nil_iff.1 h.symm
    exact ⟨rfl, rfl⟩
  | cons first rest ih =>
    obtain ⟨inst, later, rfl, hfirst, hrest⟩ := List.map_eq_cons_iff.1 h.symm
    obtain ⟨item, span⟩ := first
    obtain rfl : Item.instr inst = item := hfirst
    obtain ⟨hinsts, hassignments⟩ := ih hrest.symm
    rw [ofItems_cons, hassignments]
    refine ⟨?_, rfl⟩
    rw [← hinsts]
    rfl

/-- Instructions that keep the rules are read again from the text that writes them. -/
theorem parse_instrs {draft : Draft} (h : draft.items = insts.map .instr)
    (hrules : ∀ inst ∈ insts, (Item.instr inst).Admissible bank?) (file : Nat) :
    (parse draft.text file bank?).diagnostics = [] ∧
      (parse draft.text file bank?).listing.assignments = [] ∧
      (parse draft.text file bank?).listing.instructions = insts := by
  have hadmissible : ∀ item ∈ draft.items, item.Admissible bank? := by
    rw [h, List.forall_mem_map]
    exact hrules
  -- No register is assigned twice, as none is assigned at all.
  have honce : AssignedOnce [] (draft.placed file 0) := by
    have hnone : assignedRegisters (draft.placed file 0) = [] := by
      rw [Draft.assignedRegisters_placed, h, List.filterMap_map]
      exact List.filterMap_eq_nil_iff.2 fun _ _ => rfl
    rw [AssignedOnce, hnone]
    exact ⟨List.nodup_nil, fun v hv => absurd hv List.not_mem_nil⟩
  have hparse : parse draft.text file bank? = ⟨ofItems (draft.placed file 0), []⟩ := by
    rw [parse, parseLines, linesOf, join_settleLines_eq_clean_iff, Line.map_tokens_split]
    exact ⟨_, Draft.forall₂_says hadmissible file 0, honce, rfl⟩
  obtain ⟨hinsts, hassignments⟩ := ofItems_instrs ((draft.map_fst_placed file 0).trans h)
  rw [hparse]
  exact ⟨rfl, hassignments, hinsts⟩

/-- Without assignments a report ends with the instructions of the listing. -/
theorem Sound.exists_report_of_unassigned {listing : Listing} (h : listing.Sound)
    (hnone : listing.assignments = []) :
    ∃ report, listing.substitutionReport.outcome = .ok report ∧
      report.insts = listing.instructions := by
  obtain ⟨report, hreport, hinsts⟩ := h.exists_report
  refine ⟨report, hreport, ?_⟩
  have hassign : ∀ r : Register, listing.allocation.lookup? (.reg r) = none := by
    intro r
    rw [allocation, hnone]
    rfl
  rw [hinsts, List.map_congr_left, List.map_id]
  intro inst _
  exact Instr.mapOperands_of_fixed fun operand _ =>
    AssignmentFunction.replace_of_none hassign operand

end Listing

/-- A text that parses without a diagnostic has a report. What the report ends with, written one
instruction to a line, parses without a diagnostic under the same bank, to exactly those
instructions and no assignment, and the report of that ends with them again. -/
theorem parse_report_insts (source : String) (file : Nat) (bank? : Option Bank)
    (hclean : (Listing.parse source file bank?).diagnostics = []) :
    ∃ report, (Listing.parse source file bank?).listing.substitutionReport.outcome = .ok report ∧
      ∀ draft : Draft, draft.items = report.insts.map Item.instr → ∀ copy : Nat,
        let again := Listing.parse draft.text copy bank?
        again.diagnostics = [] ∧ again.listing.assignments = [] ∧
          again.listing.instructions = report.insts ∧
          ∃ second, again.listing.substitutionReport.outcome = .ok second ∧
            second.insts = report.insts := by
  obtain ⟨report, hreport, -, hrules⟩ := (Listing.admissible_of_clean hclean).exists_report
  refine ⟨report, hreport, ?_⟩
  intro draft hitems copy
  obtain ⟨hagain, hassignments, hinsts⟩ := Listing.parse_instrs hitems hrules copy
  obtain ⟨second, hsecond, heq⟩ :=
    (sound_parse draft.text copy bank?).exists_report_of_unassigned hassignments
  exact ⟨hagain, hassignments, hinsts, second, hsecond, heq.trans hinsts⟩

/-- One register is assigned and the other stays virtual; the copies of the lines end in another
way than the lines do. -/
theorem parse_report_insts_sample :
    let source := "%vR0 -> %R3\nadd %vR0, %vR1\nret %vR0"
    let bank? := Bank.ofArchitecture? .x86_64
    (Listing.parse source 0 bank?).diagnostics = [] ∧
    ∃ report, (Listing.parse source 0 bank?).listing.substitutionReport.outcome = .ok report ∧
      let again := Listing.parse "add %R3, %vR1\r\nret %R3\n" 1 bank?
      again.diagnostics = [] ∧ again.listing.assignments = [] ∧
        again.listing.instructions = report.insts ∧
        ∃ second, again.listing.substitutionReport.outcome = .ok second ∧
          second.insts = report.insts := by
  intro source bank?
  let kept : Handle := .reg ⟨.int64, true, 1, by decide⟩
  let real : Handle := .reg ⟨.int64, false, 3, by decide⟩
  let first : Instr := .alu .add real kept
  let second : Instr := .ret real
  have hclean : (Listing.parse source 0 bank?).diagnostics = [] := by decide +kernel
  have hinsts : (Listing.parse source 0 bank?).listing.substitutionReport.outcome.map
      SubstitutionReport.insts = .ok [first, second] := by
    decide +kernel
  obtain ⟨report, hreport, hagain⟩ := parse_report_insts source 0 bank? hclean
  rw [hreport] at hinsts
  refine ⟨hclean, report, hreport, hagain
    (.line (.instr first) .crlf (.line (.instr second) .lf .done)) ?_ 1⟩
  rw [Except.ok.inj hinsts]
  rfl

end RegisterMapping
