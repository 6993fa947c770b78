import RegisterMapping.Proofs.Report
import RegisterMapping.Proofs.Spelling
import RegisterMapping.Report.Text

/-!
# Printing while substituting

The substitution report once more, as one pass that writes each line as soon as it is known. The
pass builds the replacement table of an instruction, writes the instruction and the table, replaces
the operands, writes the outcome, asks every operand whether it is virtual, and only then keeps the
instruction. It has what the report leaves out: names are looked up handle by handle, and each
question that a handle without a register cannot answer may end the pass (`PrintFailure.missing`).

No such question does end it. The pass writes the lines and makes the records of the report
(`printSubstitution_of_ok`, `printSubstitution_of_error`), and it returns what the substitution in
the instructions alone returns, or stops where that stops (`printSubstitution_agrees`).
-/

set_option autoImplicit false

namespace RegisterMapping

/-! ## The pass -/

/-- What would end the pass: an instruction that cannot be processed, or an attribute that was asked
of a handle without a register. -/
inductive PrintFailure where
  | stopped (failure : ProgramFailure UsageError)
  | missing (index : Nat) (cause : MissingAttribute)
  deriving DecidableEq

namespace PrintFailure

/-- The position of the instruction at which the pass ended. -/
def index : PrintFailure → Nat
  | stopped failure => failure.index
  | missing index _ => index

/-- What is said at the end of the pass. -/
def message : PrintFailure → String
  | stopped failure => failure.cause.message
  | missing _ cause => cause.message

end PrintFailure

/-- What the pass has done so far: the lines that are written, the instructions that are kept, how
many of them mention a virtual register, and the records. -/
structure Printing where
  lines : List String
  insts : List Instr
  unassigned : Nat
  log : List LogRecord

/-- Nothing is done so far. -/
def Printing.start : Printing := ⟨[], [], 0, []⟩

/-- A part of the pass. What was done before a failure stays done. -/
abbrev Printer := EStateM PrintFailure Printing

/-- How a handle is spelled, with every attribute asked of the handle. -/
def Bank.askSpelling (bank? : Option Bank) (h : Handle) : Except MissingAttribute String :=
  match bank? with
  | some bank => do
    let name? ← bank.askName? h
    return name?.getD h.text
  | none => .ok h.text

/-- The text of an instruction, from the spellings that were asked of its operands. -/
def Instr.askText (bank? : Option Bank) (inst : Instr) : Except MissingAttribute String := do
  let spellings ← inst.operands.mapM fun h => do
    let spelling ← Bank.askSpelling bank? h
    return (h, spelling)
  return inst.textWith fun h => (spellings.lookup h).getD h.text

/-- The mark of a copy of a register to itself. -/
def Instr.copyMark (inst : Instr) : String :=
  match inst.move? with
  | some (src, dst) => if src = dst then " (redundant move)" else ""
  | none => ""

namespace Printer

/-- Carry out a computation that makes records. Its failure ends the pass. -/
def carryOut {ε α : Type} (failure : ε → PrintFailure) (x : Traced ε α) : Printer α := do
  modify fun printing => { printing with log := printing.log ++ x.log }
  match x.outcome with
  | .ok a => return a
  | .error e => throw (failure e)

/-- Ask for an attribute at the instruction with a position. -/
def ask {α : Type} (index : Nat) : Except MissingAttribute α → Printer α
  | .ok a => return a
  | .error cause => throw (.missing index cause)

/-- Write a line. -/
def writeLine (line : String) : Printer Unit :=
  modify fun printing => { printing with lines := printing.lines ++ [line] }

/-- Keep an instruction, and count it if it mentions a virtual register. -/
def keep (inst : Instr) (mentionsVirtual : Bool) : Printer Unit :=
  modify fun printing => { printing with
    insts := printing.insts ++ [inst]
    unassigned := if mentionsVirtual then printing.unassigned + 1 else printing.unassigned }

/-- Substitute in the instruction with a position. -/
def printInstruction (bank? : Option Bank) (assign : AssignmentFunction) (index : Nat)
    (inst : Instr) : Printer Unit := do
  let remap ← carryOut (fun cause => .stopped ⟨index, cause⟩) (remapFor inst assign)
  let before ← ask index (inst.askText bank?)
  writeLine (Report.instructionLine index before)
  writeLine (Report.detailLine ("remap " ++ remap.text))
  let replaced := TargetInstruction.substitute remap inst
  carryOut PrintFailure.stopped (Traced.record .trace s!"{index}: rewritten to {replaced.text}")
  let after ← ask index (replaced.askText bank?)
  writeLine (Report.detailLine ("=> " ++ after ++ replaced.copyMark))
  let mentionsVirtual ← ask index (replaced.operands.anyM Handle.isVirtual)
  keep replaced mentionsVirtual

/-- Substitute in the instructions from position `index` on. -/
def printFrom (bank? : Option Bank) (assign : AssignmentFunction) (index : Nat) :
    List Instr → Printer Unit
  | [] => return
  | inst :: rest => do
    printInstruction bank? assign index inst
    printFrom bank? assign (index + 1) rest

/-- Warn of the instructions that were counted, if there are any. -/
def printWarning (emphasis : Emphasis) : Printer Unit := do
  let printing ← get
  if printing.unassigned > 0 then
    writeLine (emphasis.yellow "warning" ++ ": " ++ toString printing.unassigned ++
      " instructions still mention virtual registers")

end Printer

/-- Substitute in the instructions of a listing under its own assignments, and print each step. -/
def Listing.printSubstitution (emphasis : Emphasis) (bank? : Option Bank) (listing : Listing) :
    Printer (List Instr) := do
  Printer.carryOut PrintFailure.stopped
    (Traced.record .info s!"reporting rewrite of {listing.insts.length} instructions")
  Printer.writeLine (emphasis.bold "rewrite")
  Printer.printFrom bank? listing.allocation.lookup? 0 listing.instructions
  Printer.printWarning emphasis
  let printing ← get
  return printing.insts

/-! ## What is asked of handles -/

theorem Bank.askSpelling_eq (bank? : Option Bank) (h : Handle) :
    askSpelling bank? h = .ok (spell bank? h) := by
  cases bank? with
  | none => rfl
  | some bank =>
    rw [askSpelling, bank.askName?_eq]
    rfl

/-- What was asked of a handle is found again. -/
theorem lookup_map_spelling {f : Handle → String} {handles : List Handle} {h : Handle}
    (hmem : h ∈ handles) : (handles.map fun h => (h, f h)).lookup h = some (f h) := by
  induction handles with
  | nil => exact absurd hmem List.not_mem_nil
  | cons first rest ih =>
    rw [List.map_cons, List.lookup_cons]
    by_cases hfirst : h = first
    · rw [hfirst, beq_self_eq_true]
    · rw [beq_false_of_ne hfirst]
      exact ih ((List.mem_cons.1 hmem).resolve_left hfirst)

/-- Every question about the operands is answered, so the text is the one that names them. -/
theorem Instr.askText_eq (bank? : Option Bank) (inst : Instr) :
    inst.askText bank? = .ok (inst.textIn bank?) := by
  have hspellings : (inst.operands.mapM fun h => do
      let spelling ← Bank.askSpelling bank? h
      return (h, spelling) : Except MissingAttribute (List (Handle × String))) =
      .ok (inst.operands.map fun h => (h, Bank.spell bank? h)) := by
    simp only [Bank.askSpelling_eq]
    exact List.mapM_pure
  rw [askText, hspellings]
  show Except.ok (inst.textWith _) = .ok (inst.textWith _)
  rw [textWith_congr]
  intro operand hmem
  rw [lookup_map_spelling hmem]
  rfl

/-- The copies that the pass marks are the ones that the report marks. -/
theorem SubstitutionEntry.copyMark_after (entry : SubstitutionEntry) :
    entry.after.copyMark = if entry.isRedundantMove then " (redundant move)" else "" := by
  rw [Instr.copyMark, isRedundantMove]
  cases entry.after.move? with
  | none => rfl
  | some ends => simp only [decide_eq_true_eq]

/-! ## Parts of the pass -/

namespace Printer

variable {ε α β : Type} {printing : Printing}

theorem bind_apply_of_ok {x : Printer α} {a : α} {next : Printing} (h : x printing = .ok a next)
    (f : α → Printer β) : (x >>= f) printing = f a next := by
  show EStateM.bind x f printing = _
  rw [EStateM.bind, h]

theorem bind_apply_of_error {x : Printer α} {failure : PrintFailure} {next : Printing}
    (h : x printing = .error failure next) (f : α → Printer β) :
    (x >>= f) printing = .error failure next := by
  show EStateM.bind x f printing = _
  rw [EStateM.bind, h]

theorem carryOut_of_ok {x : Traced ε α} {a : α} (h : x.outcome = .ok a)
    (failure : ε → PrintFailure) (printing : Printing) :
    carryOut failure x printing = .ok a { printing with log := printing.log ++ x.log } := by
  rw [carryOut, h]
  rfl

theorem carryOut_of_error {x : Traced ε α} {e : ε} (h : x.outcome = .error e)
    (failure : ε → PrintFailure) (printing : Printing) :
    carryOut failure x printing =
      .error (failure e) { printing with log := printing.log ++ x.log } := by
  rw [carryOut, h]
  rfl

end Printer

/-! ## The pass and the report -/

section Outcomes

variable {ε α β : Type} {f : α → β} {x : Except ε α}

theorem exists_of_map_eq_ok {b : β} (h : x.map f = .ok b) : ∃ a, x = .ok a ∧ f a = b := by
  cases x with
  | error e => cases h
  | ok a => exact ⟨a, rfl, Except.ok.inj h⟩

theorem eq_error_of_map_eq_error {e : ε} (h : x.map f = .error e) : x = .error e := by
  cases x with
  | error other => exact congrArg Except.error (Except.error.inj h)
  | ok a => cases h

end Outcomes

/-- What is done once the instructions of some entries are through, the first at position `index`,
and the records `log` are made. -/
def Printing.extend (bank? : Option Bank) (index : Nat) (entries : List SubstitutionEntry)
    (log : List LogRecord) (printing : Printing) : Printing where
  lines := printing.lines ++ (entries.zipIdx index).flatMap fun (entry, index) =>
    SubstitutionReport.entryLines bank? index entry
  insts := printing.insts ++ entries.map SubstitutionEntry.after
  unassigned := printing.unassigned + entries.countP fun entry => entry.after.mentionsVirtual
  log := printing.log ++ log

namespace Printing

variable {bank? : Option Bank} {index : Nat}

@[simp]
theorem extend_nil (printing : Printing) : printing.extend bank? index [] [] = printing := by
  cases printing
  simp [extend]

theorem extend_extend (entry : SubstitutionEntry) (rest : List SubstitutionEntry)
    (log later : List LogRecord) (printing : Printing) :
    (printing.extend bank? index [entry] log).extend bank? (index + 1) rest later =
      printing.extend bank? index (entry :: rest) (log ++ later) := by
  have hcount (mark : SubstitutionEntry → Bool) :
      printing.unassigned + [entry].countP mark + rest.countP mark =
        printing.unassigned + (entry :: rest).countP mark := by
    rw [Nat.add_assoc, ← List.countP_append, List.singleton_append]
  simp only [extend, hcount]
  simp

end Printing

/-- Replacing registers does not leave a handle without one. -/
@[simp]
theorem Remap.isValid_apply (remap : Remap) (h : Handle) :
    (remap.apply h).isValid = h.isValid := by
  cases h with
  | invalid => rfl
  | reg r =>
    rw [apply]
    split
    · rfl
    · rfl

/-- Where a replacement table can be built, the operands hold registers. -/
theorem Instr.operands_valid_of_remapFor {assign : AssignmentFunction} {inst : Instr}
    {remap : Remap} (h : (remapFor inst assign).outcome = .ok remap) :
    ∀ operand ∈ inst.operands, operand.isValid = true := by
  have hassignable : inst.Assignable assign := by
    by_contra hbad
    obtain ⟨cause, hcause⟩ := exists_remapFor_error_of_not_assignable hbad
    cases h.symm.trans hcause
  exact (assignable_iff.1 hassignable).1

namespace Printer

/-- The pass gets through an instruction that has a replacement table, and it does what the entry of
the instruction says. -/
theorem printInstruction_of_ok {bank? : Option Bank} {assign : AssignmentFunction} {inst : Instr}
    {remap : Remap} (h : (remapFor inst assign).outcome = .ok remap) (index : Nat)
    (printing : Printing) :
    printInstruction bank? assign index inst printing =
      .ok () (printing.extend bank? index [⟨inst, remap, TargetInstruction.substitute remap inst⟩]
        ((remapFor inst assign).log ++ [SubstitutionReport.entryLog index remap inst])) := by
  have hvalid : ∀ operand ∈ (TargetInstruction.substitute remap inst).operands,
      operand.isValid = true := by
    intro operand hmem
    rw [show TargetInstruction.substitute remap inst = inst.mapOperands remap.apply from rfl,
      Instr.operands_mapOperands] at hmem
    obtain ⟨before, hbefore, rfl⟩ := List.mem_map.1 hmem
    rw [Remap.isValid_apply]
    exact Instr.operands_valid_of_remapFor h before hbefore
  rw [printInstruction, bind_apply_of_ok (carryOut_of_ok h _ _)]
  simp only [Instr.askText_eq, anyM_isVirtual_of_valid hvalid]
  have hcount : (if (TargetInstruction.substitute remap inst).mentionsVirtual
      then printing.unassigned + 1 else printing.unassigned) = printing.unassigned +
        [SubstitutionEntry.mk inst remap (TargetInstruction.substitute remap inst)].countP
          fun entry => entry.after.mentionsVirtual := by
    rw [List.countP_singleton]
    split
    · rfl
    · rfl
  -- All questions being answered, what is left is to compare the two states part by part.
  show EStateM.Result.ok () (Printing.mk _ _ _ _) = _
  rw [SubstitutionEntry.copyMark_after
    ⟨inst, remap, TargetInstruction.substitute remap inst⟩]
  simp only [Printing.extend, SubstitutionReport.entryLines, SubstitutionReport.entryLog, ← hcount]
  simp [Instr.mentionsVirtual]

/-- The pass gets through if the report exists, and it does what the entries say. -/
theorem printFrom_of_ok {bank? : Option Bank} {assign : AssignmentFunction} {index : Nat}
    {insts : List Instr} {entries : List SubstitutionEntry}
    (h : (SubstitutionReport.entriesFrom assign index insts).outcome = .ok entries)
    (printing : Printing) :
    printFrom bank? assign index insts printing =
      .ok () (printing.extend bank? index entries
        (SubstitutionReport.entriesFrom assign index insts).log) := by
  induction insts generalizing index entries printing with
  | nil =>
    obtain rfl := Except.ok.inj h
    exact congrArg (EStateM.Result.ok ()) printing.extend_nil.symm
  | cons inst rest ih =>
    cases hremap : (remapFor inst assign).outcome with
    | error cause =>
      rw [SubstitutionReport.entriesFrom_cons_of_error hremap] at h
      cases h
    | ok remap =>
      rw [SubstitutionReport.entriesFrom_cons_of_ok hremap] at h ⊢
      obtain ⟨later, hlater, rfl⟩ := exists_of_map_eq_ok h
      rw [printFrom, bind_apply_of_ok (printInstruction_of_ok hremap index printing), ih hlater,
        Printing.extend_extend]

/-- The pass ends at the instruction at which the report ends, with the same records. -/
theorem printFrom_of_error {bank? : Option Bank} {assign : AssignmentFunction} {index : Nat}
    {insts : List Instr} {failure : ProgramFailure UsageError}
    (h : (SubstitutionReport.entriesFrom assign index insts).outcome = .error failure)
    (printing : Printing) :
    ∃ stopped : Printing,
      printFrom bank? assign index insts printing = .error (.stopped failure) stopped ∧
      stopped.log = printing.log ++ (SubstitutionReport.entriesFrom assign index insts).log := by
  induction insts generalizing index printing with
  | nil => cases h
  | cons inst rest ih =>
    cases hremap : (remapFor inst assign).outcome with
    | error cause =>
      rw [SubstitutionReport.entriesFrom_cons_of_error hremap] at h ⊢
      obtain rfl := Except.error.inj h
      refine ⟨{ printing with log := printing.log ++ (remapFor inst assign).log }, ?_, rfl⟩
      rw [printFrom, printInstruction]
      apply bind_apply_of_error
      apply bind_apply_of_error
      exact carryOut_of_error hremap _ printing
    | ok remap =>
      rw [SubstitutionReport.entriesFrom_cons_of_ok hremap] at h ⊢
      obtain ⟨stopped, hstopped, hlog⟩ := ih (eq_error_of_map_eq_error h)
        (printing.extend bank? index [⟨inst, remap, TargetInstruction.substitute remap inst⟩]
          ((remapFor inst assign).log ++ [SubstitutionReport.entryLog index remap inst]))
      refine ⟨stopped, ?_, ?_⟩
      · rw [printFrom, bind_apply_of_ok (printInstruction_of_ok hremap index printing), hstopped]
      · rw [hlog, Printing.extend]
        simp only [List.append_assoc]

end Printer

/-- The warning of the pass is the one of a report with as many instructions counted. -/
theorem Printer.printWarning_eq {report : SubstitutionReport} {printing : Printing}
    (h : printing.unassigned = report.virtualCount) (emphasis : Emphasis) :
    printWarning emphasis printing =
      .ok () { printing with lines := printing.lines ++ report.warningLines emphasis } := by
  show (if printing.unassigned > 0 then _ else _ : Printer Unit) printing = _
  rw [SubstitutionReport.warningLines, ← h]
  by_cases hzero : printing.unassigned = 0
  · rw [if_neg (by omega), if_pos hzero, List.append_nil]
    rfl
  · rw [if_pos (by omega), if_neg hzero]
    rfl

namespace Listing

variable {listing : Listing}

/-- The record at the start of a report. -/
def reportStart (listing : Listing) : LogRecord :=
  ⟨.info, s!"reporting rewrite of {listing.insts.length} instructions"⟩

theorem substitutionReport_eq (listing : Listing) :
    listing.substitutionReport =
      ⟨listing.reportStart ::
          (SubstitutionReport.entriesFrom listing.allocation.lookup? 0 listing.instructions).log,
        (SubstitutionReport.entriesFrom listing.allocation.lookup? 0
          listing.instructions).outcome.map SubstitutionReport.mk⟩ := by
  rw [substitutionReport, Traced.ext_iff, Traced.log_bind, Traced.outcome_bind,
    Traced.outcome_record]
  dsimp only [Except.bind]
  rw [Traced.log_bind, Traced.outcome_bind]
  cases (SubstitutionReport.entriesFrom listing.allocation.lookup? 0
    listing.instructions).outcome with
  | error failure => exact ⟨rfl, rfl⟩
  | ok entries => exact ⟨by simp [reportStart], rfl⟩

/-- The pass writes a header, goes through the instructions and warns at the end. -/
theorem printSubstitution_eq (listing : Listing) (emphasis : Emphasis) (bank? : Option Bank) :
    listing.printSubstitution emphasis bank? .start =
      (do
        Printer.printFrom bank? listing.allocation.lookup? 0 listing.instructions
        Printer.printWarning emphasis
        let printing ← get
        return printing.insts : Printer (List Instr))
        ⟨[emphasis.bold "rewrite"], [], 0, [listing.reportStart]⟩ := rfl

/-- Where the report exists, the pass returns its instructions, and it has written the lines of the
report and made its records. -/
theorem printSubstitution_of_ok {report : SubstitutionReport}
    (h : listing.substitutionReport.outcome = .ok report) (emphasis : Emphasis)
    (bank? : Option Bank) :
    listing.printSubstitution emphasis bank? .start =
      .ok report.insts ⟨report.lines emphasis bank?, report.insts, report.virtualCount,
        listing.substitutionReport.log⟩ := by
  rw [substitutionReport_eq] at h ⊢
  obtain ⟨entries, hentries, rfl⟩ := exists_of_map_eq_ok h
  have hcount : 0 + entries.countP (fun entry => entry.after.mentionsVirtual) =
      SubstitutionReport.virtualCount ⟨entries⟩ := Nat.zero_add _
  rw [printSubstitution_eq, Printer.bind_apply_of_ok (Printer.printFrom_of_ok hentries _),
    Printer.bind_apply_of_ok (Printer.printWarning_eq hcount _), ← hcount]
  rfl

/-- Where the report does not exist, the pass ends with what the report ends with. -/
theorem printSubstitution_of_error {failure : ProgramFailure UsageError}
    (h : listing.substitutionReport.outcome = .error failure) (emphasis : Emphasis)
    (bank? : Option Bank) :
    ∃ stopped : Printing,
      listing.printSubstitution emphasis bank? .start = .error (.stopped failure) stopped ∧
      stopped.log = listing.substitutionReport.log := by
  rw [substitutionReport_eq] at h ⊢
  obtain ⟨stopped, hstopped, hlog⟩ := Printer.printFrom_of_error (eq_error_of_map_eq_error h)
    ⟨[emphasis.bold "rewrite"], [], 0, [listing.reportStart]⟩
  refine ⟨stopped, ?_, hlog⟩
  rw [printSubstitution_eq]
  exact Printer.bind_apply_of_error hstopped _

end Listing

/-! ## The report and the substitution in a program -/

/-- What a pass of substitution returns: the instructions, if it gets through. -/
def SubstitutionRun.result {ι ε : Type} (run : SubstitutionRun ι ε) :
    Except (ProgramFailure ε) (List ι) :=
  match run.failure with
  | none => .ok run.insts
  | some failure => .error failure

namespace SubstitutionRun

variable {ι ε : Type} {run rest : SubstitutionRun ι ε}

theorem result_eq_ok_iff {insts : List ι} :
    run.result = .ok insts ↔ run.failure = none ∧ run.insts = insts := by
  rw [result]
  cases run.failure with
  | none => simp
  | some failure => simp

theorem result_eq_error_iff {failure : ProgramFailure ε} :
    run.result = .error failure ↔ run.failure = some failure := by
  rw [result]
  cases run.failure with
  | none => simp
  | some failure => simp

theorem result_cons {inst : ι} (hinsts : run.insts = inst :: rest.insts)
    (hfailure : run.failure = rest.failure) : run.result = rest.result.map (inst :: ·) := by
  rw [result, result, hinsts, hfailure]
  cases rest.failure with
  | none => rfl
  | some failure => rfl

end SubstitutionRun

/-- The report of some instructions ends with what the substitution in them returns, and it does not
exist if the substitution stops. -/
theorem SubstitutionReport.outcome_entriesFrom (assign : AssignmentFunction) (index : Nat)
    (insts : List Instr) :
    (entriesFrom assign index insts).outcome.map (List.map SubstitutionEntry.after) =
      (substituteFrom assign index insts).result := by
  induction insts generalizing index with
  | nil => rfl
  | cons inst rest ih =>
    cases hremap : (remapFor inst assign).outcome with
    | error cause =>
      rw [entriesFrom_cons_of_error hremap, substituteFrom_cons_of_error hremap]
      rfl
    | ok remap =>
      obtain ⟨hinsts, hfailure⟩ := substituteFrom_cons_of_ok hremap index rest
      rw [entriesFrom_cons_of_ok hremap, SubstitutionRun.result_cons hinsts hfailure,
        ← ih (index + 1)]
      cases (entriesFrom assign (index + 1) rest).outcome with
      | error failure => rfl
      | ok later => rfl

theorem Listing.outcome_substitutionReport (listing : Listing) :
    listing.substitutionReport.outcome.map SubstitutionReport.insts =
      (substituteAll listing.instructions listing.allocation.lookup?).result := by
  have hentries := SubstitutionReport.outcome_entriesFrom listing.allocation.lookup? 0
    listing.instructions
  refine Eq.trans ?_ hentries
  rw [substitutionReport_eq]
  cases (SubstitutionReport.entriesFrom listing.allocation.lookup? 0
    listing.instructions).outcome with
  | error failure => rfl
  | ok entries => rfl

/-- The pass that prints and the substitution in the instructions of the listing, under the last
assignment of each register, agree on every listing. One returns instructions exactly if the other
gets through, and they are the same; one ends at an instruction exactly if the other stops there,
and the same is said. The bank that names registers and the emphasis play no part. -/
theorem printSubstitution_agrees (listing : Listing) (emphasis : Emphasis) (bank? : Option Bank) :
    let run := substituteAll listing.instructions listing.allocation.lookup?
    (∀ insts,
      (∃ printing, listing.printSubstitution emphasis bank? .start = .ok insts printing) ↔
        run.failure = none ∧ run.insts = insts) ∧
    ∀ failure,
      (∃ printing, listing.printSubstitution emphasis bank? .start = .error failure printing) ↔
        ∃ stop, run.failure = some stop ∧ failure = .stopped stop ∧
          failure.index = stop.index ∧ failure.message = stop.cause.message := by
  intro run
  have hresult : listing.substitutionReport.outcome.map SubstitutionReport.insts = run.result :=
    listing.outcome_substitutionReport
  cases houtcome : listing.substitutionReport.outcome with
  | ok report =>
    rw [Listing.printSubstitution_of_ok houtcome]
    rw [houtcome] at hresult
    constructor
    · intro insts
      rw [← SubstitutionRun.result_eq_ok_iff, ← hresult]
      constructor
      · intro hprints
        obtain ⟨printing, hprinted⟩ := hprints
        cases hprinted
        rfl
      · intro hinsts
        obtain rfl := Except.ok.inj hinsts
        exact ⟨_, rfl⟩
    · intro failure
      constructor
      · intro hprints
        obtain ⟨printing, hprinted⟩ := hprints
        cases hprinted
      · intro hstops
        obtain ⟨stop, hstop, -⟩ := hstops
        rw [← SubstitutionRun.result_eq_error_iff, ← hresult] at hstop
        cases hstop
  | error stop =>
    obtain ⟨stopped, hstopped, -⟩ := Listing.printSubstitution_of_error houtcome emphasis bank?
    rw [hstopped]
    rw [houtcome] at hresult
    constructor
    · intro insts
      rw [← SubstitutionRun.result_eq_ok_iff, ← hresult]
      constructor
      · intro hprints
        obtain ⟨printing, hprinted⟩ := hprints
        cases hprinted
      · intro hinsts
        cases hinsts
    · intro failure
      simp only [← SubstitutionRun.result_eq_error_iff, ← hresult]
      constructor
      · intro hprints
        obtain ⟨printing, hprinted⟩ := hprints
        cases hprinted
        exact ⟨stop, rfl, rfl, rfl, rfl⟩
      · intro hstops
        obtain ⟨other, hother, hfailure, -⟩ := hstops
        obtain rfl := Except.error.inj hother
        exact ⟨stopped, by rw [hfailure]⟩

/-- An assignment to a register of another class, which no text gives, ends the pass at the
instruction that it is for. -/
example :
    let value : Register := ⟨.int64, true, 0, by decide⟩
    let wide : Register := ⟨.vec128, false, 0, by decide⟩
    let listing : Listing :=
      ⟨[(.ret (.reg value), ⟨0, 0, 8⟩)], [⟨.reg value, .reg wide, ⟨0, 9, 20⟩⟩]⟩
    ∃ printing, listing.printSubstitution .plain none .start =
      .error (.stopped ⟨0, .remap (.classMismatch value wide)⟩) printing :=
  ⟨_, rfl⟩

end RegisterMapping
