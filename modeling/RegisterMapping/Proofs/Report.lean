import RegisterMapping.Proofs.Listing.Agreement
import RegisterMapping.Proofs.Substitution
import RegisterMapping.Report.Basic

/-!
# Reports of whatever was parsed

A text with faults is parsed to a listing as well, and a report can be asked of it. What a line adds
to a listing is sound even if the line is faulty (`Line.sound_of_read`): the operands of an
instruction hold registers, and an assignment goes from a virtual register to a real one of its
class. So is the listing of any text (`sound_parse`).

Of a sound listing both reports exist. Nothing an instruction mentions is refused by its usage
table, and what the assignments of the listing give a register is of its class
(`Listing.Sound.assignable`). Together with the pass by position, which does not fail either, this
is `parse_then_report_never_fails`.
-/

set_option autoImplicit false

namespace RegisterMapping

/-! ## Sound items and listings -/

/-- An instruction has registers as operands, and an assignment keeps the rules for assignments.
Nothing is said of the classes of operands. -/
def Item.Sound : Item → Prop
  | .instr inst => ∀ h ∈ inst.operands, h.isValid = true
  | .assignment virt real => (Item.assignment virt real).wellTyped = true

/-- An assignment that keeps the rules for assignments. -/
def Assignment.Sound (assignment : Assignment) : Prop :=
  ∃ virt real : Register, assignment.virt = .reg virt ∧ assignment.real = .reg real ∧
    (Item.assignment virt real).wellTyped = true

/-- Whatever a listing holds is sound. -/
structure Listing.Sound (listing : Listing) : Prop where
  operands_valid : ∀ inst ∈ listing.instructions, ∀ h ∈ inst.operands, h.isValid = true
  assignments_sound : ∀ assignment ∈ listing.assignments, assignment.Sound

theorem Assignment.Sound.valid {assignment : Assignment} (h : assignment.Sound) :
    assignment.virt.isValid = true ∧ assignment.real.isValid = true := by
  obtain ⟨virt, real, hvirt, hreal, -⟩ := h
  rw [hvirt, hreal]
  exact ⟨rfl, rfl⟩

theorem Listing.sound_empty : Listing.empty.Sound where
  operands_valid := by
    intro inst hmem
    exact absurd hmem List.not_mem_nil
  assignments_sound := by
    intro assignment hmem
    exact absurd hmem List.not_mem_nil

theorem ParsedListing.sound_append {a b : ParsedListing} (ha : a.listing.Sound)
    (hb : b.listing.Sound) : (a.append b).listing.Sound where
  operands_valid := by
    intro inst hmem
    rw [Listing.instructions, ParsedListing.append, List.map_append] at hmem
    rcases List.mem_append.1 hmem with hleft | hright
    · exact ha.operands_valid inst hleft
    · exact hb.operands_valid inst hright
  assignments_sound := by
    intro assignment hmem
    rcases List.mem_append.1 hmem with hleft | hright
    · exact ha.assignments_sound assignment hleft
    · exact hb.assignments_sound assignment hright

theorem ParsedListing.sound_join {parts : List ParsedListing}
    (h : ∀ part ∈ parts, part.listing.Sound) : (join parts).listing.Sound := by
  induction parts with
  | nil => exact Listing.sound_empty
  | cons part rest ih =>
    have hrest : (join rest).listing.Sound := by
      apply ih
      intro later hmem
      exact h later (List.mem_cons_of_mem _ hmem)
    exact sound_append (h part List.mem_cons_self) hrest

/-! ## What readers give -/

namespace LineReader

variable {α β : Type} {P : α → Prop} {Q : β → Prop}

/-- Whatever the reader gives, of whatever line, has the property. What was reported plays no
part. -/
def Gives (reader : LineReader α) (P : α → Prop) : Prop :=
  ∀ context start a stop, (reader context start).value = some (a, stop) → P a

theorem gives_pure {a : α} (h : P a) : (pure a : LineReader α).Gives P := by
  intro context start b stop hvalue
  rw [(value_pure_eq_some_iff.1 hvalue).1]
  exact h

theorem gives_fail (fault : Fault) (span : Span) : (fail fault span : LineReader α).Gives P := by
  intro context start a stop hvalue
  cases hvalue

theorem gives_true (reader : LineReader α) : reader.Gives fun _ => True := by
  intro context start a stop hvalue
  trivial

theorem Gives.bind {reader : LineReader α} {next : α → LineReader β} (h : reader.Gives P)
    (hnext : ∀ a, P a → (next a).Gives Q) : (reader >>= next).Gives Q := by
  intro context start b stop hvalue
  obtain ⟨a, middle, hfirst, hsecond⟩ := value_bind_eq_some_iff.1 hvalue
  exact hnext a (h context start a middle hfirst) context middle b stop hsecond

/-- What comes last decides, if nothing need be known of what comes first. -/
theorem gives_of_next {reader : LineReader α} {next : α → LineReader β}
    (h : ∀ a, (next a).Gives Q) : (reader >>= next).Gives Q :=
  (gives_true reader).bind fun a _ => h a

/-- A check that reports when it fails changes nothing in what is given. -/
theorem Gives.check {condition : Prop} [Decidable condition] {fault : Fault} {span : Span}
    {next : LineReader β} (h : next.Gives Q) :
    (if condition then (do report fault span; next) else next).Gives Q := by
  split
  · apply gives_of_next
    intro reported
    exact h
  · exact h

theorem gives_address : address.Gives fun target => target.base.isValid = true := by
  apply gives_of_next
  intro left
  apply gives_of_next
  intro base
  apply gives_of_next
  intro distance
  apply gives_of_next
  intro right
  exact gives_pure rfl

theorem gives_operands (mnemonic : Mnemonic) :
    (operands mnemonic).Gives fun inst => ∀ h ∈ inst.operands, h.isValid = true := by
  have hone : ∀ r : Register, ∀ h ∈ [Handle.reg r], h.isValid = true := by
    simp [Handle.isValid, Handle.register?]
  have htwo : ∀ a b : Register, ∀ h ∈ [Handle.reg a, .reg b], h.isValid = true := by
    simp [Handle.isValid, Handle.register?]
  cases mnemonic with
  | li =>
    apply gives_of_next
    intro dst
    apply gives_of_next
    intro comma
    apply gives_of_next
    intro imm
    exact gives_pure (hone dst)
  | mov | alu | cmp =>
    apply gives_of_next
    intro registers
    exact gives_pure (htwo registers.1 registers.2)
  | neg | ret =>
    apply gives_of_next
    intro register
    exact gives_pure (hone register.1)
  | ld | st =>
    apply gives_of_next
    intro register
    apply gives_of_next
    intro comma
    refine gives_address.bind fun target hbase => gives_pure ?_
    -- The base is the one operand that the reader of the operands does not make a handle of itself.
    intro h hmem
    rcases List.mem_cons.1 hmem with rfl | hlast
    · rfl
    · rw [List.mem_singleton.1 hlast]
      exact hbase
  | fma =>
    apply gives_of_next
    intro dst
    apply gives_of_next
    intro comma
    apply gives_of_next
    intro registers
    have hthree : ∀ h ∈ [Handle.reg dst.1, .reg registers.1, .reg registers.2],
        h.isValid = true := by
      intro h hmem
      rcases List.mem_cons.1 hmem with rfl | hrest
      · rfl
      · exact htwo registers.1 registers.2 h hrest
    exact (gives_pure hthree).check

theorem gives_instruction :
    instruction.Gives fun inst => ∀ h ∈ inst.operands, h.isValid = true := by
  apply gives_of_next
  intro token
  cases Mnemonic.ofText? token.text with
  | none => exact gives_fail _ _
  | some mnemonic => exact gives_operands mnemonic

theorem gives_assignment : assignment.Gives fun item? => ∀ item ∈ item?, item.Sound := by
  apply gives_of_next
  intro virt
  apply gives_of_next
  intro arrow
  apply gives_of_next
  intro real
  cases hfault : assignmentFault? virt.1 real.1 virt.2 real.2 with
  -- A faulty assignment gives nothing, and one without a fault keeps the rules.
  | some diagnostic =>
    simp only [hfault]
    apply gives_of_next
    intro reported
    apply gives_pure
    intro item hmem
    cases hmem
  | none =>
    simp only [hfault]
    apply gives_pure
    intro item hmem
    cases hmem
    exact assignmentFault?_eq_none_iff.1 hfault

theorem gives_item (first : Token) :
    (item first).Gives fun item? => ∀ item ∈ item?, item.Sound := by
  rw [item]
  split
  · exact gives_assignment
  · refine gives_instruction.bind fun inst hvalid => gives_pure ?_
    intro item hmem
    cases hmem
    exact hvalid
  · exact gives_fail _ _

end LineReader

/-! ## Lines -/

/-- The item of a line is sound, whatever else is wrong with the line. -/
theorem Line.sound_of_read {bank? : Option Bank} {line : Line} {item : Item} {span : Span}
    (h : (line.read bank?).item? = some (item, span)) : item.Sound := by
  rw [read] at h
  split at h
  · split at h
    · cases h
    · dsimp only at h
      split at h
      · cases h
      · next item? cursor hvalue =>
        obtain ⟨said, hsaid, heq⟩ := Option.map_eq_some_iff.1 h
        obtain ⟨rfl, -⟩ := Prod.mk.inj heq
        exact LineReader.gives_item _ _ _ _ _ hvalue said hsaid
  · cases h

theorem LineReading.sound_settle {reading : LineReading}
    (h : ∀ item span, reading.item? = some (item, span) → item.Sound)
    (earlier : List Assignment) : (reading.settle earlier).listing.Sound := by
  rw [settle]
  split
  · exact Listing.sound_empty
  · next inst span hitem =>
    constructor
    · intro other hmem
      rw [List.mem_singleton.1 hmem]
      exact h _ span hitem
    · intro assignment hmem
      exact absurd hmem List.not_mem_nil
  · next virt real span hitem =>
    -- A second assignment of a register adds nothing.
    split
    · exact Listing.sound_empty
    · constructor
      · intro inst hmem
        exact absurd hmem List.not_mem_nil
      · intro assignment hmem
        rw [List.mem_singleton.1 hmem]
        exact ⟨virt, real, rfl, rfl, h _ span hitem⟩

theorem sound_of_mem_settleLines {readings : List LineReading}
    (h : ∀ reading ∈ readings, ∀ item span, reading.item? = some (item, span) → item.Sound)
    (earlier : List Assignment) :
    ∀ part ∈ settleLines earlier readings, part.listing.Sound := by
  induction readings generalizing earlier with
  | nil =>
    intro part hmem
    exact absurd hmem List.not_mem_nil
  | cons reading rest ih =>
    intro part hmem
    rcases List.mem_cons.1 hmem with rfl | hrest
    · exact LineReading.sound_settle (h reading List.mem_cons_self) earlier
    · refine ih ?_ _ part hrest
      intro later hlater
      exact h later (List.mem_cons_of_mem _ hlater)

/-- The listing of a text is sound, however faulty the text is. -/
theorem sound_parse (source : String) (file : Nat) (bank? : Option Bank) :
    (Listing.parse source file bank?).listing.Sound := by
  apply ParsedListing.sound_join
  apply sound_of_mem_settleLines
  intro reading hmem item span hitem
  obtain ⟨line, -, rfl⟩ := List.mem_map.1 hmem
  exact Line.sound_of_read hitem

/-! ## The allocation of a listing -/

/-- What is looked up among inserted pairs is one of them, or was there before. -/
theorem Allocation.mem_or_lookup?_of_foldl_insert {pairs : List (Handle × Handle)}
    {allocation : Allocation} {key value : Handle}
    (h : (pairs.foldl (fun allocation pair => allocation.insert pair.1 pair.2) allocation).lookup?
      key = some value) :
    (key, value) ∈ pairs ∨ allocation.lookup? key = some value := by
  -- The pair inserted last is found first, so the induction is on the pairs that come later.
  induction pairs generalizing allocation with
  | nil => exact .inr h
  | cons pair rest ih =>
    rcases ih h with hrest | hbefore
    · exact .inl (List.mem_cons_of_mem _ hrest)
    · rw [Allocation.lookup?_insert] at hbefore
      split at hbefore
      · next hkey =>
        obtain rfl := Option.some.inj hbefore
        subst hkey
        exact .inl List.mem_cons_self
      · exact .inr hbefore

theorem Allocation.mem_of_lookup?_ofPairs {pairs : List (Handle × Handle)} {key value : Handle}
    (h : (ofPairs pairs).lookup? key = some value) : (key, value) ∈ pairs := by
  rcases mem_or_lookup?_of_foldl_insert h with hmem | hempty
  · exact hmem
  · cases hempty

namespace Listing.Sound

variable {listing : Listing}

/-- What the allocation gives a register was written as an assignment, with the register on its left
side and a register on its right side. -/
theorem exists_assignment (h : listing.Sound) {r : Register} {value : Handle}
    (hfound : listing.allocation.lookup? (.reg r) = some value) :
    ∃ real : Register, value = .reg real ∧ (Item.assignment r real).wellTyped = true := by
  obtain ⟨assignment, hmem, hpair⟩ := List.mem_map.1 (Allocation.mem_of_lookup?_ofPairs hfound)
  obtain ⟨virt, real, hvirt, hreal, htyped⟩ := h.assignments_sound assignment hmem
  obtain ⟨hkey, hvalue⟩ := Prod.mk.inj hpair
  obtain rfl := Handle.reg.inj (hvirt.symm.trans hkey)
  exact ⟨real, hvalue.symm.trans hreal, htyped⟩

/-- What the assignments give a register, if anything, is a register of its class. -/
theorem fits (h : listing.Sound) (r : Register) :
    AssignmentFunction.Fits listing.allocation.lookup? r := by
  cases hfound : listing.allocation.lookup? (.reg r) with
  | none => exact .inl hfound
  | some value =>
    obtain ⟨real, rfl, htyped⟩ := h.exists_assignment hfound
    simp only [Item.wellTyped, Bool.and_eq_true, decide_eq_true_eq] at htyped
    exact .inr ⟨real, hfound, htyped.2.symm⟩

/-- In a sound listing, every register that is allocated is real. -/
theorem assignsReal (h : listing.Sound) :
    AssignmentFunction.AssignsReal listing.allocation.lookup? := by
  intro r s _ hfound
  obtain ⟨real, heq, htyped⟩ := h.exists_assignment hfound
  obtain rfl := Handle.reg.inj heq
  simp only [Item.wellTyped, Bool.and_eq_true] at htyped
  exact Register.isReal_iff.1 htyped.1.2

/-- A replacement table can be built for every instruction. -/
theorem assignable (h : listing.Sound) :
    ∀ inst ∈ listing.instructions, inst.Assignable listing.allocation.lookup? := by
  intro inst hmem
  apply Instr.assignable_iff.2
  refine ⟨h.operands_valid inst hmem, ?_⟩
  intro r _ _
  exact h.fits r

end Listing.Sound

/-! ## Reports -/

/-- The entries of a usage report exist if all operands hold registers. -/
theorem UsageReport.exists_entriesFrom {insts : List Instr}
    (h : ∀ inst ∈ insts, ∀ operand ∈ inst.operands, operand.isValid = true) (index : Nat) :
    ∃ entries, (entriesFrom index insts).outcome = .ok entries := by
  induction insts generalizing index with
  | nil => exact ⟨[], rfl⟩
  | cons inst rest ih =>
    obtain ⟨usage, husage, -⟩ := Instr.exists_usage_of_valid (h inst List.mem_cons_self)
    have hlater : ∀ other ∈ rest, ∀ operand ∈ other.operands, operand.isValid = true := by
      intro other hmem
      exact h other (List.mem_cons_of_mem _ hmem)
    obtain ⟨later, hrest⟩ := ih hlater (index + 1)
    refine ⟨⟨inst, usage⟩ :: later, ?_⟩
    rw [entriesFrom, Traced.outcome_bind_of_ok (Traced.outcome_mapError_of_ok husage _),
      Traced.outcome_bind_of_ok hrest]
    rfl

/-- The entry is about the instruction: it has the assigned virtual registers of the usage table of
the instruction, in order, and the instruction with its operands replaced. -/
structure SubstitutionEntry.Describes (assign : AssignmentFunction) (inst : Instr)
    (entry : SubstitutionEntry) : Prop where
  before : entry.before = inst
  remap : ∃ usage, inst.usage.outcome = .ok usage ∧
    entry.remap.pairs = usage.virtuals.filterMap assign.pair?
  after : entry.after = inst.mapOperands assign.replace

namespace SubstitutionReport

variable {assign : AssignmentFunction} {inst : Instr} {remap : Remap}

/-- The record that is made of an instruction once its registers are replaced. -/
def entryLog (index : Nat) (remap : Remap) (inst : Instr) : LogRecord :=
  ⟨.trace, s!"{index}: rewritten to {(TargetInstruction.substitute remap inst).text}"⟩

theorem entriesFrom_cons_of_error {cause : InstructionError UsageError}
    (h : (remapFor inst assign).outcome = .error cause) (index : Nat) (rest : List Instr) :
    entriesFrom assign index (inst :: rest) =
      ⟨(remapFor inst assign).log, .error ⟨index, cause⟩⟩ := by
  rw [entriesFrom, Traced.ext_iff, Traced.log_bind, Traced.outcome_bind, Traced.outcome_mapError, h]
  exact ⟨rfl, rfl⟩

theorem entriesFrom_cons_of_ok (h : (remapFor inst assign).outcome = .ok remap) (index : Nat)
    (rest : List Instr) :
    entriesFrom assign index (inst :: rest) =
      ⟨(remapFor inst assign).log ++ [entryLog index remap inst] ++
          (entriesFrom assign (index + 1) rest).log,
        (entriesFrom assign (index + 1) rest).outcome.map
          (⟨inst, remap, TargetInstruction.substitute remap inst⟩ :: ·)⟩ := by
  have hremap := Traced.outcome_mapError_of_ok h fun cause =>
    (⟨index, cause⟩ : ProgramFailure UsageError)
  rw [entriesFrom, Traced.ext_iff, Traced.log_bind, Traced.outcome_bind, hremap]
  dsimp only [Except.bind]
  rw [Traced.log_bind, Traced.outcome_bind, Traced.outcome_record]
  dsimp only [Except.bind]
  rw [Traced.log_bind, Traced.outcome_bind]
  -- Whether the later entries exist or not, the records that they make stay.
  cases (entriesFrom assign (index + 1) rest).outcome with
  | error failure => simp [entryLog, Except.map, Except.bind, Traced.log_mapError]
  | ok later => simp [entryLog, Except.map, Except.bind]

/-- The entries of a report of assignable instructions exist, one for each instruction. -/
theorem exists_entriesFrom_describing {insts : List Instr}
    (h : ∀ inst ∈ insts, inst.Assignable assign) (index : Nat) :
    ∃ entries, (entriesFrom assign index insts).outcome = .ok entries ∧
      List.Forall₂ (SubstitutionEntry.Describes assign) insts entries := by
  induction insts generalizing index with
  | nil => exact ⟨[], rfl, .nil⟩
  | cons inst rest ih =>
    obtain ⟨hinst, hrest⟩ := List.forall_mem_cons.1 h
    obtain ⟨usage, remap, husage, hremap, hpairs, happly⟩ :=
      Instr.exists_tables_of_assignable hinst
    obtain ⟨later, hlater, hdescribe⟩ := ih hrest (index + 1)
    refine ⟨⟨inst, remap, TargetInstruction.substitute remap inst⟩ :: later, ?_, ?_⟩
    · rw [entriesFrom_cons_of_ok hremap, hlater]
      rfl
    · exact .cons ⟨rfl, ⟨usage, husage, hpairs⟩, Instr.mapOperands_congr happly⟩ hdescribe

theorem map_after_of_describes {insts : List Instr} {entries : List SubstitutionEntry}
    (h : List.Forall₂ (SubstitutionEntry.Describes assign) insts entries) :
    entries.map SubstitutionEntry.after = insts.map (Instr.mapOperands assign.replace) := by
  rw [← List.forall₂_eq_eq_eq, List.forall₂_map_left_iff, List.forall₂_map_right_iff]
  exact (h.imp fun _ _ hentry => hentry.after).flip

/-- The entries of a substitution report exist if the instructions are assignable, and they end
with instructions whose operands hold registers. -/
theorem exists_entriesFrom {insts : List Instr}
    (h : ∀ inst ∈ insts, inst.Assignable assign) (index : Nat) :
    ∃ entries, (entriesFrom assign index insts).outcome = .ok entries ∧
      ∀ entry ∈ entries, ∀ operand ∈ entry.after.operands, operand.isValid = true := by
  obtain ⟨entries, hentries, hdescribe⟩ := exists_entriesFrom_describing h index
  refine ⟨entries, hentries, ?_⟩
  intro entry hmem operand hoperand
  have hreplaced : entry.after ∈ insts.map (Instr.mapOperands assign.replace) := by
    rw [← map_after_of_describes hdescribe]
    exact List.mem_map_of_mem hmem
  obtain ⟨inst, hinst, heq⟩ := List.mem_map.1 hreplaced
  rw [← heq, Instr.operands_mapOperands] at hoperand
  -- Replaced operands hold registers, as what is assigned fits.
  obtain ⟨before, hbefore, rfl⟩ := List.mem_map.1 hoperand
  exact (h inst hinst).isValid_replace before hbefore

end SubstitutionReport

/-! ## Attributes that are asked for -/

/-- Registers can be asked whether one of them is virtual. -/
theorem anyM_isVirtual_of_valid {handles : List Handle}
    (h : ∀ handle ∈ handles, handle.isValid = true) :
    handles.anyM Handle.isVirtual = .ok (handles.any Handle.holdsVirtual) := by
  induction handles with
  | nil => rfl
  | cons handle rest ih =>
    have hrest : rest.anyM Handle.isVirtual = .ok (rest.any Handle.holdsVirtual) := by
      apply ih
      intro other hmem
      exact h other (List.mem_cons_of_mem _ hmem)
    cases handle with
    | invalid => exact absurd (h _ List.mem_cons_self) Bool.false_ne_true
    | reg r =>
      have hasked : (Handle.reg r :: rest).anyM Handle.isVirtual =
          match r.isVirtual with
          | true => .ok true
          | false => rest.anyM Handle.isVirtual := rfl
      rw [hasked, List.any_cons, Handle.holdsVirtual]
      cases r.isVirtual with
      | true => rfl
      | false => exact hrest

/-- The name of what a handle holds, with every attribute asked of the handle. -/
def Bank.askName? (bank : Bank) (h : Handle) : Except MissingAttribute (Option String) :=
  if h.isValid then do
    if ← h.isVirtual then
      return none
    else do
      let cls ← h.cls
      let index ← h.index
      return (bank.layout cls)[index]?
  else
    return none

/-- The name is asked of no handle without a register. -/
theorem Bank.askName?_eq (bank : Bank) (h : Handle) :
    bank.askName? h = .ok (bank.nameOfHandle? h) := by
  cases h with
  | invalid => rfl
  | reg r =>
    show (if r.isVirtual then _ else _ : Except MissingAttribute (Option String)) =
      .ok (if !r.isVirtual then _ else _)
    cases r.isVirtual with
    | true => rfl
    | false => rfl

/-! ## Any text -/

/-- No text ends the pass by position, and of the listing that it gives, clean or not, both reports
exist. Its operands and assignments hold registers; so do the operands after the substitution, which
are asked whether they are virtual; and a bank that names registers in a report asks nothing of a
handle without one. -/
theorem parse_then_report_never_fails (source : String) (file : Nat) (bank? naming? : Option Bank) :
    ∃ parsed : ParsedListing, Listing.parseByPosition source file bank? = .ok parsed ∧
      parsed = Listing.parse source file bank? ∧
      (∀ inst ∈ parsed.listing.instructions, ∀ h ∈ inst.operands, h.isValid = true) ∧
      (∀ assignment ∈ parsed.listing.assignments,
        assignment.virt.isValid = true ∧ assignment.real.isValid = true) ∧
      (∃ report, parsed.listing.usageReport.outcome = .ok report) ∧
      (∃ report, parsed.listing.substitutionReport.outcome = .ok report ∧
        ∀ entry ∈ report.entries,
          entry.after.operands.anyM Handle.isVirtual = .ok entry.after.mentionsVirtual) ∧
      ∀ bank ∈ naming?, ∀ h, bank.askName? h = .ok (bank.nameOfHandle? h) := by
  have hsound := sound_parse source file bank?
  refine ⟨_, parseByPosition_eq_parse source file bank?, rfl, hsound.operands_valid, ?_, ?_, ?_, ?_⟩
  · intro assignment hmem
    exact (hsound.assignments_sound assignment hmem).valid
  · obtain ⟨entries, hentries⟩ := UsageReport.exists_entriesFrom hsound.operands_valid 0
    refine ⟨⟨entries⟩, ?_⟩
    rw [Listing.usageReport, Traced.outcome_bind_of_ok (Traced.outcome_record _ _),
      Traced.outcome_bind_of_ok hentries]
    rfl
  · obtain ⟨entries, hentries, hvalid⟩ := SubstitutionReport.exists_entriesFrom hsound.assignable 0
    refine ⟨⟨entries⟩, ?_, ?_⟩
    · rw [Listing.substitutionReport, Traced.outcome_bind_of_ok (Traced.outcome_record _ _),
        Traced.outcome_bind_of_ok hentries]
      rfl
    · intro entry hmem
      exact anyM_isVirtual_of_valid (hvalid entry hmem)
  · intro bank _ h
    exact bank.askName?_eq h

end RegisterMapping
