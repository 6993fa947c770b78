import RegisterMapping.Proofs.Substitution
import RegisterMapping.Proofs.Usage.Runs

/-!
# Usage under a change of registers

When other registers take the place of the registers of some accesses, several may become one, and
one may become a register that was there before. The usage table of the changed accesses is still
determined by the table of the old ones: change the registers of its entries and record the entries
again (`Usage.ofAccesses_renamed`). The order of first appearance is that of the old table
(`RegisterTable.eraseDups_map`), and to merge what has been merged before comes to the same as to
merge the accesses one by one (`Usage.combined_renamed`). So it is for an instruction and a
replacement table (`Instr.usage_substitute`).
-/

set_option autoImplicit false

namespace RegisterMapping

/-! ## Merging accesses -/

namespace Access

theorem eq_iff {a b : Access} :
    a = b ↔ (a.reads = true ↔ b.reads = true) ∧ (a.writes = true ↔ b.writes = true) := by
  cases a <;> cases b <;> simp [reads, writes]

/-- The access that stands for several is what they merge to, one after the other. -/
theorem combined_cons (first : Access) (rest : List Access) :
    combined (first :: rest) = rest.foldl merge first := by
  induction rest using List.reverseRecOn with
  | nil => exact combined_singleton first
  | append_singleton rest access ih =>
    rw [← List.cons_append, combined_concat (List.cons_ne_nil _ _), ih, List.foldl_concat]

theorem exists_merge_iff {accesses : List Access} {access : Access} :
    (∃ first rest, accesses = first :: rest ∧ rest.foldl merge first = access) ↔
      accesses ≠ [] ∧ combined accesses = access := by
  cases accesses with
  | nil => simp
  | cons first rest =>
    rw [combined_cons]
    simp

theorem reads_iff {access : Access} :
    access.reads = true ↔ access = .read ∨ access = .modify := by
  cases access <;> simp [reads]

theorem writes_iff {access : Access} :
    access.writes = true ↔ access = .write ∨ access = .modify := by
  cases access <;> simp [writes]

end Access

/-! ## The order of first appearance -/

namespace RegisterTable

/-- To leave out repetitions before a change of registers makes no difference to those that are left
afterwards. -/
theorem eraseDups_map (f : Register → Register) (registers : List Register) :
    (registers.eraseDups.map f).eraseDups = (registers.map f).eraseDups := by
  induction registers using List.reverseRecOn with
  | nil => rfl
  | append_singleton earlier r ih =>
    by_cases h : r ∈ earlier
    -- A register that has appeared adds nothing on either side.
    · rw [eraseDups_concat_of_mem h, ih, List.map_append, List.map_singleton,
        eraseDups_concat_of_mem (List.mem_map_of_mem h)]
    · rw [eraseDups_concat_of_not_mem h, List.map_append, List.map_append, List.map_singleton]
      by_cases hf : f r ∈ earlier.map f
      · have hkept : f r ∈ earlier.eraseDups.map f := by
          simpa only [List.mem_map, List.mem_eraseDups] using hf
        rw [eraseDups_concat_of_mem hf, eraseDups_concat_of_mem hkept, ih]
      · have hkept : f r ∉ earlier.eraseDups.map f := by
          simpa only [List.mem_map, List.mem_eraseDups] using hf
        rw [eraseDups_concat_of_not_mem hf, eraseDups_concat_of_not_mem hkept, ih]

theorem firstDistinct_of_few {capacity : Nat} {registers : List Register}
    (few : registers.length ≤ capacity) :
    firstDistinct capacity registers = registers.eraseDups := by
  refine List.take_of_length_le (Nat.le_trans ?_ few)
  exact (nodup_eraseDups registers).length_le_of_subset fun r hr => List.mem_eraseDups.1 hr

end RegisterTable

/-! ## Accesses of other registers -/

/-- The handle with another register in place of the one that it holds. -/
def Handle.rename (f : Register → Register) : Handle → Handle
  | reg r => reg (f r)
  | invalid => invalid

namespace Usage

variable {f : Register → Register} {calls : List (Handle × Access)} {usage : Usage}

/-- The accesses with another register in place of each register. -/
def renamed (f : Register → Register) (calls : List (Handle × Access)) :
    List (Handle × Access) :=
  calls.map fun call => (call.1.rename f, call.2)

/-- The entries of a table as accesses. -/
def asAccesses (usage : Usage) : List (Handle × Access) :=
  usage.entries.map fun entry => (.reg entry.1, entry.2)

theorem mentioned_renamed (f : Register → Register) (calls : List (Handle × Access)) :
    mentioned (renamed f calls) = (mentioned calls).map f := by
  rw [mentioned, mentioned, renamed, List.filterMap_map, List.map_filterMap]
  refine List.filterMap_congr fun call _ => ?_
  obtain ⟨h, access⟩ := call
  cases h <;> rfl

theorem mem_accessesTo_renamed_iff {s : Register} {access : Access} :
    access ∈ accessesTo (renamed f calls) s ↔ ∃ r, f r = s ∧ (.reg r, access) ∈ calls := by
  rw [mem_accessesTo_iff, renamed, List.mem_map]
  constructor
  · rintro ⟨⟨h, _⟩, hmem, heq⟩
    obtain ⟨hhandle, rfl⟩ := Prod.mk.inj heq
    cases h with
    | reg r => exact ⟨r, Handle.reg.inj hhandle, hmem⟩
    | invalid => cases hhandle
  · rintro ⟨r, rfl, hmem⟩
    exact ⟨_, hmem, rfl⟩

theorem mem_asAccesses_iff {r : Register} {access : Access} :
    (.reg r, access) ∈ usage.asAccesses ↔ (r, access) ∈ usage.entries := by
  simp [asAccesses]

theorem mentioned_asAccesses (usage : Usage) : mentioned usage.asAccesses = usage.registers := by
  rw [mentioned, asAccesses, List.filterMap_map]
  exact congrFun List.filterMap_eq_map usage.entries

/-- A run that is recorded as a whole leaves the table that it leads to. -/
theorem foldl_tryAdd_of_ok {start final : Usage}
    (h : (start.addAll calls).outcome = .ok final) :
    calls.foldl (fun usage call => usage.tryAdd call.1 call.2) start = final := by
  induction calls generalizing start with
  | nil => exact Except.ok.inj h
  | cons call rest ih =>
    rw [outcome_addAll_cons] at h
    cases houtcome : (start.add call.1 call.2).outcome with
    | error e =>
      rw [houtcome] at h
      cases h
    | ok next =>
      rw [houtcome] at h
      rw [List.foldl_cons, tryAdd_of_ok houtcome]
      exact ih h

/-- A few valid accesses are recorded as a whole, and what the table then holds can be read off
them. -/
theorem exists_ofAccesses_of_few (valid : ∀ call ∈ calls, call.1.isValid = true)
    (few : calls.length ≤ capacity) :
    ∃ usage : Usage, (ofAccesses calls).outcome = .ok usage ∧
      usage.entries = (mentioned calls).eraseDups.map (summary calls) := by
  obtain ⟨usage, husage, -⟩ := exists_addAll_of_valid .empty valid
    (by simpa [RegisterTable.size] using few)
  refine ⟨usage, husage, ?_⟩
  have hmentioned : (mentioned calls).length ≤ capacity :=
    Nat.le_trans (List.length_filterMap_le _ _) few
  rw [← foldl_tryAdd_of_ok husage, ← RegisterTable.firstDistinct_of_few hmentioned]
  exact entries_afterAttempts calls

section Summarised

variable {s : Register} (hentries : usage.entries = (mentioned calls).eraseDups.map (summary calls))

include hentries

theorem mem_entries_iff {r : Register} {access : Access} :
    (r, access) ∈ usage.entries ↔
      r ∈ mentioned calls ∧ Access.combined (accessesTo calls r) = access := by
  rw [hentries, List.mem_map]
  simp only [List.mem_eraseDups]
  constructor
  · rintro ⟨t, ht, heq⟩
    obtain ⟨rfl, rfl⟩ := Prod.mk.inj heq
    exact ⟨ht, rfl⟩
  · rintro ⟨hr, rfl⟩
    exact ⟨r, hr, rfl⟩

/-- What is asked of some access of a register can be asked of the accesses that stand for those of
the old registers, if several accesses answer as the one that stands for them. -/
theorem exists_renamed_iff {p : Access → Prop}
    (hp : ∀ accesses, accesses ≠ [] → (p (Access.combined accesses) ↔ ∃ a ∈ accesses, p a)) :
    (∃ access ∈ accessesTo (renamed f calls) s, p access) ↔
      ∃ access ∈ accessesTo (renamed f usage.asAccesses) s, p access := by
  simp only [mem_accessesTo_renamed_iff, mem_asAccesses_iff, mem_entries_iff hentries]
  constructor
  · rintro ⟨access, ⟨r, hf, hmem⟩, haccess⟩
    have hr : r ∈ mentioned calls := mem_mentioned_iff.2 ⟨access, hmem⟩
    refine ⟨_, ⟨r, hf, hr, rfl⟩, (hp _ (accessesTo_ne_nil hr)).2 ⟨access, ?_, haccess⟩⟩
    exact mem_accessesTo_iff.2 hmem
  · rintro ⟨_, ⟨r, hf, hr, rfl⟩, haccess⟩
    obtain ⟨access, hmem, haccess⟩ := (hp _ (accessesTo_ne_nil hr)).1 haccess
    exact ⟨access, ⟨r, hf, mem_accessesTo_iff.1 hmem⟩, haccess⟩

/-- The registers appear in the same order. -/
theorem eraseDups_mentioned_renamed :
    (mentioned (renamed f usage.asAccesses)).eraseDups =
      (mentioned (renamed f calls)).eraseDups := by
  rw [mentioned_renamed, mentioned_renamed, mentioned_asAccesses, registers_of_entries hentries,
    RegisterTable.eraseDups_map]

/-- The accesses that stand for those of the old registers stand together for all accesses that a
register has after the change. -/
theorem combined_renamed (hs : s ∈ mentioned (renamed f calls)) :
    Access.combined (accessesTo (renamed f usage.asAccesses) s) =
      Access.combined (accessesTo (renamed f calls) s) := by
  have hs' : s ∈ mentioned (renamed f usage.asAccesses) := by
    rwa [← List.mem_eraseDups, eraseDups_mentioned_renamed hentries, List.mem_eraseDups]
  rw [Access.eq_iff, Access.reads_combined_iff (accessesTo_ne_nil hs),
    Access.reads_combined_iff (accessesTo_ne_nil hs'), Access.writes_combined_iff,
    Access.writes_combined_iff]
  constructor
  · refine (exists_renamed_iff hentries fun accesses hne => ?_).symm
    rw [← Access.reads_iff, Access.reads_combined_iff hne]
  · refine (exists_renamed_iff hentries fun accesses _ => ?_).symm
    rw [← Access.writes_iff, Access.writes_combined_iff]

end Summarised

/-- Of valid accesses there are as many, and they are valid, after a change of registers. -/
theorem forall_isValid_renamed (f : Register → Register)
    (valid : ∀ call ∈ calls, call.1.isValid = true) :
    ∀ call ∈ renamed f calls, call.1.isValid = true := by
  intro call hmem
  obtain ⟨⟨h, access⟩, hcall, rfl⟩ := List.mem_map.1 hmem
  cases h with
  | reg r => rfl
  | invalid => exact absurd (valid _ hcall) Bool.false_ne_true

/-- The table of a few accesses determines the table that they have after a change of registers:
its entries are changed and recorded again, in order. -/
theorem ofAccesses_renamed (f : Register → Register)
    (valid : ∀ call ∈ calls, call.1.isValid = true)
    (few : calls.length ≤ capacity) :
    ∃ before after : Usage, (ofAccesses calls).outcome = .ok before ∧
      (ofAccesses (renamed f calls)).outcome = .ok after ∧
      (ofAccesses (renamed f before.asAccesses)).outcome = .ok after ∧
      after.entries = (mentioned (renamed f before.asAccesses)).eraseDups.map
        (summary (renamed f before.asAccesses)) := by
  obtain ⟨before, hbefore, hentries⟩ := exists_ofAccesses_of_few valid few
  obtain ⟨after, hafter, hafterEntries⟩ := exists_ofAccesses_of_few
    (forall_isValid_renamed f valid) (by simpa [renamed] using few)
  have hvalid : ∀ call ∈ before.asAccesses, call.1.isValid = true := by
    intro call hmem
    obtain ⟨entry, -, rfl⟩ := List.mem_map.1 hmem
    rfl
  obtain ⟨again, hagain, hagainEntries⟩ := exists_ofAccesses_of_few
    (forall_isValid_renamed f hvalid) (by simpa [renamed, asAccesses] using before.length_le)
  -- Both tables hold the same registers, each with the same access.
  have heq : again = after := by
    rw [RegisterTable.ext_iff, hagainEntries, hafterEntries, eraseDups_mentioned_renamed hentries]
    refine List.map_congr_left fun s hs => ?_
    rw [summary, combined_renamed hentries (List.mem_eraseDups.1 hs)]
    rfl
  subst heq
  exact ⟨before, again, hbefore, hafter, hagain, hagainEntries⟩

end Usage

/-! ## Instructions -/

/-- The usage table of an instruction sums up its accesses. -/
theorem Instr.exists_usage_entries {inst : Instr} (valid : ∀ h ∈ inst.operands, h.isValid = true) :
    ∃ usage, inst.usage.outcome = .ok usage ∧
      usage.entries =
        (Usage.mentioned inst.accesses).eraseDups.map (Usage.summary inst.accesses) :=
  Usage.exists_ofAccesses_of_few (forall_isValid_accesses valid) inst.length_accesses_le

namespace Remap

/-- The register that takes the place of another one; it is the other one itself if that is not
replaced. -/
def image (remap : Remap) (r : Register) : Register := (remap.table.find? r).getD r

theorem apply_eq_rename (remap : Remap) : remap.apply = Handle.rename remap.image := by
  funext h
  cases h with
  | invalid => rfl
  | reg r =>
    rw [apply, lookup?, Handle.rename, image]
    cases remap.table.find? r <;> rfl

end Remap

namespace Usage

variable {usage : Usage} {remap : Remap} {s : Register}

/-- The accesses of a register after a replacement are those of the entries that it replaces. -/
theorem accessesTo_renamed_asAccesses (usage : Usage) (remap : Remap) (s : Register) :
    accessesTo (renamed remap.image usage.asAccesses) s =
      (usage.entries.filter fun entry => remap.apply (.reg entry.1) = .reg s).map Prod.snd := by
  rw [accessesTo, renamed, asAccesses, remap.apply_eq_rename, List.map_map, List.filter_map,
    List.map_map]
  rfl

end Usage

/-- Replacing registers and telling what an instruction uses commute: the usage table of the
instruction with its registers replaced is the one that the entries of its own usage table make, in
order, with their registers replaced. A register is in it exactly if one of these entries has it
then, and its access is what their accesses merge to. -/
theorem Instr.usage_substitute (inst : Instr) (remap : Remap)
    (valid : ∀ h ∈ inst.operands, h.isValid = true) :
    ∃ before after : Usage,
      (TargetInstruction.usage inst).outcome = .ok before ∧
      (TargetInstruction.usage (TargetInstruction.substitute remap inst)).outcome = .ok after ∧
      (Usage.ofAccesses (before.entries.map fun entry =>
        (remap.apply (.reg entry.1), entry.2))).outcome = .ok after ∧
      ∀ s access, after.find? s = some access ↔
        ∃ first rest,
          (before.entries.filter fun entry => remap.apply (.reg entry.1) = .reg s).map Prod.snd =
            first :: rest ∧ rest.foldl Access.merge first = access := by
  have hcalls : ∀ call ∈ inst.accesses, call.1.isValid = true := fun call hmem =>
    valid _ (mem_map_accesses_iff.1 (List.mem_map_of_mem hmem))
  obtain ⟨before, after, hbefore, hafter, hagain, hentries⟩ :=
    Usage.ofAccesses_renamed remap.image hcalls inst.length_accesses_le
  rw [Usage.renamed, ← remap.apply_eq_rename] at hafter
  refine ⟨before, after, hbefore, ?_, ?_, fun s access => ?_⟩
  · show (Usage.ofAccesses (inst.mapOperands remap.apply).accesses).outcome = _
    rw [accesses_mapOperands]
    exact hafter
  · rw [Usage.renamed, Usage.asAccesses, ← remap.apply_eq_rename, List.map_map] at hagain
    exact hagain
  · rw [Access.exists_merge_iff, ← Usage.accessesTo_renamed_asAccesses,
      RegisterTable.find?_eq_some_iff, Usage.mem_entries_iff hentries]
    refine and_congr_left fun _ => ⟨Usage.accessesTo_ne_nil, fun hne => ?_⟩
    by_contra habsent
    exact hne (Usage.accessesTo_eq_nil habsent)

/-- The destination takes the register of the last factor, which was read and is read and written
then. Its entry stays where it was. -/
theorem Instr.usage_substitute_sample :
    let dst : Register := ⟨.int64, true, 0, by decide⟩
    let factor : Register := ⟨.int64, true, 1, by decide⟩
    let real : Register := ⟨.int64, false, 3, by decide⟩
    let other : Register := ⟨.int64, false, 4, by decide⟩
    let inst : Instr := .fma (.reg dst) (.reg factor) (.reg real)
    let remap : Remap := ⟨⟨[(dst, real), (factor, other)], by decide, by decide⟩, by decide⟩
    (∀ h ∈ inst.operands, h.isValid = true) ∧
      ∃ before after : Usage, (TargetInstruction.usage inst).outcome = .ok before ∧
        (TargetInstruction.usage (TargetInstruction.substitute remap inst)).outcome = .ok after ∧
        before.entries = [(factor, .read), (real, .read), (dst, .modify)] ∧
        after.entries = [(other, .read), (real, .modify)] := by
  intro dst factor real other inst remap
  have valid : ∀ h ∈ inst.operands, h.isValid = true := by decide
  obtain ⟨before, after, hbefore, hafter, -, -⟩ := Instr.usage_substitute inst remap valid
  refine ⟨valid, before, after, hbefore, hafter, ?_, ?_⟩
  · obtain rfl := Except.ok.inj hbefore
    rfl
  · obtain rfl := Except.ok.inj hafter
    rfl

end RegisterMapping
