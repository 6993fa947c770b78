import RegisterMapping.Proofs.Table
import RegisterMapping.Proofs.Usage

/-!
# Runs of accesses, some of them refused

A usage table is offered accesses one after the other, and goes on as it was after one that it
refuses. What it holds in the end can be read off the sequence: the first distinct registers that
it mentions, in order, as many as there is room for, each with one access that stands for all of
its own (`Usage.entries_afterAttempts`). So the accesses that are refused are those of no register
and of registers that came too late (`Usage.exists_ok_iff`), and if no register came too late the
order of the accesses does not matter (`Usage.access?_afterAttempts_of_perm`).
-/

set_option autoImplicit false

namespace RegisterMapping

/-! ## Several accesses of one register -/

namespace Access

/-- The access that stands for all accesses of one register. -/
def combined (accesses : List Access) : Access :=
  if accesses.all (· = .read) then .read
  else if accesses.all (· = .write) then .write
  else .modify

variable {accesses : List Access}

@[simp]
theorem combined_singleton (access : Access) : combined [access] = access := by
  cases access <;> rfl

/-- One more access is merged with what stands for those before it. -/
theorem combined_concat (h : accesses ≠ []) (access : Access) :
    combined (accesses ++ [access]) = (combined accesses).merge access := by
  -- Accesses are not all reads and all writes, since there is one.
  have hboth : accesses.all (· = .read) = true → accesses.all (· = .write) = false := by
    obtain ⟨first, hfirst⟩ := List.exists_mem_of_ne_nil accesses h
    intro hread
    have := List.all_eq_true.1 hread first hfirst
    exact List.all_eq_false.2 ⟨first, hfirst, by simp_all⟩
  simp only [combined, List.all_append, List.all_cons, List.all_nil, Bool.and_true]
  cases hread : accesses.all (· = .read) with
  | true => cases access <;> simp [hboth hread, merge]
  | false => cases accesses.all (· = .write) <;> cases access <;> simp [merge]

/-- In which order a register is read and written does not matter. -/
theorem combined_perm {other : List Access} (h : other.Perm accesses) :
    combined other = combined accesses := by
  simp only [combined, h.all_eq]

/-- A register is read exactly if one of its accesses reads it. -/
theorem reads_combined_iff (h : accesses ≠ []) :
    (combined accesses).reads = true ↔
      ∃ access ∈ accesses, access = .read ∨ access = .modify := by
  have hreads : ∀ access : Access, access = .read ∨ access = .modify ↔ access ≠ .write := by
    intro access
    cases access <;> simp
  simp only [hreads]
  rw [combined]
  split
  · next hread =>
    obtain ⟨first, hfirst⟩ := List.exists_mem_of_ne_nil accesses h
    have hfirstRead : first = .read := by simpa using List.all_eq_true.1 hread first hfirst
    exact iff_of_true rfl ⟨first, hfirst, by simp [hfirstRead]⟩
  · split
    · next hwrite => exact iff_of_false Bool.false_ne_true (by simpa using hwrite)
    · next hwrite => exact iff_of_true rfl (by simpa using hwrite)

/-- A register is written exactly if one of its accesses writes it. -/
theorem writes_combined_iff (accesses : List Access) :
    (combined accesses).writes = true ↔
      ∃ access ∈ accesses, access = .write ∨ access = .modify := by
  have hwrites : ∀ access : Access, access = .write ∨ access = .modify ↔ access ≠ .read := by
    intro access
    cases access <;> simp
  simp only [hwrites]
  rw [combined]
  split
  · next hread => exact iff_of_false Bool.false_ne_true (by simpa using hread)
  · next hread =>
    refine iff_of_true ?_ (by simpa using hread)
    split <;> rfl

end Access

namespace Usage

/-! ## What a run is about -/

/-- The table after a run of attempts to record accesses, starting from the empty one. -/
def afterAttempts (calls : List (Handle × Access)) : Usage :=
  calls.foldl (fun usage call => usage.tryAdd call.1 call.2) RegisterTable.empty

/-- The accesses of a run that are recorded, in order; the refused ones are left out. -/
def accepted (usage : Usage) : List (Handle × Access) → List (Handle × Access)
  | [] => []
  | (h, access) :: rest =>
    match (usage.add h access).outcome with
    | .ok next => (h, access) :: accepted next rest
    | .error _ => accepted usage rest

/-- The registers of a sequence of accesses, one for each access of a register. -/
def mentioned (calls : List (Handle × Access)) : List Register :=
  calls.filterMap fun call => call.1.register?

/-- The registers that a run records: the first distinct ones, as many as there is room for. -/
def recorded (calls : List (Handle × Access)) : List Register :=
  RegisterTable.firstDistinct capacity (mentioned calls)

/-- The accesses of one register. -/
def accessesTo (calls : List (Handle × Access)) (r : Register) : List Access :=
  (calls.filter fun call => call.1 = .reg r).map Prod.snd

variable {calls before after : List (Handle × Access)} {h : Handle} {access : Access}
  {r s : Register}

theorem mentioned_append (before after : List (Handle × Access)) :
    mentioned (before ++ after) = mentioned before ++ mentioned after :=
  List.filterMap_append

theorem mentioned_reg (r : Register) (access : Access) : mentioned [(.reg r, access)] = [r] := rfl

theorem mentioned_invalid (access : Access) : mentioned [(.invalid, access)] = [] := rfl

theorem mem_accessesTo_iff : access ∈ accessesTo calls r ↔ (.reg r, access) ∈ calls := by
  simp [accessesTo]

theorem mem_mentioned_iff : r ∈ mentioned calls ↔ ∃ access, (.reg r, access) ∈ calls := by
  simp only [mentioned, List.mem_filterMap]
  constructor
  · rintro ⟨⟨h, access⟩, hmem, hregister⟩
    cases h with
    | reg s =>
      obtain rfl := Option.some.inj hregister
      exact ⟨access, hmem⟩
    | invalid => exact absurd hregister (by simp [Handle.register?])
  · rintro ⟨access, hmem⟩
    exact ⟨_, hmem, rfl⟩

theorem accessesTo_ne_nil (hmem : r ∈ mentioned calls) : accessesTo calls r ≠ [] := by
  obtain ⟨access, hcall⟩ := mem_mentioned_iff.1 hmem
  exact List.ne_nil_of_mem (mem_accessesTo_iff.2 hcall)

theorem accessesTo_eq_nil (hmem : r ∉ mentioned calls) : accessesTo calls r = [] := by
  refine List.eq_nil_iff_forall_not_mem.2 fun access haccess => hmem ?_
  exact mem_mentioned_iff.2 ⟨access, mem_accessesTo_iff.1 haccess⟩

/-- An access to a register comes behind its earlier ones. -/
theorem accessesTo_concat_self (calls : List (Handle × Access)) (r : Register) (access : Access) :
    accessesTo (calls ++ [(.reg r, access)]) r = accessesTo calls r ++ [access] := by
  simp [accessesTo]

theorem accessesTo_concat_of_ne (calls : List (Handle × Access)) (hne : h ≠ .reg r)
    (access : Access) : accessesTo (calls ++ [(h, access)]) r = accessesTo calls r := by
  simp [accessesTo, hne]

/-! ## What is recorded when one more access is made -/

/-- A register that was mentioned before takes no new place. -/
theorem recorded_concat_of_mem (hmem : r ∈ mentioned calls) (access : Access) :
    recorded (calls ++ [(.reg r, access)]) = recorded calls := by
  rw [recorded, mentioned_append, mentioned_reg, RegisterTable.firstDistinct_concat_of_mem hmem]
  rfl

/-- A register that was not recorded takes the next place, if there is one. -/
theorem recorded_concat_of_room (fresh : r ∉ recorded calls)
    (room : (recorded calls).length < capacity) (access : Access) :
    recorded (calls ++ [(.reg r, access)]) = recorded calls ++ [r] := by
  rw [recorded, mentioned_append, mentioned_reg]
  exact RegisterTable.firstDistinct_concat_of_room fresh room

/-- Where there is no place left, no register is recorded any more. -/
theorem recorded_concat_of_full
    (full : ¬ (recorded calls).length < capacity) (r : Register) (access : Access) :
    recorded (calls ++ [(.reg r, access)]) = recorded calls := by
  rw [recorded, mentioned_append, mentioned_reg]
  exact RegisterTable.firstDistinct_concat_of_full full

theorem recorded_concat_invalid (calls : List (Handle × Access)) (access : Access) :
    recorded (calls ++ [(.invalid, access)]) = recorded calls := by
  rw [recorded, mentioned_append, mentioned_invalid, List.append_nil]
  rfl

/-- A register with the access that stands for all of its accesses. -/
def summary (calls : List (Handle × Access)) (r : Register) : Register × Access :=
  (r, Access.combined (accessesTo calls r))

/-- An access leaves the summaries of other registers as they are. -/
theorem map_summary_concat (hother : ∀ s ∈ recorded calls, h ≠ .reg s) (access : Access) :
    (recorded calls).map (summary (calls ++ [(h, access)])) =
      (recorded calls).map (summary calls) := by
  refine List.map_congr_left fun s hs => ?_
  rw [summary, accessesTo_concat_of_ne calls (hother s hs)]
  rfl

/-- An access of a register that has been mentioned is merged into its summary. -/
theorem summary_concat_self (hmem : r ∈ mentioned calls) (access : Access) :
    summary (calls ++ [(.reg r, access)]) r = (r, (summary calls r).2.merge access) := by
  rw [summary, accessesTo_concat_self, Access.combined_concat (accessesTo_ne_nil hmem)]
  rfl

theorem summary_concat_fresh (hmem : r ∉ mentioned calls) (access : Access) :
    summary (calls ++ [(.reg r, access)]) r = (r, access) := by
  rw [summary, accessesTo_concat_self, accessesTo_eq_nil hmem, List.nil_append,
    Access.combined_singleton]

/-- An access of a register that has been mentioned changes the summary of that one only. -/
theorem map_summary_concat_self (hmem : r ∈ mentioned calls) (access : Access) :
    (recorded calls).map (summary (calls ++ [(.reg r, access)])) =
      ((recorded calls).map (summary calls)).map fun entry =>
        if entry.1 = r then (r, (summary calls r).2.merge access) else entry := by
  rw [List.map_map]
  refine List.map_congr_left fun s _ => ?_
  by_cases hs : s = r
  · subst hs
    rw [summary_concat_self hmem]
    exact (if_pos rfl).symm
  · have hne : Handle.reg r ≠ .reg s := fun heq => hs (Handle.reg.inj heq).symm
    rw [summary, accessesTo_concat_of_ne calls hne]
    exact (if_neg hs).symm

/-! ## What the table holds -/

theorem tryAdd_of_ok {usage next : Usage} (houtcome : (usage.add h access).outcome = .ok next) :
    usage.tryAdd h access = next := by
  simp only [tryAdd, houtcome]

/-- A refused access leaves the table as it was. -/
theorem tryAdd_of_error {usage : Usage} {e : UsageError}
    (houtcome : (usage.add h access).outcome = .error e) : usage.tryAdd h access = usage := by
  simp only [tryAdd, houtcome]

theorem afterAttempts_concat (calls : List (Handle × Access)) (h : Handle) (access : Access) :
    afterAttempts (calls ++ [(h, access)]) = (afterAttempts calls).tryAdd h access := by
  simp [afterAttempts]

theorem registers_of_entries {usage : Usage} {registers : List Register}
    (hentries : usage.entries = registers.map (summary calls)) : usage.registers = registers := by
  rw [RegisterTable.registers, hentries, List.map_map]
  exact List.map_id _

/-- An attempt keeps the table a summary of the accesses that were attempted. -/
theorem entries_tryAdd {usage : Usage}
    (hentries : usage.entries = (recorded calls).map (summary calls)) (h : Handle)
    (access : Access) :
    (usage.tryAdd h access).entries =
      (recorded (calls ++ [(h, access)])).map (summary (calls ++ [(h, access)])) := by
  have hregisters := registers_of_entries hentries
  have hsize : usage.size = (recorded calls).length := by
    rw [← RegisterTable.length_registers, hregisters]
  -- The access is merged, opens an entry, or is refused since the table is full or there is no
  -- register; only in the first case is the register among those of the table.
  rcases usage.add_cases h access with ⟨r, old, rfl, found, houtcome⟩ |
    ⟨r, fresh, room, rfl, houtcome⟩ | ⟨r, rfl, fresh, full, houtcome⟩ | ⟨rfl, houtcome⟩
  · have hmem := RegisterTable.find?_eq_some_iff.1 found
    rw [hentries, List.mem_map] at hmem
    obtain ⟨s, hs, heq⟩ := hmem
    obtain ⟨rfl, rfl⟩ := Prod.mk.inj heq
    have hmentioned := RegisterTable.mem_of_mem_firstDistinct hs
    rw [tryAdd_of_ok houtcome, RegisterTable.entries_set, hentries,
      recorded_concat_of_mem hmentioned, map_summary_concat_self hmentioned]
    rfl
  · have habsent := hregisters ▸ RegisterTable.find?_eq_none_iff.1 fresh
    have hmentioned := RegisterTable.not_mem_of_room habsent (hsize ▸ room)
    rw [tryAdd_of_ok houtcome, RegisterTable.entries_push, hentries,
      recorded_concat_of_room habsent (hsize ▸ room), List.map_append, List.map_singleton,
      summary_concat_fresh hmentioned, map_summary_concat]
    exact fun s hs heq => habsent (Handle.reg.inj heq ▸ hs)
  · have habsent := hregisters ▸ RegisterTable.find?_eq_none_iff.1 fresh
    rw [tryAdd_of_error houtcome, hentries, recorded_concat_of_full (hsize ▸ full),
      map_summary_concat]
    exact fun s hs heq => habsent (Handle.reg.inj heq ▸ hs)
  · rw [tryAdd_of_error houtcome, hentries, recorded_concat_invalid, map_summary_concat]
    exact fun s _ => nofun

/-- After a run, the table holds the first distinct registers, each with the access that stands
for all of its accesses. -/
theorem entries_afterAttempts (calls : List (Handle × Access)) :
    (afterAttempts calls).entries = (recorded calls).map (summary calls) := by
  induction calls using List.reverseRecOn with
  | nil => rfl
  | append_singleton calls call ih =>
    rw [afterAttempts_concat]
    exact entries_tryAdd ih call.1 call.2

theorem registers_afterAttempts (calls : List (Handle × Access)) :
    (afterAttempts calls).registers = recorded calls :=
  registers_of_entries (entries_afterAttempts calls)

theorem size_afterAttempts (calls : List (Handle × Access)) :
    (afterAttempts calls).size = (recorded calls).length := by
  rw [← RegisterTable.length_registers, registers_afterAttempts]

/-- The table has the combined accesses of the registers that are recorded. -/
theorem access?_afterAttempts_eq_some_iff :
    (afterAttempts calls).access? h = some access ↔
      ∃ r ∈ recorded calls, h = .reg r ∧ Access.combined (accessesTo calls r) = access := by
  cases h with
  | invalid => simp [access?]
  | reg r =>
    rw [access?, RegisterTable.find?_eq_some_iff, entries_afterAttempts, List.mem_map]
    constructor
    · rintro ⟨s, hs, heq⟩
      obtain ⟨rfl, rfl⟩ := Prod.mk.inj heq
      exact ⟨s, hs, rfl, rfl⟩
    · rintro ⟨s, hs, heq, rfl⟩
      obtain rfl := Handle.reg.inj heq
      exact ⟨r, hs, rfl⟩

theorem access?_afterAttempts_eq_none_iff :
    (afterAttempts calls).access? h = none ↔ ∀ r ∈ recorded calls, h ≠ .reg r := by
  rw [Option.eq_none_iff_forall_ne_some]
  simp only [ne_eq, access?_afterAttempts_eq_some_iff, not_exists, not_and]
  exact ⟨fun hnone r hr heq => hnone _ r hr heq rfl, fun hnone _ r hr heq _ => hnone r hr heq⟩

/-- What is asked of the recorded access of a handle is asked of the access that stands for all of
its accesses. -/
theorem getD_map_access?_afterAttempts (f : Access → Bool) :
    (((afterAttempts calls).access? h).map f).getD false = true ↔
      ∃ r ∈ recorded calls, h = .reg r ∧ f (Access.combined (accessesTo calls r)) = true := by
  cases hfound : (afterAttempts calls).access? h with
  | none =>
    refine iff_of_false Bool.false_ne_true ?_
    rintro ⟨r, hr, heq, -⟩
    exact access?_afterAttempts_eq_none_iff.1 hfound r hr heq
  | some access =>
    obtain ⟨r, hr, rfl, rfl⟩ := access?_afterAttempts_eq_some_iff.1 hfound
    constructor
    · exact fun hf => ⟨r, hr, rfl, hf⟩
    · rintro ⟨s, -, heq, hf⟩
      obtain rfl := Handle.reg.inj heq
      exact hf

/-! ## Which accesses are refused -/

/-- An access is recorded if its register is then among the first distinct ones. -/
theorem exists_ok_concat_iff :
    (∃ next, ((afterAttempts before).add h access).outcome = .ok next) ↔
      ∃ r ∈ recorded (before ++ [(h, access)]), h = .reg r := by
  rcases (afterAttempts before).add_cases h access with ⟨r, old, rfl, found, houtcome⟩ |
    ⟨r, fresh, room, rfl, houtcome⟩ | ⟨r, rfl, fresh, full, houtcome⟩ | ⟨rfl, houtcome⟩
  · obtain ⟨s, hs, heq, -⟩ := access?_afterAttempts_eq_some_iff.1
      (show (afterAttempts before).access? (.reg r) = some old from found)
    obtain rfl := Handle.reg.inj heq
    refine iff_of_true ⟨_, houtcome⟩ ⟨r, ?_, rfl⟩
    rwa [recorded_concat_of_mem (RegisterTable.mem_of_mem_firstDistinct hs)]
  · rw [RegisterTable.find?_eq_none_iff, registers_afterAttempts] at fresh
    rw [size_afterAttempts] at room
    refine iff_of_true ⟨_, houtcome⟩ ⟨r, ?_, rfl⟩
    rw [recorded_concat_of_room fresh room]
    exact List.mem_append_right _ (List.mem_singleton_self r)
  · rw [RegisterTable.find?_eq_none_iff, registers_afterAttempts] at fresh
    rw [size_afterAttempts] at full
    refine iff_of_false (by simp [houtcome]) ?_
    rintro ⟨s, hs, heq⟩
    obtain rfl := Handle.reg.inj heq
    exact fresh (recorded_concat_of_full full r access ▸ hs)
  · exact iff_of_false (by simp [houtcome]) (by simp)

/-- Whether an access is recorded is settled by the first distinct registers of the whole run. -/
theorem exists_ok_iff (before : List (Handle × Access)) (h : Handle) (access : Access)
    (after : List (Handle × Access)) :
    (∃ next, ((afterAttempts before).add h access).outcome = .ok next) ↔
      ∃ r ∈ recorded (before ++ (h, access) :: after), h = .reg r := by
  rw [exists_ok_concat_iff]
  refine exists_congr fun r => and_congr_left ?_
  rintro rfl
  have hsplit : before ++ (.reg r, access) :: after = before ++ [(.reg r, access)] ++ after := by
    simp
  have hmem : r ∈ mentioned (before ++ [(.reg r, access)]) := by
    simp [mentioned_append, mentioned_reg]
  rw [hsplit, recorded, recorded, mentioned_append _ after,
    RegisterTable.mem_firstDistinct_append_iff hmem]

/-- An access is refused exactly if its handle is invalid or its register is not recorded in the
end. -/
theorem exists_error_iff :
    (∃ e, ((afterAttempts before).add h access).outcome = .error e) ↔
      h = .invalid ∨ ∃ r, h = .reg r ∧ r ∉ recorded (before ++ (h, access) :: after) := by
  have hok := exists_ok_iff before h access after
  cases houtcome : ((afterAttempts before).add h access).outcome with
  | ok next =>
    obtain ⟨r, hr, rfl⟩ := hok.1 ⟨next, houtcome⟩
    simpa using hr
  | error e =>
    refine iff_of_true ⟨e, rfl⟩ ?_
    cases h with
    | invalid => exact .inl rfl
    | reg r =>
      refine .inr ⟨r, rfl, fun hr => ?_⟩
      obtain ⟨next, hnext⟩ := hok.2 ⟨r, hr, rfl⟩
      exact absurd (hnext.symm.trans houtcome) (by simp)

/-- The accesses of a run that are recorded are those of the first distinct registers. -/
theorem accepted_afterAttempts (before after : List (Handle × Access)) :
    accepted (afterAttempts before) after =
      after.filter fun call => ∃ r ∈ recorded (before ++ after), call.1 = .reg r := by
  induction after generalizing before with
  | nil => rfl
  | cons call after ih =>
    obtain ⟨h, access⟩ := call
    have hsplit : before ++ (h, access) :: after = before ++ [(h, access)] ++ after := by simp
    have hok := exists_ok_iff before h access after
    have hlater := ih (before ++ [(h, access)])
    rw [← hsplit, afterAttempts_concat] at hlater
    rw [accepted]
    cases houtcome : ((afterAttempts before).add h access).outcome with
    | ok next =>
      rw [tryAdd_of_ok houtcome] at hlater
      rw [List.filter_cons_of_pos (by simpa using hok.1 ⟨next, houtcome⟩)]
      exact congrArg _ hlater
    | error e =>
      rw [tryAdd_of_error houtcome] at hlater
      rw [List.filter_cons_of_neg]
      · exact hlater
      · simpa [houtcome] using hok

/-! ## The order of the accesses -/

theorem mem_recorded_iff_of_few
    (few : (mentioned calls).eraseDups.length ≤ capacity) :
    r ∈ recorded calls ↔ r ∈ mentioned calls := by
  rw [recorded, RegisterTable.firstDistinct, List.take_of_length_le few, List.mem_eraseDups]

section Permuted

variable {other : List (Handle × Access)} (perm : other.Perm calls)
  (few : (mentioned calls).eraseDups.length ≤ capacity)

include perm few

theorem mem_recorded_iff_of_perm : r ∈ recorded other ↔ r ∈ recorded calls := by
  have hmentioned : (mentioned other).Perm (mentioned calls) := perm.filterMap _
  have hfew : (mentioned other).eraseDups.length ≤ capacity := by
    rwa [RegisterTable.length_eraseDups_eq_of_perm hmentioned]
  rw [mem_recorded_iff_of_few few, mem_recorded_iff_of_few hfew]
  exact hmentioned.mem_iff

/-- For few registers, what the table says of each does not depend on the order of the accesses. -/
theorem access?_afterAttempts_of_perm (h : Handle) :
    (afterAttempts other).access? h = (afterAttempts calls).access? h := by
  have hcombined : ∀ r,
      Access.combined (accessesTo other r) = Access.combined (accessesTo calls r) := fun r =>
    Access.combined_perm ((perm.filter _).map _)
  refine Option.ext fun access => ?_
  simp only [access?_afterAttempts_eq_some_iff, hcombined, mem_recorded_iff_of_perm perm few]

theorem accepted_perm :
    (accepted RegisterTable.empty other).Perm (accepted RegisterTable.empty calls) := by
  have hother := accepted_afterAttempts [] other
  have hcalls := accepted_afterAttempts [] calls
  simp only [List.nil_append, mem_recorded_iff_of_perm perm few] at hother hcalls
  rw [show RegisterTable.empty = afterAttempts [] from rfl, hother, hcalls]
  exact perm.filter _

end Permuted

/-! ## Runs as a whole -/

/-- After any run of attempts the table holds the first distinct registers that are mentioned, in
order and each once, with the access that stands for all accesses of the register. An access is
refused if it is of no register, or of a register that is not among those first ones, and then the
table stays; a register that is recorded has its accesses merged, also in a full table. So what the
table says about reads and writes can be read off the accesses, and if there is room for all
registers, neither what it says nor which accesses are recorded depends on their order. -/
theorem afterAttempts_holds_first_distinct (calls : List (Handle × Access)) :
    (afterAttempts calls).entries =
        (recorded calls).map (fun r => (r, Access.combined (accessesTo calls r))) ∧
      (recorded calls).Nodup ∧
      (∀ before h access after, calls = before ++ (h, access) :: after →
        ((∃ e, ((afterAttempts before).add h access).outcome = .error e) ↔
            h = .invalid ∨ ∃ r, h = .reg r ∧ r ∉ recorded calls) ∧
          ((∃ e, ((afterAttempts before).add h access).outcome = .error e) →
            afterAttempts (before ++ [(h, access)]) = afterAttempts before)) ∧
      (∀ r old access, (afterAttempts calls).access? (.reg r) = some old →
        ((afterAttempts calls).add (.reg r) access).outcome =
          .ok ((afterAttempts calls).set r (old.merge access))) ∧
      (∀ h, (afterAttempts calls).reads h = true ↔
        ∃ r ∈ recorded calls, h = .reg r ∧
          ∃ access, (.reg r, access) ∈ calls ∧ (access = .read ∨ access = .modify)) ∧
      (∀ h, (afterAttempts calls).writes h = true ↔
        ∃ r ∈ recorded calls, h = .reg r ∧
          ∃ access, (.reg r, access) ∈ calls ∧ (access = .write ∨ access = .modify)) ∧
      (∀ h, (afterAttempts calls).access? h = none ↔ ∀ r ∈ recorded calls, h ≠ .reg r) ∧
      ∀ other, other.Perm calls → (mentioned calls).eraseDups.length ≤ capacity →
        (∀ h, (afterAttempts other).access? h = (afterAttempts calls).access? h) ∧
          (accepted RegisterTable.empty other).Perm (accepted RegisterTable.empty calls) := by
  refine ⟨entries_afterAttempts calls, ?_, ?_, ?_, ?_, ?_, ?_, ?_⟩
  · rw [← registers_afterAttempts]
    exact RegisterTable.nodup_registers _
  · rintro before h access after rfl
    refine ⟨exists_error_iff, ?_⟩
    rintro ⟨e, houtcome⟩
    rw [afterAttempts_concat, tryAdd_of_error houtcome]
  · exact fun r old access found => outcome_addRegister_of_some found
  · intro h
    rw [reads, getD_map_access?_afterAttempts]
    refine exists_congr fun r => and_congr_right fun hr => and_congr_right fun _ => ?_
    rw [Access.reads_combined_iff (accessesTo_ne_nil (RegisterTable.mem_of_mem_firstDistinct hr))]
    simp only [mem_accessesTo_iff]
  · intro h
    rw [writes, getD_map_access?_afterAttempts]
    refine exists_congr fun r => and_congr_right fun _ => and_congr_right fun _ => ?_
    rw [Access.writes_combined_iff]
    simp only [mem_accessesTo_iff]
  · exact fun h => access?_afterAttempts_eq_none_iff
  · exact fun other perm few => ⟨access?_afterAttempts_of_perm perm few, accepted_perm perm few⟩

/-- A fifth register is refused, and the full table goes on merging accesses of its own. -/
example :
    let r (i : Fin 5) : Handle := .reg ⟨.int64, true, i, Nat.lt_trans i.isLt (by decide)⟩
    (afterAttempts [(r 0, .read), (r 1, .write), (.invalid, .read), (r 2, .read), (r 3, .modify),
      (r 4, .read), (r 1, .write), (r 0, .write)]).entries.map Prod.snd =
        [.modify, .write, .read, .modify] := by
  decide

end Usage

end RegisterMapping
