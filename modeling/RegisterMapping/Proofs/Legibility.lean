import RegisterMapping.Instr.Text
import RegisterMapping.Proofs.Listing.Scan

/-!
# Texts that tell values apart

Different handles, tables and instructions have different texts (`texts_tell_values_apart`). A text
is put together from the texts of parts, of different lengths, so it has to be clear where a part
ends. `Legible` says more than that the texts differ: the value can be told from a text of which
only the front is its own, if no word runs on into what follows, and so can what follows. This goes
from parts to pairs of them (`Legible.pair`), to lists (`Legible.intercalate`) and to what stands in
braces or behind a mnemonic.
-/

set_option autoImplicit false

namespace RegisterMapping

/-! ## Legible texts -/

/-- The value can be told from a text that starts with its own, if no word runs on there, and then
what follows can be told too. -/
structure Legible {α : Type} (write : α → String) : Prop where
  append_inj : ∀ {a b : α} {x y : List Char}, WordEnds x → WordEnds y →
    (write a).toList ++ x = (write b).toList ++ y → a = b ∧ x = y

/-- A text that may follow a list: it goes on with no word, and not with a comma. -/
def ListEnds (rest : List Char) : Prop := ∀ c ∈ rest.head?, isWordChar c = false ∧ c ≠ ','

theorem ListEnds.wordEnds {rest : List Char} (h : ListEnds rest) : WordEnds rest :=
  fun c hc => (h c hc).1

/-- Where words end, they are the same if the texts are. -/
theorem append_eq_append_of_words {a b x y : List Char} (ha : a.all isWordChar = true)
    (hb : b.all isWordChar = true) (hx : WordEnds x) (hy : WordEnds y) (h : a ++ x = b ++ y) :
    a = b ∧ x = y := by
  have hlength : a.length = b.length := by
    rw [← frontLength_append ha hx, ← frontLength_append hb hy, h]
  exact List.append_inj h hlength

namespace Legible

variable {α β : Type} {write : α → String}

/-- Words with the same sign in front of them. -/
theorem of_words (sign : List Char) (hinjective : Function.Injective write)
    (hwords : ∀ a, ∃ word, (write a).toList = sign ++ word ∧ word.all isWordChar = true) :
    Legible write := by
  refine ⟨fun {a b x y} hx hy heq => ?_⟩
  obtain ⟨v, hv, hvWord⟩ := hwords a
  obtain ⟨w, hw, hwWord⟩ := hwords b
  rw [hv, hw, List.append_assoc, List.append_assoc, List.append_right_inj] at heq
  obtain ⟨rfl, hrest⟩ := append_eq_append_of_words hvWord hwWord hx hy heq
  exact ⟨hinjective (String.toList_inj.1 (hv.trans hw.symm)), hrest⟩

/-- Two texts with a separator between them that ends words. -/
theorem pair {write' : β → String} (h : Legible write) (h' : Legible write') {separator : String}
    {c : Char} {cs : List Char} (hseparator : separator.toList = c :: cs)
    (hc : isWordChar c = false) :
    Legible fun both : α × β => write both.1 ++ separator ++ write' both.2 := by
  refine ⟨fun {a b x y} hx hy heq => ?_⟩
  simp only [String.toList_append, hseparator, List.append_assoc, List.cons_append] at heq
  obtain ⟨hfst, hrest⟩ := h.append_inj (wordEnds_cons hc) (wordEnds_cons hc) heq
  obtain ⟨hsnd, hxy⟩ := h'.append_inj hx hy (List.append_cancel_left (List.cons.inj hrest).2)
  exact ⟨Prod.ext hfst hsnd, hxy⟩

/-- Texts with commas between them. -/
theorem intercalate (h : Legible write) {as bs : List α} (ha : as ≠ []) (hb : bs ≠ [])
    {x y : List Char} (hx : ListEnds x) (hy : ListEnds y)
    (heq : (", ".intercalate (as.map write)).toList ++ x =
      (", ".intercalate (bs.map write)).toList ++ y) : as = bs ∧ x = y := by
  have hone (a : α) (rest : List Char) :
      (", ".intercalate ([a].map write)).toList ++ rest = (write a).toList ++ rest := by simp
  have hmore (a b : α) (later : List α) (rest : List Char) :
      (", ".intercalate ((a :: b :: later).map write)).toList ++ rest = (write a).toList ++
        ',' :: ' ' :: ((", ".intercalate ((b :: later).map write)).toList ++ rest) := by simp
  have hcomma {rest : List Char} (hrest : ListEnds rest) (later : List Char) :
      rest ≠ ',' :: later := by
    rintro rfl
    exact (hrest ',' rfl).2 rfl
  induction as generalizing bs with
  | nil => exact absurd rfl ha
  | cons a as ih =>
    obtain ⟨b, bs, rfl⟩ := List.exists_cons_of_ne_nil hb
    cases as with
    | nil =>
      rw [hone] at heq
      cases bs with
      | nil =>
        rw [hone] at heq
        obtain ⟨rfl, hxy⟩ := h.append_inj hx.wordEnds hy.wordEnds heq
        exact ⟨rfl, hxy⟩
      | cons b' bs =>
        rw [hmore] at heq
        exact absurd (h.append_inj hx.wordEnds (wordEnds_cons rfl) heq).2 (hcomma hx _)
    | cons a' as =>
      rw [hmore] at heq
      cases bs with
      | nil =>
        rw [hone] at heq
        exact absurd (h.append_inj (wordEnds_cons rfl) hy.wordEnds heq).2.symm (hcomma hy _)
      | cons b' bs =>
        rw [hmore] at heq
        obtain ⟨rfl, hrest⟩ := h.append_inj (wordEnds_cons rfl) (wordEnds_cons rfl) heq
        obtain ⟨hlater, hxy⟩ := ih (List.cons_ne_nil _ _) (List.cons_ne_nil _ _)
          (List.cons.inj (List.cons.inj hrest).2).2
        exact ⟨congrArg _ hlater, hxy⟩

end Legible

/-! ## Words -/

theorem Handle.text_injective : Function.Injective Handle.text := by
  have hother (r : Register) : r.text ≠ "%INVALID" := by
    intro heq
    have hparse := r.parse_text
    rw [heq] at hparse
    cases hparse
  intro a b heq
  cases a with
  | reg r =>
    cases b with
    | reg s =>
      have hparse := r.parse_text
      rw [show r.text = s.text from heq, s.parse_text] at hparse
      exact congrArg reg (Except.ok.inj hparse).symm
    | invalid => exact absurd heq (hother r)
  | invalid =>
    cases b with
    | reg s => exact absurd heq.symm (hother s)
    | invalid => rfl

theorem Handle.legible_text : Legible Handle.text := by
  refine .of_words ['%'] text_injective fun h => ?_
  cases h with
  | reg r => exact ⟨r.tail, r.toList_text, r.all_isWordChar_tail⟩
  | invalid => exact ⟨"INVALID".toList, by decide, by decide⟩

/-- A register is written as a word behind a percent sign. -/
theorem Register.legible_text : Legible Register.text := by
  refine ⟨fun {r s x y} hx hy heq => ?_⟩
  obtain ⟨hsame, hxy⟩ := Handle.legible_text.append_inj (a := .reg r) (b := .reg s) hx hy heq
  exact ⟨Handle.reg.inj hsame, hxy⟩

theorem Access.legible_text : Legible Access.text := by
  refine .of_words [] ?_ fun access => ⟨access.text.toList, rfl, ?_⟩
  · intro a b
    cases a <;> cases b <;> decide
  · cases access <;> decide

theorem Mnemonic.legible_text : Legible Mnemonic.text := by
  refine .of_words [] ?_ fun mnemonic => ?_
  · intro a b heq
    have hread := ofText?_text a
    rw [heq, ofText?_text] at hread
    exact (Option.some.inj hread).symm
  · obtain ⟨c, cs, htext, hc, hcs⟩ := mnemonic.exists_letters
    refine ⟨c :: cs, htext, Bool.and_eq_true_iff.2 ⟨?_, hcs⟩⟩
    simp [isWordChar, Char.isAlphanum, hc]

/-! ## Numbers -/

/-- Digits can be told from what follows them. -/
theorem toDigits_append_inj {m n : Nat} {x y : List Char} (hx : WordEnds x) (hy : WordEnds y)
    (h : Nat.toDigits 10 m ++ x = Nat.toDigits 10 n ++ y) : m = n ∧ x = y := by
  obtain ⟨hdigits, hxy⟩ := append_eq_append_of_words (all_isWordChar_toDigits m)
    (all_isWordChar_toDigits n) hx hy h
  exact ⟨by rw [← decimalValue_toDigits m, hdigits, decimalValue_toDigits], hxy⟩

/-- Digits do not start with a sign. -/
theorem toDigits_append_ne_minus (n : Nat) (x y : List Char) :
    Nat.toDigits 10 n ++ x ≠ '-' :: y := by
  obtain ⟨c, cs, htext, hc, -⟩ := exists_toDigits_eq_cons n
  rw [htext]
  intro heq
  obtain rfl := (List.cons.inj heq).1
  cases hc

/-- The minus sign tells negative numbers from the others, and the digits end with the word. -/
theorem legible_toString_int : Legible (toString : Int → String) := by
  refine ⟨fun {a b x y} hx hy heq => ?_⟩
  rcases Int.lt_or_le a 0 with ha | ha
  · rw [toList_toString_of_neg ha] at heq
    rcases Int.lt_or_le b 0 with hb | hb
    · rw [toList_toString_of_neg hb] at heq
      obtain ⟨habs, hxy⟩ := toDigits_append_inj hx hy (List.cons.inj heq).2
      exact ⟨by omega, hxy⟩
    · rw [toList_toString_of_nonneg hb] at heq
      exact absurd heq.symm (toDigits_append_ne_minus _ _ _)
  · rw [toList_toString_of_nonneg ha] at heq
    rcases Int.lt_or_le b 0 with hb | hb
    · rw [toList_toString_of_neg hb] at heq
      exact absurd heq (toDigits_append_ne_minus _ _ _)
    · rw [toList_toString_of_nonneg hb] at heq
      obtain ⟨habs, hxy⟩ := toDigits_append_inj hx hy heq
      exact ⟨by omega, hxy⟩

/-! ## Memory operands -/

namespace Address

/-- What follows the base: its distance, if there is one, and the bracket. -/
def closing (offset : Int64) : List Char :=
  if offset.toInt = 0 then
    [']']
  else
    ' ' :: (if offset.toInt < 0 then '-' else '+') :: ' ' ::
      (Nat.toDigits 10 offset.toInt.natAbs ++ [']'])

theorem toList_textWith (spell : Handle → String) (address : Address) :
    (address.textWith spell).toList =
      '[' :: ((spell address.base).toList ++ closing address.offset) := by
  rw [textWith, closing]
  by_cases hzero : address.offset.toInt = 0
  · simp [hzero]
  · by_cases hneg : address.offset.toInt < 0
    · simp [hzero, hneg]
    · simp [hzero, hneg]

theorem wordEnds_closing (offset : Int64) (rest : List Char) :
    WordEnds (closing offset ++ rest) := by
  rw [closing]
  split
  · exact wordEnds_cons rfl
  · exact wordEnds_cons rfl

/-- The offset can be told from what follows the base, and so can what follows the bracket. -/
theorem closing_append_inj {m n : Int64} {x y : List Char} (h : closing m ++ x = closing n ++ y) :
    m = n ∧ x = y := by
  have hbracket {rest : List Char} : WordEnds (']' :: rest) := wordEnds_cons rfl
  rw [closing, closing] at h
  by_cases hm : m.toInt = 0
  · rw [if_pos hm] at h
    by_cases hn : n.toInt = 0
    · rw [if_pos hn] at h
      exact ⟨Int64.toInt_inj.1 (hm.trans hn.symm), (List.cons.inj h).2⟩
    · rw [if_neg hn] at h
      exact absurd (List.cons.inj h).1 (by decide)
  · rw [if_neg hm] at h
    by_cases hn : n.toInt = 0
    · rw [if_pos hn] at h
      exact absurd (List.cons.inj h).1 (by decide)
    · rw [if_neg hn] at h
      simp only [List.cons_append, List.append_assoc, List.cons.injEq, true_and] at h
      obtain ⟨hsign, hdigits⟩ := h
      obtain ⟨habs, hrest⟩ := toDigits_append_inj hbracket hbracket hdigits
      -- The sign tells which of the two numbers of this absolute value it is.
      have hneg : m.toInt < 0 ↔ n.toInt < 0 := by grind
      exact ⟨Int64.toInt_inj.1 (by omega), (List.cons.inj hrest).2⟩

theorem legible_textWith : Legible (textWith Handle.text) := by
  refine ⟨fun {a b x y} _ _ heq => ?_⟩
  obtain ⟨base, offset⟩ := a
  obtain ⟨base', offset'⟩ := b
  simp only [toList_textWith, List.cons_append, List.append_assoc, List.cons.injEq, true_and] at heq
  obtain ⟨rfl, hclosing⟩ :=
    Handle.legible_text.append_inj (wordEnds_closing _ _) (wordEnds_closing _ _) heq
  obtain ⟨rfl, hxy⟩ := closing_append_inj hclosing
  exact ⟨rfl, hxy⟩

end Address

/-! ## Instructions -/

/-- What can stand behind a mnemonic. -/
inductive WrittenOperand where
  | register (h : Handle)
  | constant (value : Int64)
  | memory (address : Address)

namespace WrittenOperand

/-- How it is written. -/
def text : WrittenOperand → String
  | register h => h.text
  | constant value => toString value.toInt
  | memory address => address.textWith Handle.text

/-- The first character tells what stands there. -/
def Opens (c : Char) : WrittenOperand → Prop
  | register _ => c = '%'
  | constant _ => c = '-' ∨ c.isDigit = true
  | memory _ => c = '['

/-- Every operand opens with the character that its kind asks for. -/
theorem exists_opens (operand : WrittenOperand) :
    ∃ c cs, operand.text.toList = c :: cs ∧ operand.Opens c := by
  cases operand with
  | register h =>
    cases h with
    | reg r => exact ⟨'%', r.tail, r.toList_text, rfl⟩
    | invalid => exact ⟨'%', "INVALID".toList, by decide, rfl⟩
  | constant value =>
    rcases Int.lt_or_le value.toInt 0 with hneg | hnonneg
    · exact ⟨'-', _, toList_toString_of_neg hneg, .inl rfl⟩
    · obtain ⟨c, cs, htext, hc, -⟩ := exists_toDigits_eq_cons value.toInt.natAbs
      exact ⟨c, cs, (toList_toString_of_nonneg hnonneg).trans htext, .inr hc⟩
  | memory address => exact ⟨'[', _, address.toList_textWith Handle.text, rfl⟩

theorem legible_text : Legible text := by
  refine ⟨fun {a b x y} hx hy heq => ?_⟩
  -- Both texts open with the same character, so they are written for operands of one kind.
  have hopens : ∃ c, a.Opens c ∧ b.Opens c := by
    obtain ⟨c, cs, ha, hca⟩ := a.exists_opens
    obtain ⟨d, ds, hb, hdb⟩ := b.exists_opens
    rw [ha, hb, List.cons_append, List.cons_append] at heq
    exact ⟨c, hca, (List.cons.inj heq).1 ▸ hdb⟩
  obtain ⟨c, hca, hcb⟩ := hopens
  cases a with
  | register h =>
    obtain rfl : c = '%' := hca
    cases b with
    | register k =>
      obtain ⟨rfl, hxy⟩ := Handle.legible_text.append_inj hx hy heq
      exact ⟨rfl, hxy⟩
    | constant value => simp [Opens, Char.isDigit] at hcb
    | memory address => simp [Opens] at hcb
  | constant value =>
    cases b with
    | register k =>
      obtain rfl : c = '%' := hcb
      simp [Opens, Char.isDigit] at hca
    | constant value' =>
      obtain ⟨hvalue, hxy⟩ := legible_toString_int.append_inj hx hy heq
      exact ⟨congrArg constant (Int64.toInt_inj.1 hvalue), hxy⟩
    | memory address =>
      obtain rfl : c = '[' := hcb
      simp [Opens, Char.isDigit] at hca
  | memory address =>
    obtain rfl : c = '[' := hca
    cases b with
    | register k => simp [Opens] at hcb
    | constant value => simp [Opens, Char.isDigit] at hcb
    | memory address' =>
      obtain ⟨rfl, hxy⟩ := Address.legible_textWith.append_inj hx hy heq
      exact ⟨rfl, hxy⟩

end WrittenOperand

namespace Instr

/-- What stands behind the mnemonic, in order. -/
def written : Instr → List WrittenOperand
  | .li dst imm => [.register dst, .constant imm]
  | .mov dst src => [.register dst, .register src]
  | .alu _ dst src => [.register dst, .register src]
  | .neg dst => [.register dst]
  | .ld dst address => [.register dst, .memory address]
  | .st src address => [.register src, .memory address]
  | .fma dst a b => [.register dst, .register a, .register b]
  | .cmp left right => [.register left, .register right]
  | .ret src => [.register src]

theorem text_eq (inst : Instr) :
    inst.text = inst.mnemonic.text ++ " " ++
      ", ".intercalate (inst.written.map WrittenOperand.text) := by
  cases inst <;> rfl

theorem written_ne_nil (inst : Instr) : inst.written ≠ [] := by
  cases inst <;> exact List.cons_ne_nil _ _

/-- An instruction is its mnemonic together with its operands as they are written. -/
theorem eq_of_written {a b : Instr} (hmnemonic : a.mnemonic = b.mnemonic)
    (hwritten : a.written = b.written) : a = b := by
  cases a <;> cases b <;> simp_all [mnemonic, written]

theorem text_injective : Function.Injective Instr.text := by
  intro a b heq
  have hlists : a.mnemonic.text.toList ++
        ' ' :: (", ".intercalate (a.written.map WrittenOperand.text)).toList =
      b.mnemonic.text.toList ++
        ' ' :: (", ".intercalate (b.written.map WrittenOperand.text)).toList := by
    simpa [text_eq] using congrArg String.toList heq
  obtain ⟨hmnemonic, hrest⟩ :=
    Mnemonic.legible_text.append_inj (wordEnds_cons rfl) (wordEnds_cons rfl) hlists
  have hends : ListEnds [] := by simp [ListEnds]
  have hwritten := WrittenOperand.legible_text.intercalate a.written_ne_nil b.written_ne_nil
    hends hends (by rw [(List.cons.inj hrest).2])
  exact eq_of_written hmnemonic hwritten.1

end Instr

/-! ## Tables -/

/-- If its entries can be told from their texts, a table can. -/
theorem RegisterTable.text_injective {capacity : Nat} {α : Type} {showEntry : Register × α → String}
    (h : Legible showEntry) :
    Function.Injective (RegisterTable.text showEntry : RegisterTable capacity α → String) := by
  have hempty {table : RegisterTable capacity α} (htable : table.entries = []) :
      (text showEntry table).toList = ['{', '}'] := by
    simp [text, isEmpty, htable]
  have hfilled {table : RegisterTable capacity α} (htable : table.entries ≠ []) :
      (text showEntry table).toList =
        '{' :: ' ' :: ((", ".intercalate (table.entries.map showEntry)).toList ++ [' ', '}']) := by
    rw [text, isEmpty, if_neg (by simpa using htable)]
    simp
  intro s t heq
  rw [ext_iff]
  replace heq := congrArg String.toList heq
  by_cases hs : s.entries = []
  · rw [hempty hs] at heq
    by_cases ht : t.entries = []
    · rw [hs, ht]
    · rw [hfilled ht] at heq
      simp at heq
  · rw [hfilled hs] at heq
    by_cases ht : t.entries = []
    · rw [hempty ht] at heq
      simp at heq
    · rw [hfilled ht] at heq
      have hends : ListEnds [' ', '}'] := by
        rintro _ ⟨⟩
        decide
      exact (h.intercalate hs ht hends hends (List.cons.inj (List.cons.inj heq).2).2).1

theorem Usage.text_injective : Function.Injective Usage.text :=
  RegisterTable.text_injective (Register.legible_text.pair Access.legible_text rfl rfl)

theorem Remap.text_injective : Function.Injective Remap.text := by
  have hentry : Legible fun entry : Register × Register =>
      entry.1.text ++ " -> " ++ entry.2.text :=
    Register.legible_text.pair Register.legible_text rfl rfl
  intro s t heq
  have htable : s.table = t.table := RegisterTable.text_injective hentry heq
  cases s
  cases htable
  rfl

/-- Values that differ have different texts: handles, the one for no register among them, usage
tables, replacement tables, and instructions with any operands and constants. -/
theorem texts_tell_values_apart :
    Function.Injective Handle.text ∧ Function.Injective Usage.text ∧
      Function.Injective Remap.text ∧ Function.Injective Instr.text :=
  ⟨Handle.text_injective, Usage.text_injective, Remap.text_injective, Instr.text_injective⟩

end RegisterMapping
