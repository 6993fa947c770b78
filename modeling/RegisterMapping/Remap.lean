import RegisterMapping.Log
import RegisterMapping.Table

/-!
# Register replacement

A `Remap` says which register takes the place of which in one instruction. A replacement is of
the class of the register that it replaces, and no register is replaced twice; both facts are part
of the type. Pairs are added one at a time, and a refused pair leaves the table as it was.
-/

set_option autoImplicit false

namespace RegisterMapping

/-- The most registers of one instruction that may be replaced. -/
def Remap.capacity : Nat := 4

/-- Replacements of a few registers by registers of the same class. -/
structure Remap where
  table : RegisterTable Remap.capacity Register
  classes_agree : ∀ pair ∈ table.entries, pair.1.cls = pair.2.cls
  deriving DecidableEq

namespace Remap

/-- The table that replaces nothing. -/
def empty : Remap := ⟨RegisterTable.empty, by simp⟩

instance : Inhabited Remap := ⟨empty⟩

/-- The pairs of replaced registers and replacements, in order. -/
def pairs (remap : Remap) : List (Register × Register) := remap.table.entries

/-- The text form of a replacement table. -/
def text (remap : Remap) : String :=
  RegisterTable.text (fun pair => pair.1.text ++ " -> " ++ pair.2.text) remap.table

end Remap

/-- Why a pair cannot be added to a replacement table. -/
inductive RemapError where
  | invalidHandle (replaced replacement : Handle) (table : Remap)
  | classMismatch (replaced replacement : Register)
  | remappedTwice (replaced existing replacement : Register)
  | overflow (replaced replacement : Register) (table : Remap)
  deriving DecidableEq

/-- What is said about a pair that cannot be added. -/
def RemapError.message : RemapError → String
  | invalidHandle replaced replacement table =>
    s!"cannot remap {replaced.text} to {replacement.text} in {table.text}"
  | classMismatch replaced replacement =>
    s!"cannot remap {replaced.text} to {replacement.text}: " ++
      s!"a {replacement.cls.text} register cannot hold a {replaced.cls.text} value"
  | remappedTwice replaced existing replacement =>
    s!"{replaced.text} remapped twice, to {existing.text} and to {replacement.text}"
  | overflow replaced replacement table =>
    s!"remap table overflow: cannot add {replaced.text} -> {replacement.text} to {table.text}, " ++
      s!"an instruction remaps at most {Remap.capacity} registers"

namespace Remap

/-- The replacement of what a handle holds, if there is one. -/
def lookup? (remap : Remap) : Handle → Option Register
  | .reg r => remap.table.find? r
  | .invalid => none

/-- What stands for a handle afterwards: its replacement, or the handle itself. -/
def apply (remap : Remap) (h : Handle) : Handle :=
  match remap.lookup? h with
  | some replacement => .reg replacement
  | none => h

/-- Add a pair of registers. The classes are compared first, then the replaced register has to be
fresh, then the table has to have room. -/
def addRegisters (remap : Remap) (replaced replacement : Register) : Traced RemapError Remap :=
  if same : replaced.cls = replacement.cls then
    match fresh : remap.table.find? replaced with
    | some existing => Traced.fail (.remappedTwice replaced existing replacement)
    | none =>
      if room : remap.table.size < capacity then do
        Traced.record .trace s!"remap: {replaced.text} -> {replacement.text}"
        return {
          table := remap.table.push replaced replacement fresh room
          classes_agree := by
            intro pair mem
            rcases List.mem_append.1 mem with old | new
            · exact remap.classes_agree pair old
            · obtain rfl := List.mem_singleton.1 new
              exact same }
      else
        Traced.fail (.overflow replaced replacement remap)
  else
    Traced.fail (.classMismatch replaced replacement)

/-- Add a pair of handles, both of which have to hold a register. -/
def add (remap : Remap) (replaced replacement : Handle) : Traced RemapError Remap :=
  match replaced, replacement with
  | .reg r, .reg s => remap.addRegisters r s
  | _, _ => Traced.fail (.invalidHandle replaced replacement remap)

/-- Add pairs one after the other, up to the first that is refused. -/
def addAll (remap : Remap) : List (Handle × Handle) → Traced RemapError Remap
  | [] => pure remap
  | (replaced, replacement) :: rest => do
    let next ← remap.add replaced replacement
    addAll next rest

/-- The replacement table of a list of pairs. -/
def ofPairs (pairs : List (Handle × Handle)) : Traced RemapError Remap := addAll empty pairs

/-- The table after an attempt to add a pair: a refused one changes nothing. -/
def tryAdd (remap : Remap) (replaced replacement : Handle) : Remap :=
  match (remap.add replaced replacement).outcome with
  | .ok next => next
  | .error _ => remap

end Remap

end RegisterMapping
