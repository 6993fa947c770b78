import RegisterMapping.Log
import RegisterMapping.Table

/-!
# Register usage

A `Usage` says of each register that an instruction mentions whether it is read, written or both.
Accesses are added one at a time. A register that is mentioned again has its accesses merged; an
access of no register and a fifth register are refused, and then the table stays as it was.
-/

set_option autoImplicit false

namespace RegisterMapping

/-- What an instruction does with a register. -/
inductive Access where
  | read
  | write
  | modify
  deriving DecidableEq, Repr, Inhabited

namespace Access

/-- The name of an access. -/
def text : Access → String
  | .read => "read"
  | .write => "write"
  | .modify => "modify"

/-- The access that stands for two accesses of one register: equal ones stay, different ones
make a modification. -/
def merge (a b : Access) : Access := if a = b then a else .modify

/-- The old value of the register matters. -/
def reads : Access → Bool
  | .read | .modify => true
  | .write => false

/-- The register has a new value afterwards. -/
def writes : Access → Bool
  | .write | .modify => true
  | .read => false

end Access

/-- The most registers that one instruction may use. -/
def Usage.capacity : Nat := 4

/-- The registers of one instruction with their accesses, in order of first mention. -/
abbrev Usage := RegisterTable Usage.capacity Access

/-- Why an access cannot be recorded. -/
inductive UsageError where
  | invalidHandle (access : Access) (table : Usage)
  | overflow (r : Register) (access : Access) (table : Usage)
  deriving DecidableEq

namespace Usage

/-- The text form of a usage table. -/
def text (usage : Usage) : String :=
  RegisterTable.text (fun entry => entry.1.text ++ ": " ++ entry.2.text) usage

/-- The access that is recorded for what a handle holds. -/
def access? (usage : Usage) : Handle → Option Access
  | .reg r => usage.find? r
  | .invalid => none

/-- The handle is recorded as read. -/
def reads (usage : Usage) (h : Handle) : Bool := ((usage.access? h).map Access.reads).getD false

/-- The handle is recorded as written. -/
def writes (usage : Usage) (h : Handle) : Bool := ((usage.access? h).map Access.writes).getD false

/-- The virtual registers of the table, in order. -/
def virtuals (usage : Usage) : List Register := usage.registers.filter Register.isVirtual

/-- Record an access of a register: merge it with the recorded one, or open an entry if the table
has room. -/
def addRegister (usage : Usage) (r : Register) (access : Access) : Traced UsageError Usage :=
  match found : usage.find? r with
  | some existing => do
    let merged := existing.merge access
    Traced.record .trace s!"usage: {r.text} {existing.text} + {access.text} -> {merged.text}"
    return usage.set r merged
  | none =>
    if room : usage.size < capacity then do
      Traced.record .trace s!"usage: {r.text} {access.text}"
      return usage.push r access found room
    else
      Traced.fail (.overflow r access usage)

/-- Record an access of what a handle holds. -/
def add (usage : Usage) (h : Handle) (access : Access) : Traced UsageError Usage :=
  match h with
  | .reg r => usage.addRegister r access
  | .invalid => Traced.fail (.invalidHandle access usage)

/-- Record accesses one after the other, up to the first that is refused. -/
def addAll (usage : Usage) : List (Handle × Access) → Traced UsageError Usage
  | [] => pure usage
  | (h, access) :: rest => do
    let next ← usage.add h access
    addAll next rest

/-- The usage table of a list of accesses. -/
def ofAccesses (accesses : List (Handle × Access)) : Traced UsageError Usage :=
  addAll RegisterTable.empty accesses

/-- The table after an attempt to record an access: a refused one changes nothing. -/
def tryAdd (usage : Usage) (h : Handle) (access : Access) : Usage :=
  match (usage.add h access).outcome with
  | .ok next => next
  | .error _ => usage

end Usage

/-- What is said about an access that cannot be recorded. -/
def UsageError.message : UsageError → String
  | invalidHandle access table =>
    s!"cannot record a {access.text} of the invalid register in usage {Usage.text table}"
  | overflow r access table =>
    s!"usage table overflow: cannot add {r.text} ({access.text}) to {Usage.text table}, " ++
      s!"an instruction mentions at most {Usage.capacity} registers"

end RegisterMapping
