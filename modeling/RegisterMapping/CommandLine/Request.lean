import RegisterMapping.Architecture

/-!
# What a call asks for

A call asks for the version, or for a report on the listing in a file, with real registers checked
against the bank of a target. How the words of a call are read, and which target a name stands
for, is not settled here: a `CallReader` brings both, together with the target of the host.
-/

set_option autoImplicit false

namespace RegisterMapping.CommandLine

/-- What to do with a listing. -/
inductive Action where
  | usage
  | substitute
  deriving DecidableEq, Repr

namespace Action

/-- The name of an action. -/
def text : Action → String
  | .usage => "usage"
  | .substitute => "rewrite"

/-- The action with the given name or initial. -/
def ofText? : String → Option Action
  | "usage" => some .usage
  | "u" => some .usage
  | "rewrite" => some .substitute
  | "r" => some .substitute
  | _ => none

end Action

/-- The options of an action. -/
structure Options where
  target? : Option String
  names : Bool
  verbose : Bool
  path : String
  deriving DecidableEq, Repr

/-- What a call of the program asks for. -/
inductive Request where
  | version (action? : Option Action)
  | report (action : Action) (options : Options)
  deriving DecidableEq, Repr

/-- The name of the program. -/
def programName : String := "hregc"

/-- The version of the program. -/
def programVersion : String := "0.0.1"

/-- The answer to a request for the version, of the program or of an action. -/
def versionText (action? : Option Action) : String :=
  let suffix := match action? with
    | some action => "-" ++ action.text
    | none => ""
  programName ++ suffix ++ " " ++ programVersion ++ "\n"

/-- A target: its architecture, and the text of the whole, which also has a vendor and a system. -/
structure Target where
  arch : Architecture
  text : String
  deriving DecidableEq, Repr

/-- How a call is read: what its words ask for, which target a name stands for, and the target of
the host, which is meant where no name is given. -/
structure CallReader where
  request? : List String → Option Request
  target? : String → Option Target
  host : Target

/-- The target that is meant by a name, or without one. -/
def CallReader.targetOf? (reader : CallReader) : Option String → Option Target
  | some name => reader.target? name
  | none => some reader.host

end RegisterMapping.CommandLine
