import RegisterMapping.Report.Basic

/-!
# The text of reports

A report is written line by line: a header, then two or three lines for each instruction, and for
a substitution report a warning if virtual registers are left. The position of an instruction is
right aligned in four columns, and what belongs to it is indented under it. The header and the word
that opens the warning may be emphasised.
-/

set_option autoImplicit false

namespace RegisterMapping

/-- Whether emphasis is shown, by the control sequences of a terminal. -/
inductive Emphasis where
  | plain
  | terminal
  deriving DecidableEq, Repr

namespace Emphasis

/-- Text between the control sequence that turns an attribute on and the one that turns all
attributes off. -/
def wrap (emphasis : Emphasis) (number : String) (text : String) : String :=
  match emphasis with
  | .plain => text
  | .terminal => "\x1b[" ++ number ++ "m" ++ text ++ "\x1b[0m"

/-- Bold text. -/
def bold (emphasis : Emphasis) (text : String) : String := emphasis.wrap "1" text

/-- Yellow text. -/
def yellow (emphasis : Emphasis) (text : String) : String := emphasis.wrap "33" text

end Emphasis

namespace Report

/-- A number, right aligned in four columns. -/
def alignedIndex (index : Nat) : String :=
  let digits := toString index
  "".pushn ' ' (4 - digits.length) ++ digits

/-- The line of the instruction at a position. -/
def instructionLine (index : Nat) (text : String) : String := alignedIndex index ++ ": " ++ text

/-- A line that belongs to the instruction above it. -/
def detailLine (text : String) : String := "      " ++ text

/-- Lines of text, each one ended. -/
def ofLines (lines : List String) : String := String.join (lines.map fun line => line ++ "\n")

end Report

namespace UsageReport

open Report

/-- The lines of an instruction: its text, and its usage table. -/
def entryLines (bank? : Option Bank) (index : Nat) (entry : UsageEntry) : List String :=
  [instructionLine index (entry.inst.textIn bank?), detailLine (Usage.text entry.usage)]

/-- The lines of a usage report. -/
def lines (emphasis : Emphasis) (bank? : Option Bank) (report : UsageReport) : List String :=
  emphasis.bold "usage" ::
    report.entries.zipIdx.flatMap fun (entry, index) => entryLines bank? index entry

/-- The text of a usage report. -/
def text (emphasis : Emphasis) (bank? : Option Bank) (report : UsageReport) : String :=
  ofLines (report.lines emphasis bank?)

end UsageReport

namespace SubstitutionReport

open Report

/-- The lines of an instruction: its text, its replacement table, and what it becomes. A copy of
a register to itself is marked. -/
def entryLines (bank? : Option Bank) (index : Nat) (entry : SubstitutionEntry) : List String :=
  [instructionLine index (entry.before.textIn bank?),
    detailLine ("remap " ++ entry.remap.text),
    detailLine ("=> " ++ entry.after.textIn bank? ++
      if entry.isRedundantMove then " (redundant move)" else "")]

/-- The line that warns of virtual registers that are left, if there are any. -/
def warningLines (emphasis : Emphasis) (report : SubstitutionReport) : List String :=
  if report.virtualCount = 0 then
    []
  else
    [emphasis.yellow "warning" ++ ": " ++ toString report.virtualCount ++
      " instructions still mention virtual registers"]

/-- The lines of a substitution report. -/
def lines (emphasis : Emphasis) (bank? : Option Bank) (report : SubstitutionReport) : List String :=
  emphasis.bold "rewrite" ::
    report.entries.zipIdx.flatMap (fun (entry, index) => entryLines bank? index entry) ++
    report.warningLines emphasis

/-- The text of a substitution report. -/
def text (emphasis : Emphasis) (bank? : Option Bank) (report : SubstitutionReport) : String :=
  ofLines (report.lines emphasis bank?)

end SubstitutionReport

end RegisterMapping
