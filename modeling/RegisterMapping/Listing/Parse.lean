import RegisterMapping.Listing.Basic
import RegisterMapping.Listing.Reader
import RegisterMapping.Log

/-!
# Parsing a listing

A source text is cut into tokens, the tokens into lines, and every line is read on its own. Only
one rule spans lines: a virtual register that an earlier line assigns is not assigned again.
`LineReading.settle` applies this rule to one line and `settleLines` to all of them, and the parse
of the text is what its lines add, one after the other.
-/

set_option autoImplicit false

namespace RegisterMapping

/-- A listing and the diagnostics of its text. -/
structure ParsedListing where
  listing : Listing
  diagnostics : List Diagnostic
  deriving DecidableEq

namespace ParsedListing

/-- The parse of no lines. -/
def empty : ParsedListing := ⟨Listing.empty, []⟩

/-- The parse of some lines followed by others. -/
def append (a b : ParsedListing) : ParsedListing :=
  ⟨⟨a.listing.insts ++ b.listing.insts, a.listing.assignments ++ b.listing.assignments⟩,
    a.diagnostics ++ b.diagnostics⟩

instance : Append ParsedListing := ⟨append⟩

/-- The parses of several stretches of lines, put together. -/
def join (parts : List ParsedListing) : ParsedListing := parts.foldr append empty

/-- Nothing was found wrong. -/
def clean (parsed : ParsedListing) : Bool := parsed.diagnostics.isEmpty

end ParsedListing

/-- What a line adds to a listing, given the assignments of earlier lines. -/
def LineReading.settle (earlier : List Assignment) (reading : LineReading) : ParsedListing :=
  match reading.item? with
  | none => ⟨Listing.empty, reading.diagnostics ++ reading.trailing⟩
  | some (.instr inst, span) =>
    ⟨⟨[(inst, span)], []⟩, reading.diagnostics ++ reading.trailing⟩
  | some (.assignment virt real, span) =>
    match earlier.find? fun assignment => assignment.virt = .reg virt with
    | some first =>
      ⟨Listing.empty,
        reading.diagnostics ++ ⟨.assignedTwice virt first.span, span⟩ :: reading.trailing⟩
    | none =>
      ⟨⟨[], [⟨.reg virt, .reg real, span⟩]⟩, reading.diagnostics ++ reading.trailing⟩

/-- What each of several lines adds, given the assignments of the lines before them all. -/
def settleLines (earlier : List Assignment) : List LineReading → List ParsedListing
  | [] => []
  | reading :: rest =>
    reading.settle earlier ::
      settleLines (earlier ++ (reading.settle earlier).listing.assignments) rest

namespace Listing

/-- The lines of a source text. -/
def linesOf (file : Nat) (source : List Char) : List Line :=
  Line.split ⟨file, byteLength source, byteLength source⟩ (Token.scan file 0 source)

/-- What each line of a source text adds. -/
def parseLines (source : List Char) (file : Nat) (bank? : Option Bank) : List ParsedListing :=
  settleLines [] ((linesOf file source).map (Line.read bank?))

/-- Parse a source text. Real registers have to be in the bank, if one is given. -/
def parse (source : String) (file : Nat) (bank? : Option Bank) : ParsedListing :=
  ParsedListing.join (parseLines source.toList file bank?)

/-- The records of parsing: one before, and one after with the numbers of things found. -/
def parseLog (file : Nat) (parsed : ParsedListing) : List LogRecord :=
  [⟨.info, s!"parsing listing in file {file}"⟩,
    ⟨.trace, s!"done parsing {file}: {parsed.listing.insts.length} instructions, " ++
      s!"{parsed.listing.assignments.length} assignments, {parsed.diagnostics.length} errors"⟩]

end Listing

end RegisterMapping
