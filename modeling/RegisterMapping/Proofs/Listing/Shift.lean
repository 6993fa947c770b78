import RegisterMapping.Proofs.Listing.Displacement

/-!
# Text further down a file

Where a text stands in a file plays no part in how it is read. So many bytes later it is cut into
the same tokens, its lines are the same, and what is read of its lines is the same, but for the
spans, which all lie so many bytes later (`Token.scan_add`, `Line.split_shift`,
`Line.map_read_shift`). Of the displacements of lines this is the one that moves everything by the
same distance (`Displacement.byBytes`).
-/

set_option autoImplicit false

namespace RegisterMapping

/-! ## The same, so many bytes later -/

section Shift

variable (distance : Nat)

/-- The same token, so many bytes later. -/
def Token.shift (token : Token) : Token := ⟨token.kind, token.text, token.span.shift distance⟩

/-- The same end of a line, so many bytes later. -/
def Terminator.shift (terminator : Terminator) : Terminator :=
  ⟨terminator.kind, terminator.span.shift distance⟩

/-- The same line, so many bytes later. -/
def Line.shift (line : Line) : Line :=
  ⟨line.tokens.map (Token.shift distance), line.terminator.shift distance⟩

/-- A thing with its place, so many bytes later. -/
def shiftPlace {α : Type} (placed : α × Span) : α × Span := (placed.1, placed.2.shift distance)

/-- The same fault, with the place that it points to so many bytes later. -/
def Fault.shift : Fault → Fault
  | .assignedTwice virt first => .assignedTwice virt (first.shift distance)
  | fault => fault

/-- The same diagnostic, so many bytes later. -/
def Diagnostic.shift (diagnostic : Diagnostic) : Diagnostic :=
  ⟨diagnostic.fault.shift distance, diagnostic.span.shift distance⟩

/-- The same label, so many bytes later. -/
def Label.shift (label : Label) : Label := ⟨label.primary, label.span.shift distance, label.message⟩

/-- What was read from a line, if the line stands so many bytes later. -/
def LineReading.shift (reading : LineReading) : LineReading :=
  ⟨reading.diagnostics.map (Diagnostic.shift distance), reading.item?.map (shiftPlace distance),
    reading.trailing.map (Diagnostic.shift distance)⟩

/-- The same assignment, so many bytes later. -/
def Assignment.shift (assignment : Assignment) : Assignment :=
  ⟨assignment.virt, assignment.real, assignment.span.shift distance⟩

/-- The same listing and diagnostics, so many bytes later. -/
def ParsedListing.shift (parsed : ParsedListing) : ParsedListing :=
  ⟨⟨parsed.listing.insts.map (shiftPlace distance),
      parsed.listing.assignments.map (Assignment.shift distance)⟩,
    parsed.diagnostics.map (Diagnostic.shift distance)⟩

end Shift

variable {distance : Nat}

/-! ### What a diagnostic says -/

namespace Diagnostic

/-- To be so many bytes later is to have every offset moved by so much. -/
theorem shift_eq_move (diagnostic : Diagnostic) :
    diagnostic.shift distance = diagnostic.move (· + distance) := by
  obtain ⟨fault, span⟩ := diagnostic
  cases fault <;> rfl

@[simp]
theorem code_shift (diagnostic : Diagnostic) :
    (diagnostic.shift distance).code = diagnostic.code := by
  rw [shift_eq_move, code_move]

@[simp]
theorem message_shift (diagnostic : Diagnostic) :
    (diagnostic.shift distance).message = diagnostic.message := by
  rw [shift_eq_move, message_move]

@[simp]
theorem notes_shift (diagnostic : Diagnostic) :
    (diagnostic.shift distance).notes = diagnostic.notes := by
  rw [shift_eq_move, notes_move]

/-- The labels of a shifted diagnostic are its labels, shifted. -/
@[simp]
theorem labels_shift (diagnostic : Diagnostic) :
    (diagnostic.shift distance).labels = diagnostic.labels.map (Label.shift distance) := by
  rw [shift_eq_move, labels_move]
  rfl

end Diagnostic

/-! ## Tokens and lines -/

/-- So many bytes later a text is cut into the same tokens, so many bytes later. -/
theorem Token.scan_add (distance file offset : Nat) (text : List Char) :
    scan file (offset + distance) text = (scan file offset text).map (shift distance) := by
  fun_induction scan file offset text with
  | case1 offset => rw [scan, List.map_nil]
  | case2 offset c rest lexeme text stop later kind hkind ih =>
    have hstop : offset + distance + byteLength text = stop + distance := by
      show _ = offset + byteLength text + distance
      omega
    rw [scan]
    simp only [lexeme, text, stop, later] at *
    rw [hkind, hstop, ih]
    rfl
  | case3 offset c rest lexeme text stop later hkind ih =>
    have hstop : offset + distance + byteLength text = stop + distance := by
      show _ = offset + byteLength text + distance
      omega
    rw [scan]
    simp only [lexeme, text, stop, later] at *
    rw [hkind, hstop, ih]

/-- To be so many bytes later, as a change of places. -/
def Displacement.byBytes (distance : Nat) : Displacement :=
  byOffset fun _ _ h => Nat.add_le_add_right h distance

namespace Line

theorem split_shift (endOfFile : Span) (tokens : List Token) :
    split (endOfFile.shift distance) (tokens.map (Token.shift distance)) =
      (split endOfFile tokens).map (shift distance) :=
  split_displaced (.byBytes distance) (Token.shift distance) (fun _ h => ⟨h, rfl⟩)
    (fun _ _ => rfl) rfl tokens

/-- Lines are read the same so many bytes later. -/
theorem map_read_shift (bank? : Option Bank) (lines : List Line) :
    (lines.map (shift distance)).map (read bank?) =
      (lines.map (read bank?)).map (LineReading.shift distance) :=
  map_read_displaced (.byBytes distance) bank? lines

end Line

end RegisterMapping
