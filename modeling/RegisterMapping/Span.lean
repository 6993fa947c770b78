/-!
# Spans

A span is a stretch of a source file, given by the byte offsets of its two ends; the end is not
part of it. Two spans of one file have a least span that holds both.
-/

set_option autoImplicit false

namespace RegisterMapping

/-- A stretch of a source file, in bytes. -/
structure Span where
  file : Nat
  start : Nat
  stop : Nat
  deriving DecidableEq, Repr

namespace Span

/-- The least span from the start of one to the end of the other, in the file of the first. -/
def cover (a b : Span) : Span := ⟨a.file, min a.start b.start, max a.stop b.stop⟩

/-- The least span that holds both, which exists if both are of one file. -/
def join? (a b : Span) : Option Span := if a.file = b.file then some (a.cover b) else none

/-- The same stretch, so many bytes later in the file. -/
def shift (distance : Nat) (span : Span) : Span :=
  ⟨span.file, span.start + distance, span.stop + distance⟩

end Span

end RegisterMapping
