/-
Source locations.

A node carries the line and column it came from, and an error carries the
position of the node that raised it.  Line 0 stands for "unknown": nodes that
were built rather than read have no place in a source text, and an error raised
at one of them prints no line prefix.

`LineIndex` turns byte offsets into positions.  It keeps the offset at which
each line starts, in increasing order, and finds the line of an offset by
halving the table.
-/
import TreeWalk.Sorted

namespace TreeWalk

/-- A byte range of a source text, `stop` excluded. -/
structure Span where
  start : Nat
  stop : Nat
  deriving DecidableEq, Repr, Inhabited

namespace Span

/-- The number of bytes covered; a reversed span covers none. -/
def length (s : Span) : Nat := s.stop - s.start

def isEmpty (s : Span) : Bool := s.stop ≤ s.start

/-- The span as `start..stop`. -/
def text (s : Span) : String := s!"{s.start}..{s.stop}"

theorem isEmpty_iff_length_eq_zero (s : Span) : s.isEmpty = true ↔ s.length = 0 := by
  simp [isEmpty, length, Nat.sub_eq_zero_iff_le]

end Span

/-- Line and column of a node, both counted from one; line 0 is unknown. -/
structure Position where
  line : Nat
  column : Nat
  deriving DecidableEq, Repr, Inhabited

namespace Position

/-- The position of a node that has no place in a source text. -/
def unknown : Position := ⟨0, 0⟩

/-- The start of a line. -/
def ofLine (line : Nat) : Position := ⟨line, 1⟩

def isKnown (p : Position) : Bool := 0 < p.line

/-- What a message raised at `p` starts with.  An unknown position contributes
nothing, so that no message speaks of a line 0. -/
def errorPrefix (p : Position) : String :=
  if p.isKnown then s!"line {p.line}: " else ""

/-- The position as `line:column`. -/
def text (p : Position) : String := s!"{p.line}:{p.column}"

/-- `p` where it is known, and `fallback` otherwise: a node without a place of
its own reports the place of the node around it. -/
def orElse (p fallback : Position) : Position := if p.isKnown then p else fallback

@[simp] theorem unknown_orElse (q : Position) : unknown.orElse q = q := rfl

theorem orElse_of_isKnown {p : Position} (h : p.isKnown = true) (q : Position) :
    p.orElse q = p := by simp [orElse, h]

theorem orElse_orElse (p q : Position) : p.orElse (p.orElse q) = p.orElse q := by
  unfold orElse
  split <;> rfl

end Position

/-- The offsets at which the lines of a text start.  The index of no text at all is
empty. -/
structure LineIndex where
  starts : Array Nat
  deriving Repr

instance : Inhabited LineIndex := ⟨⟨#[]⟩⟩

namespace LineIndex

/-- The starts of the lines after the first, for the bytes from `offset` on: one
past each newline byte. -/
def startsFrom (offset : Nat) : List UInt8 → List Nat
  | [] => []
  | b :: bytes =>
    if b = 10 then (offset + 1) :: startsFrom (offset + 1) bytes else startsFrom (offset + 1) bytes

def ofBytes (bytes : List UInt8) : LineIndex := ⟨(0 :: startsFrom 0 bytes).toArray⟩

/-- The index of a text, over its UTF-8 bytes. -/
def ofText (source : String) : LineIndex := ofBytes source.toUTF8.toList

def lineCount (index : LineIndex) : Nat := index.starts.size

/-- The line of a byte offset, counted from zero: the one that starts there, or else the
last one that starts before. -/
def lineOf (index : LineIndex) (offset : Nat) : Nat :=
  match Sorted.search index.starts offset with
  | .ok line => line
  | .error line => line - 1

/-- The position of a byte offset, which may lie past the end of the text. -/
def position (index : LineIndex) (offset : Nat) : Position :=
  let line := index.lineOf offset
  ⟨line + 1, offset - index.starts.getD line 0 + 1⟩

/-- The position at which a span starts. -/
def spanPosition (index : LineIndex) (span : Span) : Position := index.position span.start

end LineIndex

end TreeWalk
