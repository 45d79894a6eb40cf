import MdxProse.Event
import MdxProse.Text.Blank

/-! # Places of running text

Running text has lost the markers and the indentation of its lines, so an offset in it says nothing
about the document. Each of its lines is therefore looked up on the line of the document it came
from: it is what that line ends in, or else the first place at which it occurs there.
-/

namespace MdxProse

/-- Where a line of running text starts, in that text and in the document. -/
structure Anchor where
  inner : Nat
  outer : Nat
  deriving DecidableEq, Repr, Inhabited

namespace Anchor

/-- The lines of a source with the offsets at which they start, the first of them at `pos`. -/
def linesFrom (pos : Nat) : List (List Char) → List (Nat × List Char)
  | [] => []
  | l :: ls => (pos, l) :: linesFrom (pos + l.length + 1) ls

/-- The lines of a source with the offsets at which they start. -/
def lines (src : Source) : List (Nat × List Char) :=
  linesFrom 0 (Text.splitOn '\n' src.toList)

/-- At which character of the line the part is taken to start. -/
def column (line part : List Char) : Nat :=
  if part.isSuffixOf line then line.length - part.length
  else (Text.indexOf? part line).getD 0

/-- The anchors of the parts of a running text, the first of which starts at `inner` in it. From
the last line of the document it comes from, a blank end is cut off. A text that ends in a blank
that is not padding keeps it, so there the line does not end in the part. -/
def pair (inner : Nat) : List (List Char) → List (Nat × List Char) → List Anchor
  | part :: parts, (start, line) :: below =>
    let line := if parts.isEmpty then Text.trimEnd Text.isBlank line else line
    ⟨inner, start + column line part⟩ :: pair (inner + part.length + 1) parts below
  | _, _ => []

/-- The anchors of a running text that comes from the line `first` on. -/
def ofText (lines : List (Nat × List Char)) (content : List Char) (first : Nat) : List Anchor :=
  pair 0 (Text.splitOn '\n' content) (lines.drop first)

/-- The place in the document of an offset in the running text, told by the last anchor that is not
after it. -/
def locate (anchors : List Anchor) (offset : Nat) : Nat :=
  match (anchors.takeWhile (·.inner ≤ offset)).getLast? with
  | some a => a.outer + offset - a.inner
  | none => offset

/-- The span of the document that a span of the running text stands for: from the place of its
first character to just past that of its last. -/
def locateSpan (anchors : List Anchor) (s : Span) : Span :=
  ⟨locate anchors s.start, locate anchors (s.stop - 1) + 1⟩

/-- A node of the running text with its span in the document. -/
def placeKind (anchors : List Anchor) : Kind → Kind
  | .textElement n s => .textElement n (locateSpan anchors s)
  | .textExpression c s => .textExpression c (locateSpan anchors s)
  | k => k

/-- An event of the running text with its span in the document. What an image holds keeps the
offsets of its own text. -/
def place (anchors : List Anchor) : Event → Event
  | .enter k l => .enter (placeKind anchors k) l
  | .leaf k l i => .leaf (placeKind anchors k) l i
  | e => e

end Anchor

end MdxProse
