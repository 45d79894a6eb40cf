import MdxProse.Block.Line
import MdxProse.Event
import MdxProse.Error

/-! # Regions

A region is what a reader of blocks works on: a source, the table of its lines, and how far in and
how far down the enclosing containers reach. Containers make a new region for their content and
leave the old one alone.
-/

namespace MdxProse.Block

/-- The lines that a reader of blocks may look at. -/
structure Region where
  src : Source
  lines : Array Line
  /-- The lines from here on belong to nobody in this region. -/
  height : Nat
  /-- A line indented less ends the content of the container. -/
  indent : Int
  /-- The indentation of the list that the region is an item of, or minus one. -/
  listIndent : Int
  /-- Is this the whole document? -/
  isTop : Bool

namespace Region

/-- The region of a whole source. -/
def ofSource (src : Source) : Region :=
  let lines := Line.table src
  ⟨src, lines, lines.size, 0, -1, true⟩

/-- A line of the region; past the last one come empty lines. -/
def line (r : Region) (i : Nat) : Line :=
  (r.lines[i]?).getD (.atEnd r.src.size)

/-- Is there no text on the line? -/
def isEmpty (r : Region) (i : Nat) : Bool :=
  (r.line i).isEmpty

/-- The first line from `i` on that holds text, or the end of the region. -/
def skipEmpty (r : Region) (i : Nat) : Nat :=
  if i < r.height then
    if r.isEmpty i then skipEmpty r (i + 1) else i
  else i
termination_by r.height - i

/-- The first line from `i` on that reaches to the offset. -/
def lineReaching (r : Region) (offset i : Nat) : Nat :=
  if i < r.lines.size then
    if (r.line i).stop < offset then lineReaching r offset (i + 1) else i
  else i
termination_by r.lines.size - i

/-- The text of a line, without its indentation. -/
def lineText (r : Region) (i : Nat) : List Char :=
  r.src.window (r.line i).start (r.line i).stop

/-- The lines from `i` to just before `past`, without the first `indent` columns. The last line
keeps its line break if `keepBreak`. -/
def text (r : Region) (i past : Nat) (indent : Int) (keepBreak : Bool) : List Char :=
  if i < past then
    let l := r.line i
    let stop := if i + 1 < past || keepBreak then l.stop + 1 else l.stop
    l.cut r.src indent stop ++ text r (i + 1) past indent keepBreak
  else []
termination_by past - i

/-- The running text of the lines from `i` to just before `past`. -/
def runningText (r : Region) (i past : Nat) : String :=
  String.ofList (Text.trim Text.isPadding (r.text i past r.indent false))

/-- The same region with one line changed. -/
def setLine (r : Region) (i : Nat) (l : Line) : Region :=
  { r with lines := r.lines.setIfInBounds i l }

/-- The offset at which the lines before `past` end. -/
def limit (r : Region) (past : Nat) : Nat :=
  (r.line (past - 1)).stop

end Region

/-- The target of a link reference. -/
structure Definition where
  label : String
  href : String
  title : String
  deriving DecidableEq, Repr, Inhabited

/-- What was read: events, link definitions, and the line after it. -/
structure Outcome where
  events : List Event
  definitions : List Definition
  next : Nat
  deriving Inhabited

/-- What the content of a container holds, with the line after it. It is *tight* if no blank line
stands between its blocks. -/
structure Content extends Outcome where
  tight : Bool
  deriving Inhabited

/-- A reader of the blocks between two lines of a region. -/
abbrev Reader := Region → Nat → Nat → Except SyntaxError Content

/-- A single event for the lines from `i` to just before `past`. -/
def Outcome.leaf (k : Kind) (i past : Nat) : Outcome :=
  ⟨[.leaf k (some ⟨i, past⟩) []], [], past⟩

end MdxProse.Block
