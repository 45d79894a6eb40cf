import MdxProse.Source
import MdxProse.Text.Blank

/-! # Lines

Blocks are read from a table of lines. A container does not copy the text it holds: it hands its
content a table in which the marked lines start further right. Indentation is measured in columns,
tabs reaching to the next multiple of four.
-/

namespace MdxProse.Block

/-- A line as a block sees it. -/
structure Line where
  /-- Where the line starts, after the markers of its containers. -/
  first : Nat
  /-- Where it ends: at its line break, at the end of the text, or at a tag that cuts it off. -/
  stop : Nat
  /-- How many characters from `first` on are indentation. -/
  shift : Nat
  /-- The columns of that indentation. Minus one marks a line that only continues a paragraph. -/
  indent : Int
  /-- The columns taken up before `first`. -/
  base : Int
  deriving Repr, Inhabited, DecidableEq

namespace Line

/-- Where the text of the line starts. -/
def start (l : Line) : Nat :=
  l.first + l.shift

/-- A line without text. -/
def isEmpty (l : Line) : Bool :=
  l.stop ≤ l.start

/-- The line after the last one of a text of `n` characters. -/
def atEnd (n : Nat) : Line :=
  ⟨n, n, 0, 0, 0⟩

/-- The column after a space or tab that starts in column `base + n`, less `base`. -/
def advance (base n : Int) (c : Char) : Int :=
  if c == '\t' then n + (4 - (n + base) % 4) else n + 1

/-- The columns that spaces and tabs reach, from column `base + n` on, less `base`. -/
def columns (base n : Int) (spaces : List Char) : Int :=
  spaces.foldl (advance base) n

/-- The lines of a text that starts at `pos`. A last line of nothing but spaces is no line. -/
def tableFrom (pos : Nat) (w : List Char) : List Line :=
  if w.isEmpty then []
  else
    let body := w.takeWhile (· != '\n')
    let lead := body.takeWhile Text.isSpace
    let line : Line := ⟨pos, pos + body.length, lead.length, columns 0 0 lead, 0⟩
    match _h : w.dropWhile (· != '\n') with
    | [] => if lead.length = body.length then [] else [line]
    | _ :: rest => line :: tableFrom (pos + body.length + 1) rest
termination_by w.length
decreasing_by
  have := (List.dropWhile_suffix (l := w) (· != '\n')).length_le
  rw [_h, List.length_cons] at this
  omega

/-- The lines of a text. -/
def table (src : Source) : Array Line :=
  (tableFrom 0 src.toList).toArray

/-- Where cutting off `indent` columns of indentation, of which `width` are done at `pos`, leaves
off, and the columns cut. Markers of a list item in front of its text count as indentation. -/
def outdent (src : Source) (l : Line) (indent : Int) (stop pos : Nat) (width : Int) : Nat × Int :=
  if pos < stop ∧ width < indent then
    match src[pos]? with
    | none => (pos, width)
    | some c =>
      if Text.isSpace c then outdent src l indent stop (pos + 1) (advance l.base width c)
      else if pos - l.first < l.shift then outdent src l indent stop (pos + 1) (width + 1)
      else (pos, width)
  else (pos, width)
termination_by stop - pos

/-- The line up to `stop` without its first `indent` columns of indentation. A tab that is cut in
the middle leaves spaces. -/
def cut (src : Source) (l : Line) (indent : Int) (stop : Nat) : List Char :=
  let (pos, width) := outdent src l indent stop l.first 0
  List.replicate (width - indent).toNat ' ' ++ src.window pos stop

end Line

end MdxProse.Block
