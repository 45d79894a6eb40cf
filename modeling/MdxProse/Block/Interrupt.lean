import MdxProse.Block.Element

/-! # Interruptions

Text that runs on from line to line, and containers that take in unmarked lines, end where a new
block starts. Which blocks can do that depends on what they interrupt.
-/

namespace MdxProse.Block

/-! ### Markers of list items -/

/-- The marker of a list item. -/
structure Marker where
  /-- The number of an ordered item. -/
  number : Option Nat
  /-- The last character of the marker, by which lists are told apart. -/
  mark : Char
  /-- How many characters the marker has. -/
  length : Nat
  deriving DecidableEq, Repr

namespace Marker

/-- The number that decimal digits write. -/
def value (digits : List Char) : Nat :=
  digits.foldl (fun n c => 10 * n + (c.toNat - '0'.toNat)) 0

/-- What stands after a marker: a space or the end of the line. -/
def endsWell (rest : List Char) : Bool :=
  (rest.head?.map Text.isSpace).getD true

/-- The marker at the start of a text: a bullet, or up to nine digits with a dot or parenthesis. -/
def read? (text : List Char) : Option Marker :=
  match text with
  | [] => none
  | c :: r =>
    if c == '*' || c == '-' || c == '+' then
      if endsWell r then some ⟨none, c, 1⟩ else none
    else
      let digits := text.takeWhile Char.isDigit
      match text.drop digits.length with
      | [] => none
      | d :: rest =>
        if 1 ≤ digits.length && digits.length ≤ 9 && (d == '.' || d == ')') && endsWell rest then
          some ⟨some (value digits), d, digits.length + 1⟩
        else none

/-- Two markers of one list. -/
def sameList (a b : Marker) : Bool :=
  a.number.isSome == b.number.isSome && a.mark == b.mark

/-- The marker of the item that starts on the line. In a list, a line indented by four columns more
than the list, but less than its items, starts no item. -/
def ofLine? (r : Region) (i : Nat) : Option Marker :=
  let l := r.line i
  if 0 ≤ r.listIndent && 4 ≤ l.indent - r.listIndent && l.indent < r.indent then none
  else read? (r.lineText i)

end Marker

/-! ### Quotes -/

/-- Does a block quote start on the line? -/
def Quote.starts (r : Region) (i : Nat) : Bool :=
  (r.lineText i).head? == some '>'

/-! ### Who interrupts whom -/

/-- What a new block may interrupt. -/
inductive Host
  | paragraph
  | definition
  | quote
  | list
  deriving DecidableEq, Repr

/-- Can the item on the line interrupt? A paragraph of the same container is interrupted only by an
item with text, and by a numbered one only if the number is one. -/
def Marker.interrupts (r : Region) (host : Host) (i : Nat) : Bool :=
  match ofLine? r i with
  | none => false
  | some m =>
    if host == .paragraph && r.indent ≤ (r.line i).indent then
      (m.number.isNone || m.number == some 1) &&
        !((r.lineText i).drop m.length).all Text.isSpace
    else true

/-- Does a block that can interrupt `host` start on the line? -/
def interrupts (r : Region) (host : Host) (i past : Nat) : Bool :=
  match host with
  | .list => (Fence.opening? r i).isSome || Quote.starts r i || ThematicBreak.starts r i
  | h =>
    FlowExpression.starts r i past || Element.starts r i past || (Fence.opening? r i).isSome ||
      Quote.starts r i || ThematicBreak.starts r i || Marker.interrupts r h i || Heading.starts r i

end MdxProse.Block
