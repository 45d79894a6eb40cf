import MdxProse.Block.Interrupt

/-! # Quotes and lists

The two containers that mark their lines. Each works out where its content starts on each line,
hands a region with those lines to a reader for the content, and wraps what that reads.
-/

namespace MdxProse.Block

/-! ### Quotes -/

namespace Quote

/-- The line after its quote mark. One space after the mark belongs to it; of a wider tab, the rest
stays as indentation. -/
def inner (r : Region) (l : Line) : Line :=
  let pos := l.start + 1
  let column := l.indent + 1
  let hasSpace := r.src.test Text.isSpace pos
  let takesChar := r.src.has ' ' pos || (r.src.has '\t' pos && (l.base + column) % 4 == 3)
  let keepsTab := hasSpace && !takesChar
  let first := if takesChar then pos + 1 else pos
  let from_ := if takesChar then column + 1 else column
  let stop := r.src.skipWhile Text.isSpace first l.stop
  let reached := Line.columns (l.base + if keepsTab then 1 else 0) from_ (r.src.window first stop)
  { first
    stop := l.stop
    shift := stop - first
    indent := reached - from_
    base := l.indent + 1 + if hasSpace then 1 else 0 }

/-- Takes in the lines from `i` on: those with a quote mark, and those that run on from a paragraph.
Answers with the region of the quote and the line after it. -/
def gather (r : Region) (past : Nat) (afterEmpty : Bool) (i : Nat) : Region × Nat :=
  if i < past then
    let l := r.line i
    if l.isEmpty then (r, i)
    else if starts r i && r.indent ≤ l.indent then
      let l' := inner r l
      gather (r.setLine i l') past l'.isEmpty (i + 1)
    else if afterEmpty then (r, i)
    else if interrupts r .quote i past then ({ r with height := i }, i)
    else gather (r.setLine i { l with indent := -1 }) past false (i + 1)
  else (r, i)
termination_by past - i

/-- A block quote. -/
def read (content : Reader) (r : Region) (i past : Nat) : Except SyntaxError Outcome := do
  let first := inner r (r.line i)
  let (r', stop) := gather (r.setLine i first) past first.isEmpty (i + 1)
  let c ← content { r' with indent := 0, isTop := false } i stop
  pure ⟨Event.around .blockquote (some ⟨i, c.next⟩) c.events, c.definitions, c.next⟩

end Quote

/-! ### Lists -/

namespace Items

/-- The region inside an item whose marker is on line `i`, and whether the marker stands alone. The
content starts after the spaces that follow the marker, or right after one of them if they are more
than four. -/
def inside (r : Region) (m : Marker) (i : Nat) : Region × Bool :=
  let l := r.line i
  let pos := l.start + m.length
  let from_ := l.indent + m.length
  let start := r.src.skipWhile Text.isSpace pos l.stop
  let reached := Line.columns l.base from_ (r.src.window pos start)
  let isBare := decide (l.stop ≤ start)
  let width := if isBare || 4 < reached - from_ then 1 else reached - from_
  let l' := { l with shift := start - l.first, indent := reached }
  ({ (r.setLine i l') with indent := from_ + width, listIndent := r.indent, isTop := false },
    isBare)

/-- Items of one list, with the line after them. The list is *tight* if all of them are. -/
structure Series where
  events : List Event
  definitions : List Definition
  next : Nat
  tight : Bool

/-- The content of the item on line `i`. A bare marker before an empty line is an empty item. -/
def readContent (content : Reader) (r : Region) (m : Marker) (i past : Nat) :
    Except SyntaxError Content :=
  let (r', isBare) := inside r m i
  if isBare && r'.isEmpty (i + 1) then .ok ⟨⟨[], [], min (i + 2) past⟩, true⟩
  else content r' i past

/-- The items from line `i` on, the first of which has marker `m`. The list is loose if an item is,
or if an item that ends in an empty line (`afterEmpty`) is followed by another. -/
def readFrom (content : Reader) (r : Region) (m : Marker) (past : Nat) (afterEmpty : Bool)
    (i : Nat) : Except SyntaxError Series := do
  let c ← readContent content r m i past
  let item := Event.around .listItem (some ⟨i, c.next⟩) c.events
  let tight := c.tight && !afterEmpty
  let endsEmpty := decide (1 < c.next - i) && r.isEmpty (c.next - 1)
  let last : Series := ⟨item, c.definitions, c.next, tight⟩
  if _h : i < c.next ∧ c.next < past then
    if (r.line c.next).indent < r.indent || interrupts r .list c.next past then pure last
    else
      match Marker.read? (r.lineText c.next) with
      | none => pure last
      | some m' =>
        if m.sameList m' then do
          let rest ← readFrom content r m' past endsEmpty c.next
          pure ⟨item ++ rest.events, c.definitions ++ rest.definitions, rest.next,
            tight && rest.tight⟩
        else pure last
  else pure last
termination_by past - i

/-- Marks the paragraphs right inside the items as tight; `depth` counts the nodes entered since
the list. -/
def tighten (depth : Nat) : List Event → List Event
  | [] => []
  | .enter k l :: es =>
    (if depth = 1 then
      match k with
      | .paragraph _ => .enter (.paragraph true) l
      | _ => .enter k l
    else .enter k l) :: tighten (depth + 1) es
  | .leave t n :: es => .leave t n :: tighten (depth - 1) es
  | .leaf k l inner :: es => .leaf k l inner :: tighten depth es

/-- The kind of list that a marker starts. -/
def kind (m : Marker) : Kind :=
  match m.number with
  | some n => .orderedList n
  | none => .bulletList

/-- A list. -/
def read (content : Reader) (r : Region) (m : Marker) (i past : Nat) :
    Except SyntaxError Outcome := do
  let items ← readFrom content r m past false i
  let events := if items.tight then tighten 0 items.events else items.events
  pure ⟨Event.around (kind m) (some ⟨i, items.next⟩) events, items.definitions, items.next⟩

end Items

end MdxProse.Block
