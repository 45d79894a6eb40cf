import MdxProse.Block.Region
import MdxProse.Expression

/-! # Blocks without content of their own kind

Front matter, display mathematics, fenced code, thematic breaks and headings with a marker. Each
comes with the test by which it is recognised, and with a reader that answers `none` where it is
not.
-/

namespace MdxProse.Block

/-! ### Fenced code -/

namespace Fence

/-- The run of at least three grave accents or tildes at the start of a text: its character and
length. -/
def mark? : List Char → Option (Char × Nat)
  | [] => none
  | c :: r =>
    if c == '\x60' || c == '~' then
      let n := (r.takeWhile (· == c)).length + 1
      if 3 ≤ n then some (c, n) else none
    else none

/-- The mark that opens fenced code on the line, if one does. After a mark of grave accents no
further grave accent may follow. -/
def opening? (r : Region) (i : Nat) : Option (Char × Nat) :=
  let text := r.lineText i
  match mark? text with
  | some (c, n) =>
    if c == '\x60' && (text.drop n).contains '\x60' then none else some (c, n)
  | none => none

/-- The line that closes code fenced by `n` characters `c`, looked for from line `i` on, or else the
line at which the code ends without being closed. -/
def closing (r : Region) (c : Char) (n past i : Nat) : Nat × Bool :=
  if i < past then
    let l := r.line i
    if !l.isEmpty && l.indent < r.indent then (i, false)
    else if r.src.size ≤ l.start then (i, false)
    else
      let markStop := r.src.skipWhile (· == c) l.start r.src.size
      if n ≤ markStop - l.start && l.stop ≤ r.src.skipWhile Text.isSpace markStop r.src.size then
        (i, true)
      else closing r c n past (i + 1)
  else (i, false)
termination_by past - i

/-- Fenced code. Its lines lose as much indentation as the opening mark has. -/
def read? (r : Region) (i past : Nat) : Option Outcome :=
  (opening? r i).map fun (c, n) =>
    let (last, closed) := closing r c n past (i + 1)
    let info := String.ofList ((r.lineText i).drop n)
    let content := String.ofList (r.text (i + 1) last (r.line i).indent true)
    .leaf (.fence info content) i (if closed then last + 1 else last)

end Fence

/-! ### Thematic breaks -/

namespace ThematicBreak

/-- At least three equal marks and nothing else but spaces. -/
def isMarks : List Char → Bool
  | [] => false
  | c :: r =>
    (c == '*' || c == '-' || c == '_') && r.all (fun d => d == c || Text.isSpace d) &&
      3 ≤ r.count c + 1

/-- Is the line a thematic break? -/
def starts (r : Region) (i : Nat) : Bool :=
  isMarks (r.lineText i)

/-- A thematic break. -/
def read? (r : Region) (i : Nat) : Option Outcome :=
  if starts r i then some (.leaf .thematicBreak i (i + 1)) else none

end ThematicBreak

/-! ### Headings with a marker -/

namespace Heading

/-- The level of the heading that the text is: one to six marks, then a space or the end. -/
def level? (text : List Char) : Option Nat :=
  let n := (text.takeWhile (· == '#')).length
  if 1 ≤ n && n ≤ 6 && ((text.drop n).head?.map Text.isSpace).getD true then some n else none

/-- Is the line a heading? -/
def starts (r : Region) (i : Nat) : Bool :=
  (level? (r.lineText i)).isSome

/-- The text of a heading after its marker: marks at the end go, if a space is before them. -/
def title (text : List Char) : List Char :=
  let shown := (text.reverse.dropWhile Text.isSpace).reverse
  let bare := (shown.reverse.dropWhile (· == '#')).reverse
  Text.trim Text.isPadding (if (bare.getLast?.map Text.isSpace).getD false then bare else shown)

/-- The events of a heading. -/
def events (level : Nat) (content : String) (i past textPast : Nat) : List Event :=
  Event.around (.heading level) (some ⟨i, past⟩) [.running content ⟨i, textPast⟩]

/-- A heading with a marker. -/
def read? (r : Region) (i : Nat) : Option Outcome :=
  let text := r.lineText i
  (level? text).map fun n =>
    ⟨events n (String.ofList (title (text.drop n))) i (i + 1) (i + 1), [], i + 1⟩

end Heading

/-! ### Front matter -/

namespace FrontMatter

/-- The line that closes front matter opened by `n` marks, looked for from line `i` on, and whether
it belongs to it: in a list item, front matter also ends where the indentation of the item ends. -/
def closing? (r : Region) (n past i : Nat) : Option (Nat × Bool) :=
  if i < past then
    let l := r.line i
    let markStop := r.src.skipWhile (· == '-') (l.start + 1) l.stop
    if r.lineText i == ['.', '.', '.'] then some (i, true)
    else if !l.isEmpty && l.indent < r.indent then some (i, false)
    else if r.src.has '-' l.start && n ≤ markStop - l.start &&
        l.stop ≤ r.src.skipWhile Text.isSpace markStop r.src.size then some (i, true)
    else closing? r n past (i + 1)
  else none
termination_by past - i

/-- Front matter: a first line of at least three marks, and the lines up to one of as many or to one
of three dots. -/
def read? (r : Region) (i past : Nat) : Option Outcome :=
  if i = 0 && r.src.has '-' 0 then
    let start := (r.line 0).start
    let n := r.src.skipWhile (· == '-') (start + 1) r.src.size - start
    if 3 ≤ n then
      (closing? r n past 1).map fun (last, closed) =>
        let content := r.src.slice (r.line 1).first (r.line (last - 1)).stop
        .leaf (.frontMatter content) 0 (if closed then last + 1 else last)
    else none
  else none

end FrontMatter

/-! ### Display mathematics -/

namespace MathBlock

/-- Does the text end in `$$`? -/
def endsInDollars (text : List Char) : Bool :=
  ['$', '$'].isSuffixOf text

/-- What follows a label, read backwards from inside its closing parenthesis: at least one
character, an opening parenthesis, spaces and `$$`. -/
def afterLabel? : List Char → Option (List Char)
  | [] => none
  | c :: r =>
    if c == ')' || c == '$' || c == '\r' || c == '\n' then none
    else
      match r with
      | '(' :: r' =>
        match r'.dropWhile Text.isBlank with
        | '$' :: '$' :: rest => some rest
        | _ => afterLabel? r
      | _ => afterLabel? r

/-- How many characters at the end of a line a labelled end takes: `$$`, a label in parentheses,
and spaces after either. -/
def labelledEnd? (text : List Char) : Option Nat :=
  match text.reverse.dropWhile Text.isBlank with
  | ')' :: r => (afterLabel? r).map fun rest => text.length - rest.length
  | _ => none

/-- Where the mathematics stops on a line that ends it, and whether with a label. -/
def lineEnd? (r : Region) (i : Nat) : Option (Nat × Bool) :=
  let text := r.lineText i
  let stop := (r.line i).stop
  let bare := Text.trim Text.isBlank text
  if endsInDollars bare then some (stop - 2 - (text.length - bare.length), false)
  else (labelledEnd? text).map fun n => (stop - n, true)

/-- The first line from `i` on that ends the mathematics, where it does, and whether with a
label. -/
def closing? (r : Region) (past i : Nat) : Option (Nat × Nat × Bool) :=
  if i < past then
    match lineEnd? r i with
    | some (stop, labelled) => some (i, stop, labelled)
    | none => closing? r past (i + 1)
  else none
termination_by past - i

/-- The mathematics from after its opening on line `i` to the offset `stop` on line `last`. Its
lines keep their indentation, but not the markers of the containers they stand in. -/
def between (r : Region) (i last stop : Nat) : List Char :=
  let start := (r.line i).start + 2
  if i < last then
    r.src.window start (r.line i).stop ++ '\n' :: r.text (i + 1) last 0 true ++
      r.src.window (r.line last).first stop
  else r.src.window start stop

/-- Does the text go on after its opening `$$` to another one? If it does not end there, it is a
line of running text that starts with mathematics. -/
def closesEarly (text : List Char) : Bool :=
  (Text.indexOf? ['$', '$'] (text.drop 2)).isSome

/-- The line on which mathematics that is opened on line `i` ends, where on it, and whether with a
label. It may end on its first line if there is more on it than dollars. -/
def ending? (r : Region) (i past : Nat) : Option (Nat × Nat × Bool) :=
  let text := r.lineText i
  match if 3 < (Text.trim Text.isBlank text).length then lineEnd? r i else none with
  | some (stop, labelled) => some (i, stop, labelled)
  | none => if closesEarly text then none else closing? r past (i + 1)

/-- Mathematics between `$$` and `$$`, which may be followed by a label. -/
def read? (r : Region) (i past : Nat) : Option Outcome :=
  if ['$', '$'].isPrefixOf (r.lineText i) then
    (ending? r i past).map fun (last, stop, labelled) =>
      let content := String.ofList (between r i last stop)
      .leaf (if labelled then .labelledMathBlock content else .mathBlock content) i (last + 1)
  else none

end MathBlock

/-! ### Embedded module statements -/

namespace Esm

/-- Does the text start with `import` or `export` and a blank or brace? -/
def isStatement (text : List Char) : Bool :=
  let rest := text.drop 6
  (text.take 6 == "import".toList || text.take 6 == "export".toList) &&
    (rest.head?.map fun c => Text.isBlank c || c == '{' || c == '*').getD false

/-- The first empty line from `i` on, or the last line. -/
def stop (r : Region) (past i : Nat) : Nat :=
  if i < past then
    if r.isEmpty i then i else stop r past (i + 1)
  else i
termination_by past - i

/-- Does a statement start on the line? Only unindented lines of the document itself hold one. -/
def starts (r : Region) (i : Nat) : Bool :=
  r.isTop && (r.line i).indent == 0 && isStatement (r.lineText i)

/-- A module statement and whatever follows it up to a blank line. -/
def read? (r : Region) (i past : Nat) : Option Outcome :=
  if starts r i then
    let last := stop r past (i + 1)
    let span : Span := ⟨(r.line i).start, (r.line (last - 1)).stop⟩
    some (.leaf (.esm (r.src.cover span) span) i last)
  else none

end Esm

/-! ### Expressions that stand alone -/

namespace FlowExpression

/-- The end of an expression that starts the line and has its last line to itself. -/
def stop? (r : Region) (i past : Nat) : Option Nat :=
  let l := r.line i
  if !l.isEmpty && r.src.has '{' l.start then
    let limit := r.limit past
    match Expression.stop? r.src l.start limit with
    | none => none
    | some stop =>
      let after := r.src.skipWhile Text.isSpace stop limit
      if limit ≤ after || r.src.has '\n' after then some stop else none
  else none

/-- Does an expression stand alone on the line? -/
def starts (r : Region) (i past : Nat) : Bool :=
  (stop? r i past).isSome

/-- An expression that stands alone on its lines. -/
def read? (r : Region) (i past : Nat) : Option Outcome :=
  (stop? r i past).map fun stop =>
    let span : Span := ⟨(r.line i).start, stop⟩
    .leaf (.flowExpression (r.src.cover span) span) i (r.lineReaching stop i + 1)

end FlowExpression

end MdxProse.Block
