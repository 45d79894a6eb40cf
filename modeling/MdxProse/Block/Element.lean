import MdxProse.Block.Leaf
import MdxProse.Tag.Balance
import MdxProse.Tag.Run

/-! # Elements that stand alone

A line of nothing but tags is a block. A single opening tag owns the lines down to the line of its
closing tag, and these are read as blocks in turn. The closing tag is looked for among the lines of
tags only, passing over fenced code. It may share its line: tags before it close elements inside,
and tags after it form a balanced run of their own.
-/

namespace MdxProse.Block.Element

/-- How a line of tags is read. -/
inductive Shape
  /-- A closing tag by itself. -/
  | stray (tag : Tag)
  /-- An opening tag by itself, and the end of its line. -/
  | open_ (tag : Tag) (lineStop : Nat)
  /-- A balanced run, and the end of its line. -/
  | run (tags : List Tag) (lineStop : Nat)
  deriving Repr

/-- The shape of a run of tags; an unbalanced run of several is not read as tags. -/
def Shape.ofRun? : List Tag × Nat → Option Shape
  | ([t], stop) =>
    match t.form with
    | .closing => some (.stray t)
    | .opening => some (.open_ t stop)
    | .selfClosing => some (.run [t] stop)
  | (ts, stop) => if Tag.balanced ts then some (.run ts stop) else none

/-- The shape of the line of tags that starts on line `i`. -/
def shape? (r : Region) (i past : Nat) : Option Shape :=
  let l := r.line i
  if l.isEmpty then none
  else (Tag.run? r.src l.start (r.limit past)).bind Shape.ofRun?

/-- Does a line of tags start here? -/
def starts (r : Region) (i past : Nat) : Bool :=
  (shape? r i past).isSome

/-! ### The closing tag -/

/-- The run of tags that holds a closing tag. -/
structure ClosingRun where
  /-- The line on which the run starts. -/
  line : Nat
  before : List Tag
  closer : Tag
  after : List Tag
  /-- The end of the line on which the run ends. -/
  stop : Nat
  deriving Repr

/-- Looks in a run for the closing tag of an element `name`, `inner` further elements of that name
being open. Answers with the tags before it, the tag and the tags after it, or else with the number
of open elements after the run. -/
def findIn (name : Option String) (inner : Nat) :
    List Tag → (List Tag × Tag × List Tag) ⊕ Nat
  | [] => .inr inner
  | t :: ts =>
    let keep : (List Tag × Tag × List Tag) ⊕ Nat → (List Tag × Tag × List Tag) ⊕ Nat
      | .inl (before, closer, after) => .inl (t :: before, closer, after)
      | .inr n => .inr n
    if t.name = name then
      match t.form, inner with
      | .opening, _ => keep (findIn name (inner + 1) ts)
      | .selfClosing, _ => keep (findIn name inner ts)
      | .closing, 0 => .inl ([], t, ts)
      | .closing, n + 1 => keep (findIn name n ts)
    else keep (findIn name inner ts)

/-- Does the text close code fenced by `n` characters `c`? -/
def closesFence (c : Char) (n : Nat) (text : List Char) : Bool :=
  match Fence.mark? text with
  | some (d, m) => d == c && n ≤ m && (text.drop m).all Text.isBlank
  | none => false

/-- The run that holds the closing tag of an element `name` opened before line `i`. The search is
inside fenced code if `fence` is the mark that opened it. -/
def closingRun? (r : Region) (name : Option String) (past : Nat) (inner : Nat)
    (fence : Option (Char × Nat)) (i : Nat) : Option ClosingRun :=
  if i < past then
    if r.isEmpty i then closingRun? r name past inner fence (i + 1)
    else
      let text := r.lineText i
      match fence with
      | some (c, n) =>
        closingRun? r name past inner (if closesFence c n text then none else some (c, n)) (i + 1)
      | none =>
        match Fence.mark? text with
        | some mark => closingRun? r name past inner (some mark) (i + 1)
        | none =>
          match Tag.run? r.src (r.line i).start (r.limit past) with
          | none => closingRun? r name past inner none (i + 1)
          | some (tags, stop) =>
            match findIn name inner tags with
            | .inl (before, closer, after) =>
              if Tag.leavesNothingOpen before && Tag.balanced after then
                some ⟨i, before, closer, after, stop⟩
              else none
            | .inr n => closingRun? r name past n none (max i (r.lineReaching stop i) + 1)
  else none
termination_by past - i

/-! ### Events -/

/-- The end of the first closing tag that has no partner before it in the run, or `dflt`. -/
def closeStop (dflt : Nat) (inner : Nat) : List Tag → Nat
  | [] => dflt
  | t :: ts =>
    match t.form, inner with
    | .opening, _ => closeStop dflt (inner + 1) ts
    | .selfClosing, _ => closeStop dflt inner ts
    | .closing, 0 => t.span.stop
    | .closing, n + 1 => closeStop dflt n ts

/-- The events of a balanced run of tags. An element reaches from its opening tag to the end of
its closing tag. -/
def runEvents (lines : LineRange) : List Tag → List Event
  | [] => []
  | t :: ts =>
    match t.form with
    | .opening =>
      .enter (.flowElement t.name ⟨t.span.start, closeStop t.span.stop 0 ts⟩) (some lines) ::
        runEvents lines ts
    | .selfClosing =>
      .enter (.flowElement t.name t.span) (some lines) :: .leave .flowElement t.name ::
        runEvents lines ts
    | .closing => .leave .flowElement t.name :: runEvents lines ts

/-- The least indentation of the lines with text from `i` to just before `past`. -/
def leastIndent? (r : Region) (i past : Nat) : Option Int :=
  if i < past then
    let rest := leastIndent? r (i + 1) past
    if r.isEmpty i then rest
    else match rest with
      | some m => some (min (r.line i).indent m)
      | none => some (r.line i).indent
  else none
termination_by past - i

/-- The region inside an element: the lines from `i` to just before `past`, the last one cut off at
the closing tag if other tags come before that on its line. The least indented line counts as not
indented. -/
def inside (r : Region) (closerLine past : Nat) (indent : Int) (run : ClosingRun) : Region :=
  let r' := { r with height := past, indent, isTop := false }
  if run.before.isEmpty then r'
  else r'.setLine closerLine { r.line closerLine with stop := run.closer.span.start }

/-- An element from its opening tag on line `i` to the run that closes it. Its content starts on
line `contentStart`. -/
def readClosed (content : Reader) (r : Region) (opener : Tag) (i contentStart : Nat)
    (run : ClosingRun) : Except SyntaxError Outcome := do
  let closerLine := r.lineReaching run.closer.span.start run.line
  let lastLine := r.lineReaching run.stop closerLine
  let past := if run.before.isEmpty then run.line else closerLine + 1
  let children ←
    match leastIndent? r contentStart past with
    | none => pure (⟨[], [], past⟩ : Outcome)
    | some indent => do
      let c ← content (inside r closerLine past indent run) contentStart past
      pure c.toOutcome
  let kind := Kind.flowElement opener.name ⟨opener.span.start, run.closer.span.stop⟩
  pure {
    events := Event.around kind (some ⟨i, lastLine + 1⟩) children.events ++
      runEvents ⟨closerLine, lastLine + 1⟩ run.after
    definitions := children.definitions
    next := lastLine + 1 }

/-- The block of a line of tags. -/
def read (content : Reader) (r : Region) (i past : Nat) : Shape → Except SyntaxError Outcome
  | .stray t => .error ⟨.strayClosingTag (r.src.cover t.span), some (i + 1)⟩
  | .open_ t lineStop =>
    let contentStart := r.lineReaching lineStop i + 1
    match closingRun? r t.name past 0 none contentStart with
    | none => .error ⟨.unclosedTag (r.src.cover t.span), some (i + 1)⟩
    | some run => readClosed content r t i contentStart run
  | .run ts lineStop =>
    let lastLine := r.lineReaching lineStop i
    .ok ⟨runEvents ⟨i, lastLine + 1⟩ ts, [], lastLine + 1⟩

end MdxProse.Block.Element
