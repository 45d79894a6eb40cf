import MdxProse.Proofs.Blocks

/-!
# Reading blocks in place

The readers of blocks hand a region of its own to the content of a container.  They can also share
one state that is changed and put back: the rules for embedded code then overwrite the bounds of the
state and the end of a line, call the reader of blocks on what is left, and restore them.

* `State`: the shared state, with the tables of the lines.  `State.region`: what it shows.
* `Trouble`: a fault of the document, or a place outside the tables, which no run should come to.
* `CodeRule.call`: a rule for embedded code.  A *silent* call only tells whether a block starts.
* `State.tokenize`: the reader of blocks.  Containers that mark their lines and all other blocks are
  read as before.
* `State.after`: what the readers that leave their region alone make of a state.
-/

namespace MdxProse

/-! ### Levels -/

/-- How many more nodes are open after an event. -/
def Event.rise : Event → Int
  | .enter .. => 1
  | .leave .. => -1
  | .leaf .. => 0

/-- How many more nodes are open after a stream. -/
def Event.rises : List Event → Int
  | [] => 0
  | e :: es => e.rise + rises es

/-- The event with another end of its element. -/
def Event.endAt (stop : Nat) : Event → Event
  | .enter (.flowElement name span) l => .enter (.flowElement name ⟨span.start, stop⟩) l
  | e => e

namespace Event

@[simp]
theorem rises_nil : rises [] = 0 := rfl

@[simp]
theorem rises_cons (e : Event) (es : List Event) : rises (e :: es) = e.rise + rises es := rfl

@[simp]
theorem rises_append (es es' : List Event) : rises (es ++ es') = rises es + rises es' := by
  induction es with
  | nil => rw [List.nil_append, rises_nil, Int.zero_add]
  | cons e es ih => rw [List.cons_append, rises_cons, rises_cons, ih, Int.add_assoc]

@[simp]
theorem rises_around (k : Kind) (l : Option LineRange) (es : List Event) :
    rises (around k l es) = rises es := by
  simp only [around, leaving, List.cons_append, rises_cons, rises_append, rises_nil, rise]
  omega

end Event

namespace Block

/-! ### The state -/

/-- What the rules share. -/
structure State where
  src : Source
  lines : Array Line
  height : Nat
  indent : Int
  listIndent : Int
  /-- How many nodes are open. -/
  level : Int
  /-- The line to go on from. -/
  line : Nat
  events : List Event
  definitions : List Definition

/-- Why a rule stops. -/
inductive Trouble
  | fault (e : SyntaxError)
  /-- A line that is none, or an element that is closed though none is open. -/
  | outOfRange

namespace State

/-- The state before anything has been read of a source. -/
def ofSource (src : Source) : State :=
  ⟨src, Line.table src, (Line.table src).size, 0, -1, 0, 0, [], []⟩

/-- The region that the state shows. Only where no node is open it is the whole document. -/
def region (st : State) : Region :=
  ⟨st.src, st.lines, st.height, st.indent, st.listIndent, st.level == 0⟩

/-- Adds an event. -/
def push (st : State) (e : Event) : State :=
  { st with events := st.events ++ [e], level := st.level + e.rise }

/-- Adds the events of a block. -/
def pushAll (st : State) (es : List Event) : State :=
  { st with events := st.events ++ es, level := st.level + Event.rises es }

/-- Goes on after a block that has been read. -/
def take (st : State) (o : Outcome) : State :=
  { st.pushAll o.events with definitions := st.definitions ++ o.definitions, line := o.next }

/-- The state after what a reader has read that leaves its region alone. -/
def after (st : State) : Except SyntaxError Outcome → Except Trouble State
  | .ok o => .ok (st.take o)
  | .error e => .error (.fault e)

/-- Goes on from another line. -/
def goTo (st : State) (line : Nat) : State :=
  { st with line }

/-- Sets the end of the element that was entered by the event with number `k`. -/
def setEnd (st : State) (k stop : Nat) : State :=
  { st with events := st.events.modify k (Event.endAt stop) }

/-- Sets the end of a line. -/
def setStop (st : State) (k stop : Nat) : State :=
  { st with lines := st.lines.setIfInBounds k { st.region.line k with stop } }

/-- The lines from `i` to just before `past` have to be lines of the table. -/
def ensure (st : State) (i past : Nat) : Except Trouble Unit :=
  if i < past ∧ past ≤ st.lines.size then .ok () else .error .outOfRange

/-- The line from `i` on that reaches to the offset. It has to come before `past`. -/
def lineAt (st : State) (past offset i : Nat) : Except Trouble Nat :=
  if i < past then
    if (st.region.line i).stop < offset then lineAt st past offset (i + 1) else .ok i
  else .error .outOfRange
termination_by past - i

end State

/-- A reader of the blocks between two lines that changes the state. -/
abbrev InPlace := State → Nat → Nat → Except Trouble State

/-! ### Elements in place -/

namespace State

/-- Adds the events of a run of tags. An opening tag is entered with its own end, which is set to
that of its closing tag when that comes; `openers` are the events of the open ones, innermost
first. -/
def pushRun (lines : LineRange) : List Nat → List Tag → State → Except Trouble State
  | _, [], st => .ok st
  | openers, t :: ts, st =>
    match t.form with
    | .opening =>
      pushRun lines (st.events.length :: openers) ts
        (st.push (.enter (.flowElement t.name t.span) (some lines)))
    | .selfClosing =>
      pushRun lines openers ts ((st.push (.enter (.flowElement t.name t.span) (some lines))).push
        (.leave .flowElement t.name))
    | .closing =>
      match openers with
      | [] => .error .outOfRange
      | k :: openers =>
        pushRun lines openers ts ((st.setEnd k t.span.stop).push (.leave .flowElement t.name))

/-- The run that holds the closing tag of an element `name` opened before line `i`. -/
def closingRun (st : State) (name : Option String) (past : Nat) (inner : Nat)
    (fence : Option (Char × Nat)) (i : Nat) : Except Trouble (Option Element.ClosingRun) :=
  if i < past then
    if st.region.isEmpty i then closingRun st name past inner fence (i + 1)
    else
      let text := st.region.lineText i
      match fence with
      | some (c, n) =>
        closingRun st name past inner (if Element.closesFence c n text then none else some (c, n))
          (i + 1)
      | none =>
        match Fence.mark? text with
        | some mark => closingRun st name past inner (some mark) (i + 1)
        | none =>
          match Tag.run? st.src (st.region.line i).start (st.region.limit past) with
          | none => closingRun st name past inner none (i + 1)
          | some (tags, stop) =>
            match Element.findIn name inner tags with
            | .inl (before, closer, after) =>
              .ok (if Tag.leavesNothingOpen before && Tag.balanced after then
                some ⟨i, before, closer, after, stop⟩
              else none)
            | .inr n => do
              let last ← st.lineAt past stop i
              closingRun st name past n none (max i last + 1)
  else .ok none
termination_by past - i

/-- Sets the bounds for the content of an element, and cuts the line of its closing tag off at that
tag if other tags come before it there. -/
def inside (st : State) (closerLine past : Nat) (indent : Int) (run : Element.ClosingRun) : State :=
  let st := { st with height := past, indent }
  if run.before.isEmpty then st else st.setStop closerLine run.closer.span.start

/-- Puts the bounds and the end of the line back to what they were. -/
def putBack (st old : State) (closerLine : Nat) : State :=
  { st with height := old.height, indent := old.indent }.setStop closerLine
    (old.region.line closerLine).stop

/-- An element from its opening tag on line `i` to the run that closes it. Its content starts on
line `contentStart`. -/
def pushRegion (tokenize : InPlace) (st : State) (opener : Tag) (i contentStart past : Nat)
    (run : Element.ClosingRun) : Except Trouble State := do
  let closerLine ← st.lineAt past run.closer.span.start run.line
  let lastLine ← st.lineAt past run.stop closerLine
  let st := st.push (.enter (.flowElement opener.name ⟨opener.span.start, run.closer.span.stop⟩)
    (some ⟨i, lastLine + 1⟩))
  let contentStop := if run.before.isEmpty then run.line else closerLine + 1
  let st ←
    match Element.leastIndent? st.region contentStart contentStop with
    | none => pure st
    | some least => do
      let st' ← tokenize (st.inside closerLine contentStop least run) contentStart contentStop
      pure (st'.putBack st closerLine)
  let st := st.push (.leave .flowElement opener.name)
  let st ← st.pushRun ⟨closerLine, lastLine + 1⟩ [] run.after
  pure (st.goTo (lastLine + 1))

end State

/-! ### The rules -/

/-- The rules for the blocks of embedded code. -/
inductive CodeRule
  | statement
  | expression
  | element
  deriving DecidableEq, Repr

namespace CodeRule

/-- Calls the rule on a line, and tells whether its block starts there. If not silent, the call
reads the block. -/
def call (tokenize : InPlace) (rule : CodeRule) (st : State) (i past : Nat) (silent : Bool) :
    Except Trouble (Bool × State) := do
  st.ensure i past
  match rule with
  | .statement =>
    if !Esm.starts st.region i then return (false, st)
    if silent then return (true, st)
    let next := Esm.stop st.region past (i + 1)
    let span : Span := ⟨(st.region.line i).start, (st.region.line (next - 1)).stop⟩
    let st := st.push (.leaf (.esm (st.src.cover span) span) (some ⟨i, next⟩) [])
    return (true, st.goTo next)
  | .expression =>
    match FlowExpression.stop? st.region i past with
    | none => return (false, st)
    | some stop =>
      if silent then return (true, st)
      let last ← st.lineAt past stop i
      let span : Span := ⟨(st.region.line i).start, stop⟩
      let st := st.push (.leaf (.flowExpression (st.src.cover span) span) (some ⟨i, last + 1⟩) [])
      return (true, st.goTo (last + 1))
  | .element =>
    match Element.shape? st.region i past with
    | none => return (false, st)
    | some shape =>
      if silent then return (true, st)
      match shape with
      | .stray t => throw (.fault ⟨.strayClosingTag (st.src.cover t.span), some (i + 1)⟩)
      | .open_ t stop =>
        let last ← st.lineAt past stop i
        match ← st.closingRun t.name past 0 none (last + 1) with
        | none => throw (.fault ⟨.unclosedTag (st.src.cover t.span), some (i + 1)⟩)
        | some run => return (true, ← st.pushRegion tokenize t i (last + 1) past run)
      | .run ts stop =>
        let last ← st.lineAt past stop i
        let st ← st.pushRun ⟨i, last + 1⟩ [] ts
        return (true, st.goTo (last + 1))

/-- Does the block of the rule start on the line? -/
def starts (rule : CodeRule) (r : Region) (i past : Nat) : Bool :=
  match rule with
  | .statement => Esm.starts r i
  | .expression => FlowExpression.starts r i past
  | .element => Element.starts r i past

/-- The block of the rule, as it is read by a reader that leaves the region alone. -/
def read? (content : Reader) (rule : CodeRule) (r : Region) (i past : Nat) :
    Option (Except SyntaxError Outcome) :=
  match rule with
  | .statement => (Esm.read? r i past).map .ok
  | .expression => (FlowExpression.read? r i past).map .ok
  | .element => (Element.shape? r i past).map (Element.read content r i past)

/-- Calls the rules one after the other until one of them reads a block. -/
def firstOf (tokenize : InPlace) : List CodeRule → State → Nat → Nat →
    Except Trouble (Bool × State)
  | [], st, _, _ => .ok (false, st)
  | rule :: rules, st, i, past => do
    let (done, st) ← rule.call tokenize st i past false
    if done then pure (true, st) else firstOf tokenize rules st i past

end CodeRule

/-! ### Reading in place -/

namespace State

/-- The block that starts on line `i`. Front matter and mathematics come before the rules for
embedded code, and all other blocks after them. -/
def block (tokenize : InPlace) (one two : Reader) : InPlace := fun st i past =>
  match FrontMatter.read? st.region i past <|> MathBlock.read? st.region i past with
  | some o => .ok (st.take o)
  | none => do
    let (done, st) ← CodeRule.firstOf tokenize [.statement, .expression, .element] st i past
    if done then pure st else st.after (readBlock one two st.region i past)

/-- The blocks from line `i` on. -/
def blocks (block : InPlace) (past : Nat) (st : State) (i : Nat) : Except Trouble State :=
  if i < past then
    let start := st.region.skipEmpty i
    if past ≤ start || (st.region.line start).indent < st.indent then .ok (st.goTo start)
    else do
      let st ← block st start past
      let next := passEmpty st.region past st.line
      if _h : i < next then blocks block past st next else pure st
  else .ok (st.goTo i)
termination_by past - i

/-- The content of a container that may hold `room` levels of containers. -/
def tokenize : Nat → InPlace
  | 0 => fun st i past =>
    let start := st.region.skipEmpty i
    .ok (st.goTo
      (if past ≤ start || (st.region.line start).indent < st.indent then start else past))
  | 1 => fun st i past => st.blocks (block (tokenize 0) (read 0) (read 0)) past i
  | n + 2 => fun st i past => st.blocks (block (tokenize (n + 1)) (read (n + 1)) (read n)) past i

end State

end Block

end MdxProse
