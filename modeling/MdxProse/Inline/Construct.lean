import MdxProse.Block.Region
import MdxProse.Inline.Emphasis
import MdxProse.Link.Target
import MdxProse.Tag.Closer

/-! # Constructs of running text

What starts at a position of running text is recognised in one place, whether the text is read for
its events or only passed over in search of the end of a link label. Passing over remembers where
constructs end; so does the search for closing grave accents. A construct may end beyond the limit
up to which the text is read: code and mathematics are looked for in the whole text.
-/

namespace MdxProse.Inline

/-- A text with the link definitions that hold for it. -/
structure Setting where
  src : Source
  definitions : List Block.Definition

/-- What has been found out about a text. -/
structure Memo where
  /-- Where the construct at a position ends, as far as it has been passed over. -/
  ends : Array (Option Nat)
  /-- Where a run of grave accents of some length starts, the last one seen. -/
  runs : List (Nat × Nat)
  /-- Have all runs of grave accents been seen? -/
  sawAll : Bool
  deriving Repr

/-- Nothing is known yet. -/
def Memo.empty (src : Source) : Memo :=
  ⟨Array.replicate src.size none, [], false⟩

/-- What starts at a position. -/
inductive Construct
  /-- Characters that mean themselves. -/
  | plain
  | lineBreak
  | hardBreak
  | escaped (text : String)
  | code (content : String)
  | math (content : String)
  /-- A run of emphasis marks. -/
  | delimiters
  | link (label : Span) (href title : String)
  | image (label : Span) (target title : String)
  | expression
  /-- A tag that is an element by itself. -/
  | element (tag : Tag)
  | pair (opener closer : Tag)
  /-- A fault, which counts only when the text is read for its events. -/
  | fault (f : SyntaxFault)
  deriving Repr

/-- A construct and the offset just past it. -/
structure Found where
  construct : Construct
  stop : Nat
  deriving Repr

/-! ### Constructs without a label -/

/-- A character at which something other than plain text may start. -/
def isSpecial (c : Char) : Bool :=
  "\n!#$%&*+-:<=>@[\\]^_\x60\x7b\x7d~".toList.contains c

/-- Plain characters up to the next special one. -/
def plain? (src : Source) (pos limit : Nat) : Option Found :=
  let stop := src.skipWhile (!isSpecial ·) pos src.size
  if stop = pos then none
  else some ⟨.plain, if stop < src.size then stop else limit⟩

/-- A backslash and what it escapes: a line break, punctuation, or any other character, which keeps
its backslash. -/
def escape? (src : Source) (pos limit : Nat) : Option Found :=
  if limit ≤ pos + 1 then none
  else
    match src[pos + 1]? with
    | none => none
    | some '\n' => some ⟨.hardBreak, src.skipWhile Text.isSpace (pos + 2) limit⟩
    | some c =>
      let text := if Text.isAsciiPunctuation c then [c] else ['\\', c]
      some ⟨.escaped (String.ofList text), pos + 2⟩

/-- A character reference. -/
def reference? (src : Source) (pos limit : Nat) : Option Found :=
  if limit ≤ pos + 1 then none
  else do
    let (name, _) ← Text.referenceName? (src.window (pos + 1) (pos + 34))
    let text ← Text.reference? name
    some ⟨.escaped (String.ofList text), pos + name.length + 2⟩

/-! ### Mathematics -/

/-- Does an odd number of backslashes come before `pos`? The text is read as a ring: before its
start stands its last character. -/
def isEscaped (src : Source) (pos : Nat) : Bool :=
  let run := ((src.window 0 pos).reverse.takeWhile (· == '\\')).length
  let n := if run = pos && src.back? == some '\\' then run + 1 else run
  n % 2 == 1

/-- The next dollar that is not escaped, from `pos` on. -/
def dollar? (src : Source) (pos : Nat) : Option Nat :=
  if pos < src.size then
    if src.has '$' pos && !isEscaped src pos then some pos else dollar? src (pos + 1)
  else none
termination_by src.size - pos

/-- Mathematics between dollars. -/
def math? (src : Source) (pos : Nat) : Option Found :=
  if isEscaped src pos then none
  else
    match dollar? src (pos + 1) with
    | none => none
    | some stop =>
      if stop = pos + 1 then none else some ⟨.math (src.slice (pos + 1) stop), stop + 1⟩

/-! ### Code -/

/-- The text of a code span: line breaks become spaces, and one space at each end goes if there is
one at both and the text is not all blank. -/
def codeText (w : List Char) : List Char :=
  let w := w.map fun c => if c == '\n' then ' ' else c
  if w.head? == some ' ' && w.getLast? == some ' ' && !w.all Text.isBlank then
    (w.drop 1).dropLast
  else w

/-- The first run of exactly `n` grave accents from `pos` on: its ends. Runs of other lengths are
remembered. -/
def closingRun (src : Source) (n limit : Nat) (pos : Nat) (memo : Memo) :
    Option (Nat × Nat) × Memo :=
  if pos < src.size then
    if src.has '\x60' pos then
      let stop := max (pos + 1) (src.skipWhile CodeSpan.isMark pos limit)
      if stop - pos = n then (some (pos, stop), memo)
      else closingRun src n limit stop { memo with runs := (stop - pos, pos) :: memo.runs }
    else closingRun src n limit (pos + 1) memo
  else (none, { memo with sawAll := true })
termination_by src.size - pos

/-- A code span, or a run of grave accents without a partner. -/
def code? (src : Source) (pos limit : Nat) (memo : Memo) : Option Found × Memo :=
  let start := src.skipWhile CodeSpan.isMark pos limit
  let n := start - pos
  if memo.sawAll && (memo.runs.lookup n).getD 0 ≤ pos then (some ⟨.plain, start⟩, memo)
  else
    match closingRun src n limit start memo with
    | (some (stop, past), memo) =>
      (some ⟨.code (String.ofList (codeText (src.window start stop))), past⟩, memo)
    | (none, memo) => (some ⟨.plain, start⟩, memo)

/-! ### Embedded code -/

/-- A tag, with its partner if it opens an element. -/
def tag? (src : Source) (pos limit : Nat) : Option Found :=
  (Tag.scan? src pos limit).map fun t =>
    match t.form with
    | .selfClosing => ⟨.element t, t.span.stop⟩
    | .closing => ⟨.fault (.strayClosingTag (src.cover t.span)), t.span.stop⟩
    | .opening =>
      match Tag.partner? src t limit with
      | some closer => ⟨.pair t closer, closer.span.stop⟩
      | none => ⟨.fault (.unclosedTag (src.cover t.span)), t.span.stop⟩

/-- A braced expression. -/
def expression (src : Source) (pos limit : Nat) : Found :=
  match Expression.stop? src pos limit with
  | some stop => ⟨.expression, stop⟩
  | none => ⟨.fault .unclosedExpression, pos + 1⟩

/-! ### Links and images -/

/-- The search for the end of a label: `label nested start` looks from just after the bracket at
`start`, and gives up at a nested link unless `nested`. -/
abbrev LabelSearch := Bool → Nat → Memo → Option Nat × Memo

/-- The target and title in parentheses after a label, read from after the opening one, and the
place where the closing one should be. An unsafe target is none. -/
def target? (src : Source) (pos limit : Nat) : Option (String × String × Nat) :=
  let start := src.skipWhile Text.isGap pos limit
  if limit ≤ start then none
  else
    let w := src.window start limit
    let (href, after) :=
      match Link.target? w with
      | some (raw, rest) =>
        let href := Link.normalizeUrl (Text.unescape raw)
        if Link.isSafe href then (href, start + (w.length - rest.length)) else ([], start)
      | none => ([], start)
    let gapStop := src.skipWhile Text.isGap after limit
    let v := src.window gapStop limit
    match if after = gapStop then none else Link.title? v with
    | some (raw, rest) =>
      some (String.ofList href, String.ofList (Text.unescape raw),
        src.skipWhile Text.isGap (gapStop + (v.length - rest.length)) limit)
    | none => some (String.ofList href, "", gapStop)

/-- The definition that a label refers to. -/
def Setting.define? (s : Setting) (label : Span) : Option Block.Definition :=
  let key := Link.normalizeLabel (s.src.window label.start label.stop)
  s.definitions.find? (·.label == key)

/-- The definition that the text `label` refers to, by itself or by a second label at `pos`, and
where the reference ends. -/
def definition? (s : Setting) (search : LabelSearch) (label : Span) (pos limit : Nat)
    (memo : Memo) : Option (Block.Definition × Nat) × Memo :=
  if s.definitions.isEmpty then (none, memo)
  else
    let (second, memo) :=
      if pos < limit && s.src.has '[' pos then search true pos memo else (none, memo)
    let (name, stop) : Span × Nat :=
      match second with
      | some e => (if e = pos + 1 then label else ⟨pos + 1, e⟩, e + 1)
      | none => (label, label.stop + 1)
    ((s.define? name).map (·, stop), memo)

/-- A link: a label, and a target in parentheses or a definition. -/
def link? (s : Setting) (search : LabelSearch) (pos limit : Nat) (memo : Memo) :
    Option Found × Memo :=
  match search false pos memo with
  | (none, memo) => (none, memo)
  | (some labelStop, memo) =>
    let label : Span := ⟨pos + 1, labelStop⟩
    let after := labelStop + 1
    let byDefinition (from_ : Nat) (memo : Memo) : Option Found × Memo :=
      let (d, memo) := definition? s search label from_ limit memo
      (d.map fun (d, stop) => ⟨.link label d.href d.title, stop⟩, memo)
    if after < limit && s.src.has '(' after then
      match target? s.src (after + 1) limit with
      | none => (none, memo)
      | some (href, title, close) =>
        if close < limit && s.src.has ')' close then
          (some ⟨.link label href title, close + 1⟩, memo)
        else byDefinition (close + 1) memo
    else byDefinition after memo

/-- An image: as a link, but after an exclamation mark, and its label may hold links. -/
def image? (s : Setting) (search : LabelSearch) (pos limit : Nat) (memo : Memo) :
    Option Found × Memo :=
  if pos + 1 < limit && !s.src.has '[' (pos + 1) then (none, memo)
  else
    match search true (pos + 1) memo with
    | (none, memo) => (none, memo)
    | (some labelStop, memo) =>
      let label : Span := ⟨pos + 2, labelStop⟩
      let after := labelStop + 1
      if after < limit && s.src.has '(' after then
        match target? s.src (after + 1) limit with
        | none => (none, memo)
        | some (target, title, close) =>
          if close < limit && s.src.has ')' close then
            (some ⟨.image label target title, close + 1⟩, memo)
          else (none, memo)
      else
        let (d, memo) := definition? s search label after limit memo
        (d.map fun (d, stop) => ⟨.image label d.href d.title, stop⟩, memo)

/-! ### Recognition -/

/-- What starts at a position, if anything does that is more than the character there. -/
def recognize (s : Setting) (search : LabelSearch) (limit pos : Nat) (memo : Memo) :
    Option Found × Memo :=
  match s.src[pos]? with
  | none => (none, memo)
  | some c =>
    match c with
    | '\n' => (some ⟨.lineBreak, s.src.skipWhile Text.isSpace (pos + 1) limit⟩, memo)
    | '$' => (math? s.src pos, memo)
    | '\\' => (escape? s.src pos limit, memo)
    | '\x60' => code? s.src pos limit memo
    | '*' => (some ⟨.delimiters, s.src.skipWhile (· == '*') pos limit⟩, memo)
    | '_' => (some ⟨.delimiters, s.src.skipWhile (· == '_') pos limit⟩, memo)
    | '[' => link? s search pos limit memo
    | '!' => image? s search pos limit memo
    | '<' => (tag? s.src pos limit, memo)
    | '{' => (some (expression s.src pos limit), memo)
    | '&' => (reference? s.src pos limit, memo)
    | _ => (plain? s.src pos limit, memo)

/-! ### Passing over -/

/-- The end of a label that starts before `pos`, with `depth` further brackets open. -/
def labelStop (src : Source) (skip : Nat → Memo → Nat × Memo) (limit : Nat) (nested : Bool)
    (depth pos : Nat) (memo : Memo) : Option Nat × Memo :=
  if pos < limit then
    if src.has ']' pos && depth = 0 then (some pos, memo)
    else
      let (next, memo) := skip pos memo
      if _h : pos < next then
        if src.has ']' pos then labelStop src skip limit nested (depth - 1) next memo
        else if src.has '[' pos then
          if next = pos + 1 then labelStop src skip limit nested (depth + 1) next memo
          else if nested then labelStop src skip limit nested depth next memo
          else (none, memo)
        else labelStop src skip limit nested depth next memo
      else (none, memo)
  else (none, memo)
termination_by limit - pos

/-- Where the construct at a position ends that has not been passed over before. Faults and emphasis
marks are passed over character by character. -/
def foundStop (pos : Nat) : Option Found → Nat
  | none => pos + 1
  | some f =>
    match f.construct with
    | .delimiters => pos + 1
    | .fault _ => pos + 1
    | _ => f.stop

/-- The position after the construct at a position. Labels inside labels are followed down `room`
levels; at the last one, everything up to the limit is passed over. -/
def skip (s : Setting) (limit : Nat) : Nat → Nat → Memo → Nat × Memo
  | room, pos, memo =>
    match (memo.ends[pos]?).join with
    | some stop => (stop, memo)
    | none =>
      let (stop, memo) :=
        match room with
        | 0 => (limit + 1, memo)
        | n + 1 =>
          let search : LabelSearch := fun nested start memo =>
            labelStop s.src (skip s limit n) limit nested 0 (start + 1) memo
          let (found, memo) := recognize s search limit pos memo
          (foundStop pos found, memo)
      (stop, { memo with ends := memo.ends.setIfInBounds pos (some stop) })

/-- The search for labels at a place with `room` levels left. -/
def labelSearch (s : Setting) (limit room : Nat) : LabelSearch := fun nested start memo =>
  labelStop s.src (skip s limit room) limit nested 0 (start + 1) memo

end MdxProse.Inline
