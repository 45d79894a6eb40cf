import MdxProse.Inline.Construct

/-! # Reading running text

Running text is read into a stream of events. Links and elements are read one level further in;
the label of an image is a text of its own. At the deepest level characters are plain text.
-/

namespace MdxProse.Inline

/-! ### The text so far -/

/-- What has been read of a text at one level. -/
structure Progress where
  /-- Plain characters not yet put into an event, last first. -/
  pending : List Char
  events : Array Event
  delimiters : List Delimiter
  memo : Memo

namespace Progress

/-- The start of a text. -/
def start (memo : Memo) : Progress :=
  ⟨[], #[], [], memo⟩

/-- Puts the plain characters into an event. -/
def flush (p : Progress) : Progress :=
  if p.pending.isEmpty then p
  else { p with
    pending := []
    events := p.events.push (.atom (.text (String.ofList p.pending.reverse))) }

/-- Adds events after the text so far. -/
def add (p : Progress) (es : List Event) : Progress :=
  let p := p.flush
  { p with events := p.events ++ es }

/-- Adds plain characters. -/
def addText (p : Progress) (w : List Char) : Progress :=
  { p with pending := w.reverse ++ p.pending }

/-- Adds a line break. After two spaces it is a hard one; spaces before it go. -/
def addBreak (p : Progress) : Progress :=
  match p.pending with
  | ' ' :: ' ' :: r =>
    { p with pending := r.dropWhile (· == ' ') }.add [.atom .hardBreak]
  | ' ' :: r => { p with pending := r }.add [.atom .softBreak]
  | _ => p.add [.atom .softBreak]

/-- Adds a run of emphasis marks. -/
def addDelimiters (p : Progress) (src : Source) (pos limit : Nat) : Progress :=
  let p := p.flush
  let ds := Delimiter.scan src pos limit p.events.size
  { p with
    events := p.events ++ ds.map fun d => Event.atom (.text (String.singleton d.mark))
    delimiters := p.delimiters ++ ds }

/-- The events of a text that has been read to its end. -/
def finish (p : Progress) : List Event × Memo :=
  let p := p.flush
  ((Delimiter.resolve p.delimiters p.events).toList, p.memo)

end Progress

/-! ### Joining texts -/

/-- Joins texts that stand next to each other. -/
def joinTexts : List Event → List Event
  | [] => []
  | .leaf (.text a) l i :: es =>
    match joinTexts es with
    | .leaf (.text b) _ _ :: rest => .leaf (.text (a ++ b)) l i :: rest
    | rest => .leaf (.text a) l i :: rest
  | e :: es => e :: joinTexts es

/-- Makes plain text of escaped characters. -/
def plainEscape : Event → Event
  | .leaf (.escaped a) l i => .leaf (.text a) l i
  | e => e

/-- Joins escaped characters to the text around them. -/
def joinEscapes (es : List Event) : List Event :=
  joinTexts (es.map plainEscape)

/-! ### Reading -/

/-- A reader of the text between a position and a limit. -/
abbrev Reader := (limit pos : Nat) → Memo → Except SyntaxError (List Event × Memo)

/-- The events of a construct that is no plain text, no break and no run of marks. Nested text is
read by `inner`, labels of images by `label`. -/
def constructEvents (src : Source) (inner : Reader)
    (label : Source → Except SyntaxError (List Event)) (pos stop : Nat) (memo : Memo) :
    Construct → Except SyntaxError (List Event × Memo)
  | .escaped text => .ok ([.atom (.escaped text)], memo)
  | .code content => .ok ([.atom (.code content)], memo)
  | .math content => .ok ([.atom (.math content)], memo)
  | .hardBreak => .ok ([.atom .hardBreak], memo)
  | .link l href title => do
    let (es, memo) ← inner l.stop l.start memo
    pure (Event.around (.link href title) none es, memo)
  | .image l target title => do
    let content := src.extract l.start l.stop
    let es ← label content
    pure ([.leaf (.image target title (Source.toString content)) none es], memo)
  | .expression =>
    let span : Span := ⟨pos, stop⟩
    .ok ([.atom (.textExpression (src.cover span) span)], memo)
  | .element t => .ok (Event.around (.textElement t.name t.span) none [], memo)
  | .pair opener closer => do
    let (es, memo) ← inner closer.span.start opener.span.stop memo
    pure (Event.around (.textElement opener.name ⟨opener.span.start, closer.span.stop⟩) none es,
      memo)
  | .fault f => .error ⟨f, none⟩
  | .plain | .lineBreak | .delimiters => .ok ([], memo)

/-- Reads on from a position. -/
def readFrom (s : Setting) (search : LabelSearch) (inner : Reader)
    (label : Source → Except SyntaxError (List Event)) (limit pos : Nat) (p : Progress) :
    Except SyntaxError Progress := do
  if pos < limit then
    let (found, memo) := recognize s search limit pos p.memo
    let p := { p with memo }
    match found with
    | none => readFrom s search inner label limit (pos + 1) (p.addText (s.src.window pos (pos + 1)))
    | some f =>
      let p ←
        match f.construct with
        | .plain => pure (p.addText (s.src.window pos f.stop))
        | .lineBreak => pure p.addBreak
        | .delimiters => pure (p.addDelimiters s.src pos limit)
        | c => do
          let (es, memo) ← constructEvents s.src inner label pos f.stop p.memo c
          pure { p.add es with memo }
      readFrom s search inner label limit (max f.stop (pos + 1)) p
  else pure p
termination_by limit - pos

/-- Reads text with `room` levels left. -/
def read (s : Setting) (label : Source → Except SyntaxError (List Event)) : Nat → Reader
  | 0 => fun limit pos memo =>
    .ok (((Progress.start memo).addText (s.src.window pos limit)).finish)
  | n + 1 => fun limit pos memo => do
    let p ← readFrom s (labelSearch s limit (n + 1)) (read s label n) label limit pos
      (Progress.start memo)
    pure p.finish

/-- The events of a text by itself. Escaped characters are still apart from the text around them. -/
def events (definitions : List Block.Definition) (src : Source) :
    Except SyntaxError (List Event) := do
  let label : Source → Except SyntaxError (List Event) := fun content =>
    if _h : content.size < src.size then events definitions content else .ok []
  let (es, _) ← read ⟨src, definitions⟩ label maxDepth src.size 0 (Memo.empty src)
  pure (joinTexts es)
termination_by src.size

end MdxProse.Inline
