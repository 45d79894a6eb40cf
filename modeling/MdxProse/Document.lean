import MdxProse.Source

/-! # Documents

A document is a source whose line breaks are all single line feeds and which holds no NUL. Every
offset the library reports counts the characters of this text, so the text is put into this form
once, before anything reads it.
-/

namespace MdxProse

/-- The text with every `\r\n` and every lone `\r` made one `\n`. -/
def unifyBreaks : List Char → List Char
  | [] => []
  | '\r' :: '\n' :: r => '\n' :: unifyBreaks r
  | '\r' :: r => '\n' :: unifyBreaks r
  | c :: r => c :: unifyBreaks r

/-- The replacement character stands for what a text must not hold. -/
def replacement : Char := '\uFFFD'

/-- The text with every NUL made a replacement character. -/
def replaceNul (s : List Char) : List Char :=
  s.map fun c => if c == '\x00' then replacement else c

/-- The form in which a text is read: line feeds only, no NUL. -/
def normalize (s : List Char) : List Char :=
  replaceNul (unifyBreaks s)

/-- A normalised text. -/
structure Document where
  source : Source
  deriving Repr

namespace Document

/-- The document of a text. -/
def ofString (s : String) : Document :=
  ⟨(normalize s.toList).toArray⟩

/-- The normalised text. -/
def text (d : Document) : String :=
  d.source.toString

end Document

/-! ### Positions -/

/-- Why two numbers are no position. -/
inductive PositionError
  | negativeStart
  | reversed (start stop : Int)
  deriving DecidableEq, Repr

/-- The wording of a refused position. -/
def PositionError.message : PositionError → String
  | negativeStart => "Input should be greater than or equal to 0"
  | reversed start stop => s!"Value error, position end {stop} precedes start {start}"

/-- The span between two numbers: the first must not be negative, nor the second smaller. -/
def Span.ofInts (start stop : Int) : Except PositionError Span :=
  if start < 0 then .error .negativeStart
  else if stop < start then .error (.reversed start stop)
  else .ok ⟨start.toNat, stop.toNat⟩

end MdxProse
