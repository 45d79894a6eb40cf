import MdxProse.Event
import MdxProse.Text.Blank
import MdxProse.Text.Punctuation

/-! # Emphasis

Runs of `*` or `_` are written down as single marks of text first. What stands on both sides of a
run tells whether its marks may open emphasis, close it, or both. At the end of the text each
closing mark looks back for the nearest opening one that fits; the marks between the two are then
out of play, so that matched pairs nest. Two pairs right inside each other are strong emphasis.
-/

namespace MdxProse.Inline

/-- A mark of emphasis. -/
structure Delimiter where
  mark : Char
  /-- How many marks the run has that the mark belongs to. -/
  runLength : Nat
  opens : Bool
  closes : Bool
  /-- Which event of the text the mark is. -/
  place : Nat
  deriving DecidableEq, Repr, Inhabited

namespace Delimiter

/-- Is the character punctuation next to a run of marks? -/
def isPunctuation (c : Char) : Bool :=
  Text.isAsciiPunctuation c || Text.isPunctuation c

/-- May a run between the characters `before` and `after` open emphasis, and may it close it? An
underscore does neither in the middle of a word. -/
def flanking (mark before after : Char) : Bool × Bool :=
  let spaceBefore := Text.isFlankingSpace before
  let spaceAfter := Text.isFlankingSpace after
  let pointBefore := isPunctuation before
  let pointAfter := isPunctuation after
  let left := !spaceAfter && (!pointAfter || spaceBefore || pointBefore)
  let right := !spaceBefore && (!pointBefore || spaceAfter || pointAfter)
  if mark == '*' then (left, right)
  else (left && (!right || pointBefore), right && (!left || pointAfter))

/-- The marks of the run at `pos`, the first of which becomes the event `place`. -/
def scan (src : Source) (pos limit place : Nat) : List Delimiter :=
  match src[pos]? with
  | none => []
  | some mark =>
    let stop := src.skipWhile (· == mark) pos limit
    let before := if pos = 0 then ' ' else (src[pos - 1]?).getD ' '
    let after := if stop < limit then (src[stop]?).getD ' ' else ' '
    let (opens, closes) := flanking mark before after
    (List.range (stop - pos)).map fun k => ⟨mark, stop - pos, opens, closes, place + k⟩

/-- Marks that could both open and close do not match if their runs together are a multiple of
three long, unless both are. -/
def clashes (opener closer : Delimiter) : Bool :=
  (opener.closes || closer.opens) && (opener.runLength + closer.runLength) % 3 == 0 &&
    !(opener.runLength % 3 == 0 && closer.runLength % 3 == 0)

/-- May `opener` be matched by `closer`? -/
def fits (closer opener : Delimiter) : Bool :=
  opener.mark == closer.mark && opener.opens && !clashes opener closer

/-- The nearest open mark that fits the closing mark, and the marks before it; nearest first. -/
def findOpener? (closer : Delimiter) : List Delimiter → Option (Delimiter × List Delimiter)
  | [] => none
  | d :: ds => if fits closer d then some (d, ds) else findOpener? closer ds

/-- A matched pair: the places of its opening and its closing mark. -/
structure Pair where
  opener : Delimiter
  closer : Delimiter
  deriving DecidableEq, Repr, Inhabited

/-- Matches marks, in their order. `open_` holds the unmatched marks before the current run, nearest
first, and `run` those of the run, which do not match each other. -/
def pairs (open_ run : List Delimiter) : List Delimiter → List Pair
  | [] => []
  | d :: ds =>
    let continues :=
      match run with
      | [] => false
      | e :: _ => e.mark == d.mark && e.place + 1 == d.place
    let open' := if continues then open_ else run ++ open_
    let run' := if continues then run else []
    match if d.closes then findOpener? d open' else none with
    | some (o, rest) => ⟨o, d⟩ :: pairs rest [] ds
    | none => pairs open' (d :: run') ds

/-- What a mark turns into. -/
inductive Role
  | enter (k : Kind)
  | leave (k : Kind)
  /-- The outer one of two marks of strong emphasis. -/
  | nothing
  deriving Repr

/-- Is `q` right around `p`, so that both its marks touch those of `p`? -/
def Pair.isAround (q p : Pair) : Bool :=
  q.opener.place + 1 == p.opener.place && q.closer.place == p.closer.place + 1 &&
    q.opener.mark == p.opener.mark

/-- The roles of the marks of pairs, given with the last opening mark first: a pair and the one
right around it make strong emphasis. -/
def roles : List Pair → List (Nat × Role)
  | [] => []
  | [p] => single p
  | p :: q :: ps =>
    if q.isAround p then
      (p.opener.place, .enter .strong) :: (p.closer.place, .leave .strong) ::
        (q.opener.place, .nothing) :: (q.closer.place, .nothing) :: roles ps
    else single p ++ roles (q :: ps)
where
  /-- The roles of the marks of plain emphasis. -/
  single (p : Pair) : List (Nat × Role) :=
    [(p.opener.place, .enter .emphasis), (p.closer.place, .leave .emphasis)]

/-- The event that a role makes of a mark. -/
def Role.event : Role → Event
  | enter k => .enter k none
  | leave k => .leaving k
  | nothing => .atom (.text "")

/-- Turns the matched marks among the events into emphasis. -/
def resolve (ds : List Delimiter) (es : Array Event) : Array Event :=
  let ps := (pairs [] [] ds).mergeSort fun p q => q.opener.place ≤ p.opener.place
  (roles ps).foldl (fun es (place, role) => es.setIfInBounds place role.event) es

end Delimiter

end MdxProse.Inline
