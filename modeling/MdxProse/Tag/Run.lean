import MdxProse.Tag

/-! # Runs of tags

A run of tags fills its line: tags with nothing but spaces between them, up to the end of the line
on which the last tag ends. A tag may itself hold line breaks.
-/

namespace MdxProse.Tag

/-- The tags from `pos` to the end of the line, and the offset of that end. Nothing else may stand
there. -/
def run? (src : Source) (pos limit : Nat) : Option (List Tag × Nat) :=
  match _h : scan? src pos limit with
  | none => none
  | some t =>
    let next := src.skipWhile Text.isSpace t.span.stop limit
    if limit ≤ next || src.has '\n' next then some ([t], next)
    else if src.has '<' next then (run? src next limit).map fun (ts, stop) => (t :: ts, stop)
    else none
termination_by limit - pos
decreasing_by
  have := stop_of_scan? _h
  have := src.le_skipWhile Text.isSpace t.span.stop limit
  omega

end MdxProse.Tag
