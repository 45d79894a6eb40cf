import MdxProse.CodeSpan
import MdxProse.Tag

/-! # The closing tag inside running text

The partner of an opening tag in running text is the first closing tag of its name that leaves as
many opening tags of that name before it as closing ones. Escaped characters, code spans,
expressions and the insides of other tags hide what they hold.
-/

namespace MdxProse.Tag

/-- The closing tag named `name` with `inner` fewer opening than closing tags of that name between
`pos` and it, this one not counted. -/
def closer? (src : Source) (name : Option String) (inner pos limit : Nat) : Option Tag :=
  if _hp : pos < limit then
    if src.has '\\' pos then closer? src name inner (pos + 2) limit
    else if _hm : src.has '\x60' pos then closer? src name inner (CodeSpan.skip src pos limit) limit
    else if src.has '{' pos then
      match _he : Expression.stop? src pos limit with
      | some stop => closer? src name inner stop limit
      | none => closer? src name inner (pos + 1) limit
    else
      match _ht : scan? src pos limit with
      | none => closer? src name inner (pos + 1) limit
      | some t =>
        if t.name = name then
          match t.form, inner with
          | .opening, _ => closer? src name (inner + 1) t.span.stop limit
          | .selfClosing, _ => closer? src name inner t.span.stop limit
          | .closing, 0 => some t
          | .closing, i + 1 => closer? src name i t.span.stop limit
        else closer? src name inner t.span.stop limit
  else none
termination_by limit - pos
decreasing_by
  · omega
  · have := CodeSpan.lt_skip _hp _hm
    omega
  · have := Expression.lt_of_stop? _he
    omega
  · omega
  · omega
  all_goals
    have := stop_of_scan? _ht
    omega

/-- The partner of an opening tag, below `limit`. -/
def partner? (src : Source) (opener : Tag) (limit : Nat) : Option Tag :=
  closer? src opener.name 0 opener.span.stop limit

end MdxProse.Tag
