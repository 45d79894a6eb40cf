/-! # Sets of characters as toggle lists

A set of code points is written as the ascending list of the places where membership changes,
starting outside: `[a, b, c]` holds the code points from `a` to just before `b`, and those from `c`
on.
-/

namespace MdxProse.Text

/-- Membership of `n` in what is left of a toggle list, `inside` telling the state before it. -/
def toggledFrom (inside : Bool) : List Nat → Nat → Bool
  | [], _ => inside
  | t :: ts, n => if n < t then inside else toggledFrom (!inside) ts n

/-- Membership of a character in the set of a toggle list. -/
def toggled (toggles : List Nat) (c : Char) : Bool :=
  toggledFrom false toggles c.toNat

end MdxProse.Text
