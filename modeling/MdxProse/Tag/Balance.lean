import MdxProse.Tag

/-! # Balanced tags

Opening and closing tags match like brackets of many kinds, one kind for each name and one for
fragments. A run of tags is *balanced* when every tag finds its partner in the run. It *leaves
nothing open* when every opening tag does; closing tags without a partner then belong to elements
opened before the run.
-/

namespace MdxProse.Tag

/-- Do the tags close exactly the elements named in `open_`, innermost first, and all that they
open themselves? -/
def balancedFrom (open_ : List (Option String)) : List Tag → Bool
  | [] => open_.isEmpty
  | t :: ts =>
    match t.form, open_ with
    | .opening, _ => balancedFrom (t.name :: open_) ts
    | .selfClosing, _ => balancedFrom open_ ts
    | .closing, n :: rest => n == t.name && balancedFrom rest ts
    | .closing, [] => false

/-- Does every tag of the run find its partner in the run? -/
def balanced (ts : List Tag) : Bool :=
  balancedFrom [] ts

/-- As `balancedFrom`, but a closing tag that finds nothing open is passed over. -/
def closesFrom (open_ : List (Option String)) : List Tag → Bool
  | [] => open_.isEmpty
  | t :: ts =>
    match t.form, open_ with
    | .opening, _ => closesFrom (t.name :: open_) ts
    | .selfClosing, _ => closesFrom open_ ts
    | .closing, n :: rest => n == t.name && closesFrom rest ts
    | .closing, [] => closesFrom [] ts

/-- Does every opening tag of the run find its partner in the run? -/
def leavesNothingOpen (ts : List Tag) : Bool :=
  closesFrom [] ts

end MdxProse.Tag
