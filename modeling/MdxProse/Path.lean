import MdxProse.Text.Blank

/-! # Paths

The file that a path names below a directory. A path may pass through the directory it stands in,
but one that leaves it, or starts elsewhere, names no file below it.
-/

namespace MdxProse.Path

/-- The names on the way, without the steps that lead nowhere. -/
def names (path : List Char) : List (List Char) :=
  (Text.splitOn '/' path).filter fun n => !n.isEmpty && n != ['.']

/-- Does the path start at the root of all directories? -/
def isAbsolute (path : List Char) : Bool :=
  path.head? == some '/'

/-- The shortest path that leads the same way. -/
def simplify (path : String) : String :=
  let w := path.toList
  let way := "/".intercalate ((names w).map String.ofList)
  if isAbsolute w then "/" ++ way else if way.isEmpty then "." else way

/-- The shortest path to the same file, if that is below the directory. -/
def below? (path : String) : Option String :=
  let w := path.toList
  if isAbsolute w || (names w).isEmpty || (names w).contains ['.', '.'] then none
  else some (simplify path)

end MdxProse.Path
