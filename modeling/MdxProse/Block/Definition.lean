import MdxProse.Block.Interrupt
import MdxProse.Link.Target

/-! # Link definitions

A definition gives a label a target and perhaps a title, and leaves no block behind. It may run
over several lines, as a paragraph may.
-/

namespace MdxProse.Block.Definition

/-- The line after the text that starts on the lines before `i` and might be a definition. -/
def stop (r : Region) (i : Nat) : Nat :=
  if i < r.height then
    let l := r.line i
    if l.isEmpty then i
    else if l.indent < 0 || !interrupts r .definition i r.height then stop r (i + 1)
    else i
  else i
termination_by r.height - i

/-- The lines from `i` to just before `past`, each without indentation and with the character that
ends it. -/
def text (r : Region) (i past : Nat) : List Char :=
  (List.range' i (past - i)).flatMap fun k =>
    r.src.window (r.line k).start ((r.line k).stop + 1)

/-- What follows the bracket that ends a label. -/
def labelRest? : List Char → Option (List Char)
  | [] => none
  | '\\' :: _ :: r => labelRest? r
  | c :: r =>
    if c == ']' then some r
    else if c == '[' then none
    else labelRest? r

/-- What follows the spaces at the start, if the line ends there. -/
def lineRest? (w : List Char) : Option (List Char) :=
  match w.dropWhile Text.isSpace with
  | [] => some []
  | c :: r => if c == '\n' then some (c :: r) else none

/-- The title after a target, and the rest of the line on which the definition ends. A title is
set off from the target, unless it runs over several lines. What comes after it on its line makes
it no title; after an empty title it makes the whole no definition. -/
def readTitle (w : List Char) : Option (List Char × List Char) :=
  let gap := w.takeWhile Text.isGap
  let untitled := (lineRest? w).map ([], ·)
  match Link.title? (w.drop gap.length) with
  | none => untitled
  | some (title, r) =>
    if gap.isEmpty && !title.contains '\n' then untitled
    else
      match lineRest? r with
      | some rest => some (title, rest)
      | none => if title.isEmpty then none else untitled

/-- The target, title and rest after the colon of a definition. The target is read from a single
line; a backslash before the line break hides that break, and with it any title. -/
def readTarget (w : List Char) : Option (List Char × List Char × List Char) := do
  let w := w.dropWhile Text.isGap
  let below := w.dropWhile (· != '\n')
  let (target, after) ← Link.target? (w.takeWhile (· != '\n') ++ below.take 1)
  let (title, rest) ← if after.isEmpty then some ([], below) else readTitle (after ++ below.drop 1)
  some (target, title, rest)

/-- The definition at the start of a text, and what follows it. -/
def read? : List Char → Option (Block.Definition × List Char)
  | '[' :: w => do
    let r ← labelRest? w
    match r with
    | ':' :: r' =>
      let (target, title, rest) ← readTarget r'
      let href := Link.normalizeUrl (Text.unescape target)
      let label := Link.normalizeLabel ((Link.before w r).dropLast)
      if Link.isSafe href && !label.isEmpty then
        some (⟨label, String.ofList href, String.ofList (Text.unescape title)⟩, rest)
      else none
    | _ => none
  | _ => none

/-- The definition that starts on line `i`. -/
def ofLine? (r : Region) (i : Nat) : Option Outcome :=
  let w := text r i (stop r (i + 1))
  (read? w).map fun (d, rest) =>
    ⟨[], [d], i + 1 + (Link.before w rest).count '\n'⟩

end MdxProse.Block.Definition
