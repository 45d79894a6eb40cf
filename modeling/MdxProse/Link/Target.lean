import MdxProse.Link.Url
import MdxProse.Text.CaseMap
import MdxProse.Text.Escape

/-! # Link targets, titles and labels

The target of a link stands in angle brackets or goes up to the next space. Its title stands in
quotes or parentheses. Readers answer with the raw text they read and what follows it.
-/

namespace MdxProse.Link

/-! ### Targets -/

/-- What follows the bracket that ends a target in angle brackets. -/
def angleRest? : List Char → Option (List Char)
  | [] => none
  | '\\' :: _ :: r => angleRest? r
  | c :: r =>
    if c == '>' then some r
    else if c == '\n' || c == '<' then none
    else angleRest? r

/-- What follows a target without brackets. Parentheses in it must balance, down to 32 levels; one
that does not ends it. -/
def bareRest? (depth : Nat) : List Char → Option (List Char)
  | [] => if depth = 0 then some [] else none
  | '\\' :: d :: r =>
    if d == ' ' then (if depth = 0 then some ('\\' :: d :: r) else none) else bareRest? depth r
  | c :: r =>
    if c.toNat ≤ 0x20 || c.toNat == 0x7F then (if depth = 0 then some (c :: r) else none)
    else if c == '(' then (if 32 ≤ depth then none else bareRest? (depth + 1) r)
    else if c == ')' then (if depth = 0 then some (c :: r) else bareRest? (depth - 1) r)
    else bareRest? depth r

/-- The part of `w` before its end `rest`. -/
def before (w rest : List Char) : List Char :=
  w.take (w.length - rest.length)

/-- The target at the start of a text, as it is written there, and what follows. -/
def target? (w : List Char) : Option (List Char × List Char) :=
  match w with
  | '<' :: r => (angleRest? r).map fun rest => ((before r rest).dropLast, rest)
  | _ =>
    match bareRest? 0 w with
    | some rest => if rest.length = w.length then none else some (before w rest, rest)
    | none => none

/-! ### Titles -/

/-- What follows the mark that ends a title. -/
def titleRest? (close : Char) : List Char → Option (List Char)
  | [] => none
  | '\\' :: _ :: r => titleRest? close r
  | c :: r =>
    if c == close then some r
    else if c == '(' && close == ')' then none
    else titleRest? close r

/-- The title at the start of a text, as it is written there, and what follows. -/
def title? : List Char → Option (List Char × List Char)
  | [] => none
  | c :: r =>
    if c == '"' || c == '\'' || c == '(' then
      (titleRest? (if c == '(' then ')' else c) r).map fun rest => ((before r rest).dropLast, rest)
    else none

/-! ### Labels -/

/-- Labels that differ only in case and white space are the same label. -/
def normalizeLabel (label : List Char) : String :=
  let words := Text.squeeze Text.isPadding (Text.trim Text.isPadding label)
  String.ofList (Text.upper (Text.lower words))

end MdxProse.Link
