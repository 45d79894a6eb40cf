import MdxProse.Source

/-! # Braced expressions

An expression runs from its opening brace to the brace that balances it. Braces inside string
literals and comments do not count. The scanner reads a window and answers with what follows the
expression; it has no opinion on the expression's content beyond that.
-/

namespace MdxProse

namespace Literal

/-- What follows a string literal whose opening quote has just been read. A backslash protects the
next character. Only a literal in grave accents may hold a line break. -/
def rest? (quote : Char) : List Char → Option (List Char)
  | [] => none
  | ['\\'] => none
  | '\\' :: _ :: r => rest? quote r
  | c :: r =>
    if c == quote then some r
    else if c == '\n' && quote != '\x60' then none
    else rest? quote r

theorem length_rest?_le {q : Char} {w r : List Char} (h : rest? q w = some r) :
    r.length < w.length := by
  fun_induction rest? q w with
  | case1 => simp at h
  | case2 => simp at h
  | case3 c r' ih =>
    have := ih h
    simp only [List.length_cons]
    omega
  | case4 c r' _ _ hq =>
    simp only [Option.some.injEq] at h
    simp [h]
  | case5 => simp at h
  | case6 c r' _ _ _ _ ih =>
    have := ih h
    simp only [List.length_cons]
    omega

/-- The end of the string literal that starts at `pos`, below `limit`. Any character serves as the
quote. -/
def stop? (src : Source) (pos limit : Nat) : Option Nat :=
  match src.window pos src.size with
  | [] => none
  | quote :: _ =>
    let w := src.window (pos + 1) limit
    (rest? quote w).map fun r => pos + 1 + (w.length - r.length)

end Literal

namespace Comment

/-- What follows a block comment whose opening `/*` has just been read. -/
def rest? : List Char → Option (List Char)
  | [] => none
  | '*' :: '/' :: r => some r
  | _ :: r => rest? r

theorem length_rest?_le {w r : List Char} (h : rest? w = some r) : r.length < w.length := by
  fun_induction rest? w with
  | case1 => simp at h
  | case2 r' =>
    simp only [Option.some.injEq] at h
    simp only [← h, List.length_cons]
    omega
  | case3 c r' _ ih =>
    have := ih h
    simp only [List.length_cons]
    omega

end Comment

namespace Expression

/-- A quote opens a string literal. -/
def isQuote (c : Char) : Bool :=
  c == '"' || c == '\'' || c == '\x60'

/-- What follows the brace that brings `depth` to zero. Line comments end before their line break,
which must be there. -/
def rest? (depth : Int) : List Char → Option (List Char)
  | [] => none
  | '/' :: '*' :: r =>
    match _h : Comment.rest? r with
    | some r' => rest? depth r'
    | none => none
  | '/' :: '/' :: r => rest? depth (r.dropWhile (· != '\n'))
  | c :: r =>
    if isQuote c then
      match _h : Literal.rest? c r with
      | some r' => rest? depth r'
      | none => none
    else if c == '{' then rest? (depth + 1) r
    else if c == '}' then
      if depth - 1 = 0 then some r else rest? (depth - 1) r
    else rest? depth r
termination_by w => w.length
decreasing_by
  · have := Comment.length_rest?_le _h
    simp only [List.length_cons]
    omega
  · have := (List.dropWhile_suffix (l := r) (· != '\n')).length_le
    simp only [List.length_cons]
    omega
  · have := Literal.length_rest?_le _h
    simp only [List.length_cons]
    omega
  all_goals simp

theorem length_rest?_lt {d : Int} {w r : List Char} (h : rest? d w = some r) :
    r.length < w.length := by
  fun_induction rest? d w with
  | case1 | case3 | case6 => simp at h
  | case2 _ _ _ h' ih =>
    have := ih h
    have := Comment.length_rest?_le h'
    simp only [List.length_cons]
    omega
  | case4 _ r' ih =>
    have := ih h
    have := (List.dropWhile_suffix (l := r') (· != '\n')).length_le
    simp only [List.length_cons]
    omega
  | case5 _ _ _ _ _ _ _ h' ih =>
    have := ih h
    have := Literal.length_rest?_le h'
    simp only [List.length_cons]
    omega
  | case8 =>
    simp only [Option.some.injEq] at h
    simp [h]
  | case7 | case9 | case10 =>
    rename_i ih
    have := ih h
    simp only [List.length_cons]
    omega

/-- The offset just past the brace that balances the first one at `pos` or later, below `limit`. -/
def stop? (src : Source) (pos limit : Nat) : Option Nat :=
  let w := src.window pos limit
  (rest? 0 w).map fun r => pos + (w.length - r.length)

theorem lt_of_stop? {src : Source} {pos limit stop : Nat} (h : stop? src pos limit = some stop) :
    pos < stop := by
  simp only [stop?, Option.map_eq_some_iff] at h
  obtain ⟨r, hr, rfl⟩ := h
  have := length_rest?_lt hr
  omega

end Expression

end MdxProse
