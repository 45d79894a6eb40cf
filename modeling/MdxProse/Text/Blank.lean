import MdxProse.Text.Toggles

/-! # White space

Several notions of white space meet here. A *space* separates words inside a line: blank or tab. A
*gap* may also hold line breaks and stands between the parts of a tag. *Blank* is the widest notion:
all Unicode white space, with the separators U+001C to U+001F and the next-line character.
*Padding* leaves these five control characters out, so that they stay visible to the reader of a
text: running text is trimmed by it, and labels are compared by it. One more set, without the line
and paragraph separators, tells emphasis whether a marker touches a word.
-/

namespace MdxProse.Text

/-- A space or a tab. -/
def isSpace (c : Char) : Bool :=
  c == ' ' || c == '\t'

/-- A space, a tab or a line break. -/
def isGap (c : Char) : Bool :=
  isSpace c || c == '\n'

/-- Code points at which being blank changes. -/
def blankToggles : List Nat := [
  0x9, 0xE, 0x1C, 0x21, 0x85, 0x86, 0xA0, 0xA1, 0x1680, 0x1681, 0x2000, 0x200B, 0x2028, 0x202A,
  0x202F, 0x2030, 0x205F, 0x2060, 0x3000, 0x3001]

/-- Unicode white space, with the control characters that separate pieces of information or
lines. -/
def isBlank (c : Char) : Bool :=
  toggled blankToggles c

/-- Code points at which being padding changes. -/
def paddingToggles : List Nat := [
  0x9, 0xE, 0x20, 0x21, 0xA0, 0xA1, 0x1680, 0x1681, 0x2000, 0x200B, 0x2028, 0x202A, 0x202F, 0x2030,
  0x205F, 0x2060, 0x3000, 0x3001]

/-- White space that carries no meaning around a text or inside a label: what is blank, but not the
separators U+001C to U+001F and not the next-line character. -/
def isPadding (c : Char) : Bool :=
  toggled paddingToggles c

/-- Code points at which counting as white space beside an emphasis marker changes. -/
def flankingSpaceToggles : List Nat := [
  0x9, 0xE, 0x20, 0x21, 0xA0, 0xA1, 0x1680, 0x1681, 0x2000, 0x200B, 0x202F, 0x2030, 0x205F, 0x2060,
  0x3000, 0x3001]

/-- White space as emphasis sees it. -/
def isFlankingSpace (c : Char) : Bool :=
  toggled flankingSpaceToggles c

/-! ### Trimming

What counts as white space is up to the caller: `white` tells. -/

/-- The text without white space at its end. -/
def trimEnd (white : Char → Bool) (s : List Char) : List Char :=
  (s.reverse.dropWhile white).reverse

/-- The text without white space at either end. -/
def trim (white : Char → Bool) (s : List Char) : List Char :=
  trimEnd white (s.dropWhile white)

/-- The text with every run of white space replaced by one space. -/
def squeeze (white : Char → Bool) : List Char → List Char
  | [] => []
  | [c] => if white c then [' '] else [c]
  | c :: d :: r =>
    if white c then
      if white d then squeeze white (d :: r) else ' ' :: squeeze white (d :: r)
    else c :: squeeze white (d :: r)

/-- The pieces of `s` between the characters equal to `sep`; always at least one. -/
def splitOn (sep : Char) : List Char → List (List Char)
  | [] => [[]]
  | c :: r =>
    match splitOn sep r with
    | [] => [[c]]
    | p :: ps => if c == sep then [] :: p :: ps else (c :: p) :: ps

/-- The first offset at which `needle` occurs. -/
def indexOf? (needle : List Char) : List Char → Option Nat
  | [] => if needle.isEmpty then some 0 else none
  | c :: r =>
    if needle.isPrefixOf (c :: r) then some 0 else (indexOf? needle r).map (· + 1)

end MdxProse.Text
