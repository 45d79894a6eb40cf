import MdxProse.Text.NamedCharacter
import MdxProse.Text.Punctuation

/-! # Escapes and character references

A backslash takes the meaning from the punctuation after it, and `&…;` writes a character by name
or number. In running text both are read where they stand; in link targets, titles and the like a
whole text is resolved at once.
-/

namespace MdxProse.Text

/-- The value of a digit in a base up to sixteen. -/
def digit? (base : Nat) (c : Char) : Option Nat :=
  let d := if c.isDigit then c.toNat - '0'.toNat else c.toLower.toNat - 'a'.toNat + 10
  if (c.isDigit || ('a' ≤ c.toLower && c.toLower ≤ 'f')) && d < base then some d else none

/-- The value of digits in a base, if there is at least one. -/
def number? (base : Nat) (digits : List Char) : Option Nat :=
  if digits.isEmpty then none
  else digits.foldlM (fun n c => (digit? base c).map (base * n + ·)) 0

/-- Can a reference by number stand for the code point? Surrogates, non-characters and most control
characters are refused. -/
def isReferable (n : Nat) : Bool :=
  !((0xD800 ≤ n && n ≤ 0xDFFF) || (0xFDD0 ≤ n && n ≤ 0xFDEF) ||
    n % 0x10000 == 0xFFFF || n % 0x10000 == 0xFFFE || n ≤ 8 || n == 0xB ||
    (0xE ≤ n && n ≤ 0x1F) || (0x7F ≤ n && n ≤ 0x9F) || 0x10FFFF < n)

/-- The code point of `#` and a decimal number, or `#x` and a hexadecimal one, each of limited
length. -/
def numberReference? (maxDecimal maxHex : Nat) : List Char → Option Nat
  | '#' :: 'x' :: ds => if ds.length ≤ maxHex then number? 16 ds else none
  | '#' :: 'X' :: ds => if ds.length ≤ maxHex then number? 16 ds else none
  | '#' :: ds => if ds.length ≤ maxDecimal then number? 10 ds else none
  | _ => none

/-- The text of a reference in running text, without `&` and `;`. A number that no reference may
have gives the replacement character. -/
def reference? (name : List Char) : Option (List Char) :=
  match name with
  | '#' :: _ =>
    (numberReference? 7 6 name).map fun n => [if isReferable n then Char.ofNat n else '\uFFFD']
  | _ => namedCharacters? (String.ofList name)

/-- The text of a reference in a link or title. There a number that no reference may have is left
as it is. -/
def targetReference? (name : List Char) : Option (List Char) :=
  match name with
  | '#' :: _ =>
    match numberReference? 8 8 name with
    | some n => if isReferable n then some [Char.ofNat n] else none
    | none => none
  | _ => namedCharacters? (String.ofList name)

/-- The name between `&` and `;`, and what follows, if the text (without the `&`) has the form of a
reference: letters, digits and at the front perhaps `#`. -/
def referenceName? (w : List Char) : Option (List Char × List Char) :=
  match w with
  | [] => none
  | c :: r =>
    if c.isAlpha || c == '#' then
      let name := c :: r.takeWhile Char.isAlphanum
      match r.dropWhile Char.isAlphanum with
      | ';' :: rest => if 2 ≤ name.length && name.length ≤ 32 then some (name, rest) else none
      | _ => none
    else none

theorem length_referenceName?_lt {w n r : List Char} (h : referenceName? w = some (n, r)) :
    r.length < w.length := by
  match w, h with
  | c :: w, h =>
    simp only [referenceName?] at h
    split at h
    · split at h
      · next rest hd =>
        have hle := (List.dropWhile_suffix (l := w) Char.isAlphanum).length_le
        split at h
        · simp only [Option.some.injEq, Prod.mk.injEq] at h
          simp only [hd, List.length_cons] at hle
          simp only [← h.2, List.length_cons]
          omega
        · simp at h
      · simp at h
    · simp at h

/-- A text with its escapes and references resolved. -/
def unescape : List Char → List Char
  | [] => []
  | ['\\'] => ['\\']
  | '\\' :: c :: r =>
    if isAsciiPunctuation c then c :: unescape r else '\\' :: unescape (c :: r)
  | '&' :: r =>
    match _h : referenceName? r with
    | some (name, rest) =>
      match targetReference? name with
      | some s => s ++ unescape rest
      | none => '&' :: unescape r
    | none => '&' :: unescape r
  | c :: r => c :: unescape r
termination_by w => w.length
decreasing_by
  · simp only [List.length_cons]
    omega
  · simp
  · have := length_referenceName?_lt _h
    simp only [List.length_cons]
    omega
  all_goals simp

end MdxProse.Text
