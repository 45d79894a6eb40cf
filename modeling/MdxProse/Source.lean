/-! # Sources and spans

A source is a text as an array of characters, so that every offset counts code points. Scanners
read a *window* of it, the characters between an offset and a limit, and never look further; what
they answer is therefore the same under every limit that leaves the construct whole.
-/

namespace MdxProse

/-- A text, indexed by code point. -/
abbrev Source := Array Char

namespace Source

/-- The characters of a string. -/
def ofString (s : String) : Source :=
  s.toList.toArray

/-- The string of the characters. -/
def toString (src : Source) : String :=
  String.ofList src.toList

/-- The characters from `pos` to just before `limit`. -/
def window (src : Source) (pos limit : Nat) : List Char :=
  (src.extract pos limit).toList

/-- The text from `start` to just before `stop`. -/
def slice (src : Source) (start stop : Nat) : String :=
  String.ofList (src.window start stop)

/-- The first offset, from `pos` on, at `limit` or at a character that fails `p`. -/
def skipWhile (src : Source) (p : Char → Bool) (pos limit : Nat) : Nat :=
  pos + ((src.window pos limit).takeWhile p).length

/-- Does the character at `pos` exist and pass `p`? -/
def test (src : Source) (p : Char → Bool) (pos : Nat) : Bool :=
  match src[pos]? with
  | some c => p c
  | none => false

/-- Is `c` the character at `pos`? -/
def has (src : Source) (c : Char) (pos : Nat) : Bool :=
  src.test (· == c) pos

theorem length_window (src : Source) (pos limit : Nat) :
    (src.window pos limit).length = min limit src.size - pos := by
  simp only [window, Array.length_toList, Array.size_extract]

theorem length_window_le (src : Source) (pos limit : Nat) :
    (src.window pos limit).length ≤ limit - pos := by
  rw [length_window]
  omega

theorem window_eq_nil_of_le (src : Source) {pos limit : Nat} (h : limit ≤ pos) :
    src.window pos limit = [] := by
  apply List.eq_nil_of_length_eq_zero
  have := src.length_window_le pos limit
  omega

theorem window_cons (src : Source) {pos limit : Nat} {c : Char} (h : src[pos]? = some c)
    (hp : pos < limit) : src.window pos limit = c :: src.window (pos + 1) limit := by
  obtain ⟨hlt, hc⟩ := Array.getElem?_eq_some_iff.mp h
  have hl : pos < src.toList.length := by simpa using hlt
  simp only [window, Array.toList_extract, List.extract_eq_take_drop]
  rw [List.drop_eq_getElem_cons hl, show limit - pos = limit - (pos + 1) + 1 by omega,
    List.take_succ_cons]
  simp [hc]

theorem test_iff {src : Source} {p : Char → Bool} {pos : Nat} :
    src.test p pos = true ↔ ∃ c, src[pos]? = some c ∧ p c = true := by
  unfold test
  cases src[pos]? <;> simp

theorem le_skipWhile (src : Source) (p : Char → Bool) (pos limit : Nat) :
    pos ≤ src.skipWhile p pos limit :=
  Nat.le_add_right _ _

end Source

/-- The characters from `start` to just before `stop`. -/
structure Span where
  start : Nat
  stop : Nat
  deriving DecidableEq, Repr, Inhabited

/-- The text that a span covers. -/
def Source.cover (src : Source) (s : Span) : String :=
  src.slice s.start s.stop

end MdxProse
