import MdxProse.Text.Quoted

/-! # UTF-8

Decoding refuses a sequence of bytes at the first character that is not encoded as it should be: in
the fewest bytes, and with a code point that is one. The refusal tells where the character starts,
how many of its bytes were good, and what is wrong with it.
-/

namespace MdxProse.Text.Utf8

/-- What is wrong with an encoded character. -/
inductive Fault
  /-- No character starts with this byte. -/
  | start
  /-- A byte is missing before one that does not continue the character. -/
  | continuation
  /-- A byte is missing at the end. -/
  | ending
  deriving DecidableEq, Repr

/-- Why bytes are not UTF-8: the bytes from `offset` on, which are `bad`, start no character. -/
structure DecodeError where
  offset : Nat
  bad : List Nat
  fault : Fault
  deriving DecidableEq, Repr

/-- The wording of a fault. -/
def Fault.message : Fault → String
  | start => "invalid start byte"
  | continuation => "invalid continuation byte"
  | ending => "unexpected end of data"

/-- The wording of a refusal. -/
def DecodeError.message (e : DecodeError) : String :=
  let place :=
    match e.bad with
    | [b] => "byte 0x" ++ String.ofList (hexDigits 2 b) ++ s!" in position {e.offset}"
    | bad => s!"bytes in position {e.offset}-{e.offset + bad.length - 1}"
  "'utf-8' codec can't decode " ++ place ++ ": " ++ e.fault.message

/-- How many bytes continue a character that starts with `b`, and from where to where the first of
them may range. -/
def lead? (b : Nat) : Option (Nat × Nat × Nat) :=
  if b < 0x80 then some (0, 0x80, 0xBF)
  else if b < 0xC2 then none
  else if b < 0xE0 then some (1, 0x80, 0xBF)
  else if b = 0xE0 then some (2, 0xA0, 0xBF)
  else if b = 0xED then some (2, 0x80, 0x9F)
  else if b < 0xF0 then some (2, 0x80, 0xBF)
  else if b = 0xF0 then some (3, 0x90, 0xBF)
  else if b < 0xF4 then some (3, 0x80, 0xBF)
  else if b = 0xF4 then some (3, 0x80, 0x8F)
  else none

/-- The part of a code point that the first byte of its `n + 1` holds. -/
def leadBits (n b : Nat) : Nat :=
  match n with
  | 0 => b
  | 1 => b - 0xC0
  | 2 => b - 0xE0
  | _ => b - 0xF0

/-- The code point from `n` further bytes, the first between `low` and `high`, and what follows
them; or the good bytes and what is wrong after them. -/
def rest (code : Nat) : (n low high : Nat) → List Nat → Except (List Nat × Fault) (Nat × List Nat)
  | 0, _, _, bs => .ok (code, bs)
  | _ + 1, _, _, [] => .error ([], .ending)
  | n + 1, low, high, b :: bs =>
    if low ≤ b && b ≤ high then
      match rest (code * 64 + (b - 0x80)) n 0x80 0xBF bs with
      | .ok r => .ok r
      | .error (good, fault) => .error (b :: good, fault)
    else .error ([], .continuation)

/-- The first character of some bytes, and the bytes after it. -/
def char (b : Nat) (bs : List Nat) : Except (List Nat × Fault) (Char × List Nat) :=
  match lead? b with
  | none => .error ([b], .start)
  | some (n, low, high) =>
    match rest (leadBits n b) n low high bs with
    | .ok (code, bs') => .ok (Char.ofNat code, bs')
    | .error (good, fault) => .error (b :: good, fault)

/-- No more bytes follow a character than followed its first byte. -/
theorem rest_length {code n low high : Nat} {bs : List Nat} {r : Nat × List Nat}
    (h : rest code n low high bs = .ok r) : r.2.length ≤ bs.length := by
  induction n generalizing code low high bs with
  | zero =>
    simp only [rest, Except.ok.injEq] at h
    simp [← h]
  | succ n ih =>
    cases bs with
    | nil => simp [rest] at h
    | cons b bs =>
      simp only [rest] at h
      split at h
      · split at h
        · rename_i heq
          cases h
          have := ih heq
          simp only [List.length_cons]
          omega
        · cases h
      · cases h

/-- No more bytes follow a character than followed its first byte. -/
theorem char_length {b : Nat} {bs : List Nat} {r : Char × List Nat}
    (h : char b bs = .ok r) : r.2.length ≤ bs.length := by
  unfold char at h
  split at h
  · cases h
  · split at h
    · rename_i heq
      cases h
      exact rest_length heq
    · cases h

/-- The text that the bytes encode. -/
def decodeFrom (offset : Nat) : List Nat → Except DecodeError (List Char)
  | [] => .ok []
  | b :: bs =>
    match h : char b bs with
    | .error (bad, fault) => .error ⟨offset, bad, fault⟩
    | .ok (c, bs') =>
      have := char_length h
      match decodeFrom (offset + ((b :: bs).length - bs'.length)) bs' with
      | .ok cs => .ok (c :: cs)
      | .error e => .error e
termination_by bs => bs.length
decreasing_by
  simp only [List.length_cons] at *
  omega

/-- The text that the bytes encode. -/
def decode (bs : List Nat) : Except DecodeError (List Char) :=
  decodeFrom 0 bs

end MdxProse.Text.Utf8
