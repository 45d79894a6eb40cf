import MdxProse.Source

/-! # Code spans

A code span is closed by the first run of grave accents that is exactly as long as the one that
opens it. Without such a run the opening one is plain text.
-/

namespace MdxProse.CodeSpan

/-- The grave accent. -/
def isMark (c : Char) : Bool :=
  c == '\x60'

/-- What follows the first run of exactly `n` marks. -/
def close? (n : Nat) (w : List Char) : Option (List Char) :=
  match _h : w.dropWhile (!isMark ·) with
  | [] => none
  | _ :: r =>
    if r.length + 1 - (r.dropWhile isMark).length = n then some (r.dropWhile isMark)
    else close? n (r.dropWhile isMark)
termination_by w.length
decreasing_by
  have h₁ := (List.dropWhile_suffix (l := w) (!isMark ·)).length_le
  have h₂ := (List.dropWhile_suffix (l := r) isMark).length_le
  rw [_h, List.length_cons] at h₁
  omega

/-- What follows the code span at the start of a window, or the run of marks there if nothing
closes it. -/
def rest (w : List Char) : List Char :=
  let r := w.dropWhile isMark
  if r.length = w.length then w else (close? (w.length - r.length) r).getD r

/-- The offset just past the code span or the unmatched run of marks at `pos`. -/
def skip (src : Source) (pos limit : Nat) : Nat :=
  let w := src.window pos limit
  pos + (w.length - (rest w).length)

theorem length_close?_le {n : Nat} {w r : List Char} (h : close? n w = some r) :
    r.length ≤ w.length := by
  fun_induction close? n w with
  | case1 => simp at h
  | case2 w c r' hd _ =>
    have h₁ := (List.dropWhile_suffix (l := w) (!isMark ·)).length_le
    have h₂ := (List.dropWhile_suffix (l := r') isMark).length_le
    rw [hd, List.length_cons] at h₁
    simp only [Option.some.injEq] at h
    rw [← h]
    omega
  | case3 w c r' hd _ ih =>
    have h₁ := (List.dropWhile_suffix (l := w) (!isMark ·)).length_le
    have h₂ := (List.dropWhile_suffix (l := r') isMark).length_le
    rw [hd, List.length_cons] at h₁
    have := ih h
    omega

/-- **A run of marks is always skipped**, whether a code span starts there or not. -/
theorem lt_skip {src : Source} {pos limit : Nat} (hp : pos < limit) (h : src.has '\x60' pos) :
    pos < skip src pos limit := by
  obtain ⟨c, hc, hm⟩ := Source.test_iff.mp h
  have hw := src.window_cons hc hp
  have hle := (List.dropWhile_suffix (l := src.window (pos + 1) limit) isMark).length_le
  have hrest : (rest (src.window pos limit)).length < (src.window pos limit).length := by
    rw [hw]
    simp only [rest, List.dropWhile_cons, isMark, hm, if_true, List.length_cons]
    rw [if_neg (by omega)]
    cases hcl : close? _ (List.dropWhile isMark (src.window (pos + 1) limit)) with
    | none =>
      simp only [Option.getD_none]
      omega
    | some r =>
      have := length_close?_le hcl
      simp only [Option.getD_some]
      omega
  unfold skip
  dsimp only
  omega

end MdxProse.CodeSpan
