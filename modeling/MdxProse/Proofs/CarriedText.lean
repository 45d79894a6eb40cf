import Mathlib.Order.Monotone.Basic
import MdxProse.Proofs.MovedText

/-!
# Texts of which each line is moved

Marks or spaces that are put in front of the lines of a text move every line by an amount of its
own.  The offsets of the text are then carried to those of the longer text by a map that goes on by
one from each character of a line to the next.

* `Carrying`: such a map, and where in the text the tags and expressions may start that are blocks.
  **It takes them to tags and expressions** of the longer text.
* `Carrying.window`, `Carrying.skipWhile`: a stretch of a line stands in the longer text.
* `Carrying.run?`: **a run of tags is found where the map takes it**, as is an expression,
  `Carrying.expression_limit`.
-/

namespace MdxProse

/-- A character of which the marks of containers are made, or a space. -/
def Text.isMark (c : Char) : Bool :=
  c == ' ' || c == '>' || c == '-' || c == '+' || c == '*' || c == '.' || c == ')' || c.isDigit

/-- Only marks of containers stand before the offset on its line. -/
def Source.Marked (src : Source) (p : Nat) : Prop :=
  ∃ s, s ≤ p ∧ (s = 0 ∨ src[s - 1]? = some '\n') ∧
    ∀ q, s ≤ q → q < p → src.test Text.isMark q = true

/-- The tag, carried to another text. -/
def Tag.carried (f : Nat → Nat) (t : Tag) : Tag :=
  { t with span := ⟨f t.span.start, f t.span.stop⟩ }

namespace Tag

variable (f : Nat → Nat)

theorem balanced_carried (ts : List Tag) : balanced (ts.map (carried f)) = balanced ts :=
  balancedFrom_map (carried f) (fun _ => rfl) (fun _ => rfl) ts []

theorem leavesNothingOpen_carried (ts : List Tag) :
    leavesNothingOpen (ts.map (carried f)) = leavesNothingOpen ts :=
  closesFrom_map (carried f) (fun _ => rfl) (fun _ => rfl) ts []

end Tag

/-- **How the lines of one text stand in another one.**  Between two offsets, each line of `src`
stands in `dst`, but may be indented there by more columns. -/
structure Carrying where
  src : Source
  dst : Source
  /-- Where an offset is carried to. -/
  carry : Nat → Nat
  /-- The offsets between which the text is carried. -/
  lo : Nat
  hi : Nat
  /-- The first line that is carried. -/
  first : Nat
  /-- By how many columns the lines are indented more. -/
  columns : Nat
  /-- Where the tags and expressions may start that are blocks. -/
  code : Nat → Prop
  le_size : hi ≤ src.size
  carry_le : carry hi ≤ dst.size
  char : ∀ p, lo ≤ p → p ≤ hi → dst[carry p]? = src[p]?
  step : ∀ p, lo ≤ p → p < hi → src[p]? ≠ some '\n' → carry (p + 1) = carry p + 1
  mono : StrictMono carry
  noTab : ∀ p : Nat, src[p]? ≠ some '\t' ∧ dst[p]? ≠ some '\t'
  /-- Neither text starts with front matter. -/
  noDash : src.has '-' 0 = false ∧ dst.has '-' 0 = false
  /-- Quotes and mathematics keep track of the columns. -/
  flush : columns = 0 ∨ ∀ p, lo ≤ p → p < hi → src[p]? ≠ some '>' ∧ src[p]? ≠ some '$'
  code_of_marked : ∀ p, lo ≤ p → p < hi → src.Marked p →
    src[p]? = some '<' ∨ src[p]? = some '\x7b' → code p
  /-- A tag may also start after a tag, past spaces. -/
  code_after : ∀ p t q, code p → Tag.scan? src p src.size = some t → t.span.stop ≤ q →
    (∀ i, t.span.stop ≤ i → i < q → src.test Text.isSpace i = true) → src[q]? = some '<' → code q
  le_of_code : ∀ p, code p → lo ≤ p
  scan_size : ∀ p, code p → Tag.scan? dst (carry p) dst.size =
    (Tag.scan? src p src.size).map (Tag.carried carry)
  expression_size : ∀ p, code p → Expression.stop? dst (carry p) dst.size =
    (Expression.stop? src p src.size).map carry

namespace Carrying

variable (m : Carrying) {p q n limit : Nat}

theorem carry_le_carry : m.carry p ≤ m.carry q ↔ p ≤ q :=
  m.mono.le_iff_le

theorem carry_lt_carry : m.carry p < m.carry q ↔ p < q :=
  m.mono.lt_iff_lt

variable {m}

theorem carry_add (hp : m.lo ≤ p) (hq : p + n ≤ m.hi)
    (hrow : ∀ i, p ≤ i → i < p + n → m.src[i]? ≠ some '\n') : m.carry (p + n) = m.carry p + n := by
  induction n with
  | zero => rfl
  | succ n ih =>
    rw [← Nat.add_assoc, m.step (p + n) (by omega) (by omega) (hrow _ (by omega) (by omega)),
      ih (by omega) fun i hi hin => hrow i hi (by omega), Nat.add_assoc]

/-! ### What stands there -/

theorem test (hp : m.lo ≤ p) (hq : p ≤ m.hi) (f : Char → Bool) :
    m.dst.test f (m.carry p) = m.src.test f p := by
  rw [Source.test, Source.test, m.char p hp hq]

/-- **A stretch of a line stands in the longer text.** -/
theorem window (hp : m.lo ≤ p) (hpq : p ≤ q) (hq : q ≤ m.hi)
    (hrow : ∀ i, p ≤ i → i < q → m.src[i]? ≠ some '\n') :
    m.dst.window (m.carry p) (m.carry q) = m.src.window p q := by
  obtain ⟨n, rfl⟩ := Nat.exists_eq_add_of_le hpq
  refine List.ext_getElem? fun i => ?_
  rw [Source.getElem?_window, Source.getElem?_window, carry_add hp hq hrow, Nat.add_sub_cancel_left,
    Nat.add_sub_cancel_left]
  split
  · next hi =>
    rw [← carry_add hp (by omega) fun j hj hji => hrow j hj (by omega),
      m.char _ (by omega) (by omega)]
  · rfl

theorem window_succ (hp : m.lo ≤ p) (hpq : p ≤ q) (hq : q ≤ m.hi)
    (hrow : ∀ i, p ≤ i → i < q → m.src[i]? ≠ some '\n') :
    m.dst.window (m.carry p) (m.carry q + 1) = m.src.window p (q + 1) := by
  have hlast : m.dst.window (m.carry q) (m.carry q + 1) = m.src.window q (q + 1) := by
    refine List.ext_getElem? fun i => ?_
    rw [Source.getElem?_window, Source.getElem?_window, Nat.add_sub_cancel_left,
      Nat.add_sub_cancel_left]
    split
    · next hi =>
      obtain rfl : i = 0 := by omega
      rw [Nat.add_zero, Nat.add_zero, m.char q (by omega) hq]
    · rfl
  rw [← Source.window_append (m.carry_le_carry.mpr hpq) (Nat.le_succ _), hlast,
    window hp hpq hq hrow, Source.window_append hpq (Nat.le_succ _)]

theorem skipWhile {f : Char → Bool} (hbreak : f '\n' = false) (hp : m.lo ≤ p) (hl : p ≤ limit)
    (hlimit : limit ≤ m.hi) :
    m.dst.skipWhile f (m.carry p) (m.carry limit) = m.carry (m.src.skipWhile f p limit) := by
  induction hl using Nat.decreasingInduction with
  | self =>
    rw [Source.skipWhile, Source.skipWhile, Source.window_eq_nil_of_le _ (Nat.le_refl _),
      Source.window_eq_nil_of_le _ (Nat.le_refl _)]
    rfl
  | of_succ p hlt ih =>
    have htest := test hp (by omega) f
    cases hc : m.src.test f p with
    | false =>
      rw [hc] at htest
      rw [Source.skipWhile_of_not_test htest, Source.skipWhile_of_not_test hc]
    | true =>
      rw [hc] at htest
      obtain ⟨c, hget, hfc⟩ := Source.test_iff.mp hc
      have hne : m.src[p]? ≠ some '\n' := fun h => by
        rw [hget, Option.some.injEq] at h
        rw [h, hbreak] at hfc
        cases hfc
      rw [Source.skipWhile_of_test htest (m.carry_lt_carry.mpr hlt),
        Source.skipWhile_of_test hc hlt, ← m.step p hp (by omega) hne]
      exact ih (by omega)

theorem ends (hp : m.lo ≤ p) (hq : p ≤ m.hi) :
    (decide (m.carry limit ≤ m.carry p) || m.dst.has '\n' (m.carry p)) =
      (decide (limit ≤ p) || m.src.has '\n' p) := by
  rw [Source.has, Source.has, test hp hq, decide_eq_decide.mpr m.carry_le_carry]

/-! ### Expressions and tags -/

/-- **An expression is found where the map takes it**, below every limit. -/
theorem expression_limit (hp : m.code p) : Expression.stop? m.dst (m.carry p) (m.carry limit) =
    (Expression.stop? m.src p limit).map m.carry := by
  refine Option.ext fun stop => ?_
  rw [Option.map_eq_some_iff]
  constructor
  · intro h
    have hle := Expression.stop_le_limit h
    have hsize := Expression.stop?_size h
    rw [m.expression_size p hp, Option.map_eq_some_iff] at hsize
    obtain ⟨stop', hstop, rfl⟩ := hsize
    exact ⟨stop', Expression.stop?_of_stop_le hstop (m.carry_le_carry.mp hle), rfl⟩
  · rintro ⟨stop', hstop, rfl⟩
    have hle := Expression.stop_le_limit hstop
    have hsize : Expression.stop? m.dst (m.carry p) m.dst.size = some (m.carry stop') := by
      rw [m.expression_size p hp, Expression.stop?_size hstop]
      rfl
    exact Expression.stop?_of_stop_le hsize (m.carry_le_carry.mpr hle)

theorem scan? (hp : m.code p) : Tag.scan? m.dst (m.carry p) (m.carry limit) =
    (Tag.scan? m.src p limit).map (Tag.carried m.carry) := by
  refine Option.ext fun t => ?_
  rw [Option.map_eq_some_iff]
  constructor
  · intro h
    have hle := (Tag.stop_of_scan? h).2
    have hsize := Tag.scan?_size h
    rw [m.scan_size p hp, Option.map_eq_some_iff] at hsize
    obtain ⟨t', ht, rfl⟩ := hsize
    exact ⟨t', Tag.scan?_of_stop_le ht (m.carry_le_carry.mp hle), rfl⟩
  · rintro ⟨t', ht, rfl⟩
    have hle := (Tag.stop_of_scan? ht).2
    have hsize : Tag.scan? m.dst (m.carry p) m.dst.size = some (t'.carried m.carry) := by
      rw [m.scan_size p hp, Tag.scan?_size ht]
      rfl
    exact Tag.scan?_of_stop_le hsize (m.carry_le_carry.mpr hle)

/-- **A run of tags is found where it is in the text.** -/
theorem run? (hp : m.code p) (hlimit : limit ≤ m.hi) :
    Tag.run? m.dst (m.carry p) (m.carry limit) =
      (Tag.run? m.src p limit).map fun (ts, stop) =>
        (ts.map (Tag.carried m.carry), m.carry stop) := by
  have hskip {p : Nat} {t : Tag} (hp : m.code p) (ht : Tag.scan? m.src p limit = some t) :
      m.lo ≤ t.span.stop ∧
        m.lo ≤ m.src.skipWhile Text.isSpace t.span.stop limit ∧
        m.src.skipWhile Text.isSpace t.span.stop limit ≤ m.hi ∧
        m.dst.skipWhile Text.isSpace (m.carry t.span.stop) (m.carry limit) =
          m.carry (m.src.skipWhile Text.isSpace t.span.stop limit) := by
    obtain ⟨hlt, hle⟩ := Tag.stop_of_scan? ht
    have hlo := m.le_of_code p hp
    have hge := m.src.le_skipWhile Text.isSpace t.span.stop limit
    have hle' := m.src.skipWhile_le hle (p := Text.isSpace)
    exact ⟨by omega, by omega, by omega, skipWhile rfl (by omega) hle hlimit⟩
  fun_induction Tag.run? m.src p limit with
  | case1 p hscan =>
    rw [Tag.run?_eq, scan? hp, hscan]
    rfl
  | case2 p t hscan next hstop =>
    obtain ⟨-, hlo, hhi, hnext⟩ := hskip hp hscan
    rw [Tag.run?_eq, scan? hp, hscan]
    dsimp only [Option.map_some, Option.bind_some, Tag.carried]
    rw [hnext, ends hlo hhi, if_pos hstop]
    rfl
  | case3 p t hscan next hstop hopen ih =>
    obtain ⟨-, hlo, hhi, hnext⟩ := hskip hp hscan
    have hcode : m.code next := by
      obtain ⟨c, hc, hlt⟩ := Source.test_iff.mp hopen
      obtain rfl := beq_iff_eq.mp hlt
      exact m.code_after p t next hp (Tag.scan?_size hscan) (m.src.le_skipWhile _ _ _)
        (fun i hi hin => Source.test_of_lt_skipWhile hi hin) hc
    have hhas : m.dst.has '<' (m.carry next) = true := (test hlo hhi _).trans hopen
    rw [Tag.run?_eq, scan? hp, hscan]
    dsimp only [Option.map_some, Option.bind_some, Tag.carried]
    rw [hnext, ends hlo hhi, if_neg hstop, if_pos hhas, ih hcode, Option.map_map, Option.map_map]
    rfl
  | case4 p t hscan next hstop hopen =>
    obtain ⟨-, hlo, hhi, hnext⟩ := hskip hp hscan
    have hhas : ¬ m.dst.has '<' (m.carry next) = true := fun h =>
      hopen ((test hlo hhi _).symm.trans h)
    rw [Tag.run?_eq, scan? hp, hscan]
    dsimp only [Option.map_some, Option.bind_some, Tag.carried]
    rw [hnext, ends hlo hhi, if_neg hstop, if_neg hhas]
    rfl

end Carrying

end MdxProse
