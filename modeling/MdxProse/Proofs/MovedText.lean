import MdxProse.Proofs.ClosingLine

/-!
# A text inside a longer one

The scanners of expressions and tags read a window of a source.  So they answer alike where the same
text stands further on in another source, as long as the limit is the end of the text; and white
space before the limit does not matter to them, as no expression or tag ends in it.

* `Source.HasAt.window_moved`: the windows of a text that stands in another one.
* `Expression.stop?_moved`, `Tag.run?_moved`: **what is found there is what is found in the text**,
  moved on.
* `Source.Trails`: from here on there is nothing but white space.  `Expression.stop?_trails`,
  `Tag.run?_trails`: **a limit there is as good as the end.**
-/

namespace MdxProse

variable {src src' : Source} {d pos limit : Nat}

/-! ### A text that stands in another one -/

namespace Source.HasAt

theorem window_moved (h : src'.HasAt d src.toList) (hl : limit ≤ src.size) :
    src'.window (pos + d) (limit + d) = src.window pos limit := by
  obtain ⟨x, hx⟩ := h
  rw [window_eq_take, window_eq_take, Nat.add_comm pos d, ← List.drop_drop, ← hx,
    show limit + d - (d + pos) = limit - pos by omega]
  by_cases hpos : pos ≤ limit
  · rw [List.drop_append_of_le_length (by simp; omega), List.take_append_of_le_length]
    rw [List.length_drop, Array.length_toList]
    omega
  · rw [show limit - pos = 0 by omega, List.take_zero, List.take_zero]

theorem getElem?_moved (h : src'.HasAt d src.toList) (hp : pos < src.size) :
    src'[pos + d]? = src[pos]? := by
  rw [Nat.add_comm, h.getElem? (by simpa using hp), Array.getElem?_toList]

theorem test_moved (h : src'.HasAt d src.toList) (hp : pos < src.size) (p : Char → Bool) :
    src'.test p (pos + d) = src.test p pos := by
  rw [test, test, h.getElem?_moved hp]

theorem skipWhile_moved (h : src'.HasAt d src.toList) (hl : limit ≤ src.size) (p : Char → Bool) :
    src'.skipWhile p (pos + d) (limit + d) = src.skipWhile p pos limit + d := by
  rw [skipWhile, skipWhile, h.window_moved hl]
  omega

theorem ends_moved (h : src'.HasAt d src.toList) (pos : Nat) :
    (decide (src.size + d ≤ pos + d) || src'.has '\n' (pos + d)) =
      (decide (src.size ≤ pos) || src.has '\n' pos) := by
  by_cases hp : pos < src.size
  · rw [has, has, h.test_moved hp]
    simp
  · have hp := Nat.le_of_not_lt hp
    simp [hp]

end Source.HasAt

theorem Expression.stop?_moved (h : src'.HasAt d src.toList) (hl : limit ≤ src.size) :
    stop? src' (pos + d) (limit + d) = (stop? src pos limit).map (· + d) := by
  rw [stop?, stop?, h.window_moved hl, Option.map_map]
  congr 1
  funext r
  dsimp only [Function.comp]
  omega

namespace Tag

/-- The tag further on. -/
def moved (d : Nat) (t : Tag) : Tag :=
  { t with span := ⟨t.span.start + d, t.span.stop + d⟩ }

theorem scan?_moved (h : src'.HasAt d src.toList) (hl : limit ≤ src.size) :
    scan? src' (pos + d) (limit + d) = (scan? src pos limit).map (moved d) := by
  rw [scan?, scan?, h.window_moved hl, Option.map_map]
  congr 1
  funext x
  obtain ⟨n, f, r⟩ := x
  dsimp only [Function.comp, moved]
  congr 2
  omega

theorem run?_eq (src : Source) (pos limit : Nat) : run? src pos limit =
    (scan? src pos limit).bind fun t =>
      let next := src.skipWhile Text.isSpace t.span.stop limit
      if limit ≤ next || src.has '\n' next then some ([t], next)
      else if src.has '<' next then (run? src next limit).map fun (ts, stop) => (t :: ts, stop)
      else none := by
  rw [run?]
  split
  · next h =>
    rw [h]
    rfl
  · next t h =>
    rw [h]
    rfl

/-- **A run of tags is found where the text stands**, moved on. -/
theorem run?_moved (h : src'.HasAt d src.toList) : run? src' (pos + d) (src.size + d) =
    (run? src pos src.size).map fun (ts, stop) => (ts.map (moved d), stop + d) := by
  have hhas {p : Nat} (hp : p < src.size) : src'.has '<' (p + d) = src.has '<' p :=
    h.test_moved hp _
  fun_induction run? src pos src.size with
  | case1 pos hscan =>
    rw [run?_eq, scan?_moved h (Nat.le_refl _), hscan]
    rfl
  | case2 pos t hscan next hstop =>
    rw [run?_eq, scan?_moved h (Nat.le_refl _), hscan]
    dsimp only [Option.map_some, Option.bind_some, moved]
    rw [h.skipWhile_moved (Nat.le_refl _), h.ends_moved, if_pos hstop]
    rfl
  | case3 pos t hscan next hstop hopen ih =>
    have hlt : next < src.size := by
      simp only [Bool.or_eq_true, decide_eq_true_eq, not_or] at hstop
      omega
    rw [run?_eq, scan?_moved h (Nat.le_refl _), hscan]
    dsimp only [Option.map_some, Option.bind_some, moved]
    rw [h.skipWhile_moved (Nat.le_refl _), h.ends_moved, if_neg hstop, hhas hlt, if_pos hopen, ih,
      Option.map_map, Option.map_map]
    rfl
  | case4 pos t hscan next hstop hopen =>
    have hlt : next < src.size := by
      simp only [Bool.or_eq_true, decide_eq_true_eq, not_or] at hstop
      omega
    rw [run?_eq, scan?_moved h (Nat.le_refl _), hscan]
    dsimp only [Option.map_some, Option.bind_some, moved]
    rw [h.skipWhile_moved (Nat.le_refl _), h.ends_moved, if_neg hstop, hhas hlt, if_neg hopen]
    rfl

theorem balancedFrom_map (f : Tag → Tag) (hname : ∀ t, (f t).name = t.name)
    (hform : ∀ t, (f t).form = t.form) (ts : List Tag) (open_ : List (Option String)) :
    balancedFrom open_ (ts.map f) = balancedFrom open_ ts := by
  induction ts generalizing open_ with
  | nil => rfl
  | cons t ts ih => simp only [List.map_cons, balancedFrom, hname, hform, ih]

theorem closesFrom_map (f : Tag → Tag) (hname : ∀ t, (f t).name = t.name)
    (hform : ∀ t, (f t).form = t.form) (ts : List Tag) (open_ : List (Option String)) :
    closesFrom open_ (ts.map f) = closesFrom open_ ts := by
  induction ts generalizing open_ with
  | nil => rfl
  | cons t ts ih => simp only [List.map_cons, closesFrom, hname, hform, ih]

end Tag

/-! ### White space at the end -/

/-- From the limit on there is only white space; right at the limit there is no space. -/
structure Source.Trails (src : Source) (limit : Nat) : Prop where
  le : limit ≤ src.size
  gap : ∀ p c, limit ≤ p → src[p]? = some c → Text.isGap c = true
  test : src.test Text.isSpace limit = false

theorem Source.trails_size (src : Source) : src.Trails src.size := by
  refine ⟨Nat.le_refl _, fun p c hp hc => ?_, by simp [Source.test]⟩
  have := (Array.getElem?_eq_some_iff.mp hc).1
  omega

namespace Source.Trails

theorem lt (h : src.Trails limit) {c : Char} (hc : src[pos]? = some c)
    (hgap : Text.isGap c = false) : pos < limit := by
  refine Nat.lt_of_not_le fun hle => ?_
  rw [h.gap pos c hle hc] at hgap
  cases hgap

theorem size_or_break (h : src.Trails limit) : limit = src.size ∨ src[limit]? = some '\n' := by
  have hle := h.le
  cases hc : src[limit]? with
  | none =>
    have := Array.getElem?_eq_none_iff.mp hc
    omega
  | some c =>
    right
    have hgap := h.gap limit c (Nat.le_refl _) hc
    have hspace : Text.isSpace c = false := by
      simpa [Source.test, hc] using h.test
    rw [Text.isGap, hspace, Bool.false_or, beq_iff_eq] at hgap
    rw [hgap]

theorem ends_iff (h : src.Trails limit) (hpos : pos ≤ limit) :
    (decide (limit ≤ pos) || src.has '\n' pos) =
      (decide (src.size ≤ pos) || src.has '\n' pos) := by
  have hle := h.le
  rcases Nat.lt_or_eq_of_le hpos with hlt | rfl
  · rw [decide_eq_false (Nat.not_le.mpr hlt), decide_eq_false (by omega)]
  · rcases h.size_or_break with hs | hb
    · rw [← hs]
    · have : src.has '\n' pos = true := by
        simp [has, Source.test, hb]
      rw [this, Bool.or_true, Bool.or_true]

theorem skipWhile_eq (h : src.Trails limit) (hpos : pos ≤ limit) :
    src.skipWhile Text.isSpace pos src.size = src.skipWhile Text.isSpace pos limit :=
  Source.skipWhile_of_limit hpos h.le h.test

end Source.Trails

theorem Expression.Complete.getLast? {u : List Char} (h : Complete u) :
    u.getLast? = some '\x7d' := by
  have hrest := h []
  rw [List.append_nil] at hrest
  obtain ⟨v, hv⟩ := suffix_rest? hrest
  rw [← hv, List.getLast?_concat]

/-- **An expression is found before white space as at the end.** -/
theorem Expression.stop?_trails (h : src.Trails limit) :
    stop? src pos limit = stop? src pos src.size := by
  refine Option.ext fun stop => ?_
  constructor
  · exact stop?_size
  · intro hstop
    refine stop?_of_stop_le hstop ?_
    obtain ⟨u, hu, hat, -, rfl⟩ := stop?_eq_some_iff.mp hstop
    have hpos := List.length_pos_iff.mpr hu.ne_nil
    have hlast : src[pos + (u.length - 1)]? = some '\x7d' := by
      rw [hat.getElem? (by omega), ← hu.getLast?, List.getLast?_eq_getElem?]
    have := h.lt hlast (by decide)
    omega

namespace Tag

theorem scan?_trails (h : src.Trails limit) : scan? src pos limit = scan? src pos src.size := by
  refine Option.ext fun t => ⟨scan?_size, fun ht => scan?_of_stop_le ht ?_⟩
  have := h.lt (has_gt_of_scan? ht) (by decide)
  omega

/-- **A run of tags is found before white space as at the end.** -/
theorem run?_trails (h : src.Trails limit) : run? src pos limit = run? src pos src.size := by
  fun_induction run? src pos limit with
  | case1 pos hscan => rw [run?_eq, ← scan?_trails h, hscan, Option.bind_none]
  | case2 pos t hscan next hstop =>
    have hle := (stop_of_scan? hscan).2
    rw [run?_eq, ← scan?_trails h, hscan]
    dsimp only [Option.bind_some]
    rw [h.skipWhile_eq hle, ← h.ends_iff (Source.skipWhile_le hle), if_pos hstop]
  | case3 pos t hscan next hstop hopen ih =>
    have hle := (stop_of_scan? hscan).2
    rw [run?_eq src pos src.size, ← scan?_trails h, hscan]
    dsimp only [Option.bind_some]
    rw [h.skipWhile_eq hle, ← h.ends_iff (Source.skipWhile_le hle), if_neg hstop, if_pos hopen, ih]
  | case4 pos t hscan next hstop hopen =>
    have hle := (stop_of_scan? hscan).2
    rw [run?_eq, ← scan?_trails h, hscan]
    dsimp only [Option.bind_some]
    rw [h.skipWhile_eq hle, ← h.ends_iff (Source.skipWhile_le hle), if_neg hstop, if_neg hopen]

end Tag

end MdxProse
