import MdxProse.Source

/-!
# What stands where in a source

`Source.HasAt pos u` says that the text `u` stands at offset `pos`.  A window is a text that stands
at its start (`hasAt_window`), and it begins with all texts that stand there and fit in
(`prefix_window_iff`).
-/

namespace MdxProse.Source

variable {src : Source} {pos limit : Nat} {u v : List Char}

/-- The text `u` stands at offset `pos`. -/
def HasAt (src : Source) (pos : Nat) (u : List Char) : Prop :=
  u <+: src.toList.drop pos

theorem window_eq_take (src : Source) (pos limit : Nat) :
    src.window pos limit = (src.toList.drop pos).take (limit - pos) := by
  rw [window, Array.toList_extract, List.extract_eq_take_drop]

theorem prefix_window_iff :
    u <+: src.window pos limit ↔ src.HasAt pos u ∧ u.length ≤ limit - pos := by
  rw [window_eq_take, List.prefix_take_iff, HasAt]

theorem hasAt_of_toList_eq (h : src.toList = u) : src.HasAt 0 u :=
  h ▸ List.prefix_refl _

theorem hasAt_window (src : Source) (pos limit : Nat) : src.HasAt pos (src.window pos limit) :=
  (prefix_window_iff.mp (List.prefix_refl _)).1

theorem HasAt.window_eq (h : src.HasAt pos u) : src.window pos (pos + u.length) = u := by
  rw [window_eq_take, Nat.add_sub_cancel_left]
  exact (List.prefix_iff_eq_take.mp h).symm

theorem hasAt_iff_window_eq : src.HasAt pos u ↔ src.window pos (pos + u.length) = u :=
  ⟨HasAt.window_eq, fun h => h ▸ hasAt_window src pos _⟩

theorem HasAt.of_isPrefix (h : src.HasAt pos v) (hu : u <+: v) : src.HasAt pos u :=
  hu.trans h

theorem HasAt.drop (h : src.HasAt pos u) (k : Nat) : src.HasAt (pos + k) (u.drop k) := by
  obtain ⟨x, hx⟩ := h
  rw [HasAt, ← List.drop_drop, ← hx, List.drop_append]
  exact List.prefix_append _ _

theorem hasAt_append :
    src.HasAt pos (u ++ v) ↔ src.HasAt pos u ∧ src.HasAt (pos + u.length) v := by
  constructor
  · intro h
    refine ⟨h.of_isPrefix (List.prefix_append u v), ?_⟩
    obtain ⟨x, hx⟩ := h
    exact ⟨x, by rw [← List.drop_drop, ← hx, List.append_assoc, List.drop_left]⟩
  · rintro ⟨⟨x, hx⟩, y, hy⟩
    rw [← List.drop_drop, ← hx, List.drop_left] at hy
    exact ⟨y, by rw [← hx, ← hy, List.append_assoc]⟩

theorem HasAt.getElem? (h : src.HasAt pos u) {i : Nat} (hi : i < u.length) :
    src[pos + i]? = u[i]? := by
  obtain ⟨x, hx⟩ := h
  rw [← Array.getElem?_toList, ← List.getElem?_drop, ← hx, List.getElem?_append_left hi]

theorem hasAt_singleton {c : Char} : src.HasAt pos [c] ↔ src[pos]? = some c := by
  rw [HasAt, List.singleton_prefix_iff_head?_eq_some, List.head?_drop, Array.getElem?_toList]

theorem has_iff {c : Char} : src.has c pos = true ↔ src[pos]? = some c := by
  rw [has, test_iff]
  constructor
  · rintro ⟨d, hd, heq⟩
    rwa [← beq_iff_eq.mp heq]
  · intro h
    exact ⟨c, h, beq_self_eq_true c⟩

theorem hasAt_replicate_iff {c : Char} {n : Nat} :
    src.HasAt pos (List.replicate n c) ↔ ∀ i, pos ≤ i → i < pos + n → src.has c i = true := by
  induction n generalizing pos with
  | zero =>
    constructor
    · intro _ i hle hlt
      omega
    · intro _
      exact List.nil_prefix
  | succ n ih =>
    rw [List.replicate_succ, ← List.singleton_append, hasAt_append, hasAt_singleton,
      List.length_singleton, ih, ← has_iff]
    constructor
    · rintro ⟨hfirst, hrest⟩ i hle hlt
      by_cases heq : i = pos
      · rwa [heq]
      · exact hrest i (by omega) (by omega)
    · intro h
      refine ⟨h pos (Nat.le_refl pos) (by omega), ?_⟩
      intro i hle hlt
      exact h i (by omega) (by omega)

theorem HasAt.le_size (h : src.HasAt pos u) (hne : u ≠ []) : pos + u.length ≤ src.size := by
  have hlen := List.IsPrefix.length_le h
  have hpos := List.length_pos_iff.mpr hne
  simp only [List.length_drop, Array.length_toList] at hlen
  omega

theorem getElem?_window (src : Source) (pos limit i : Nat) :
    (src.window pos limit)[i]? = if i < limit - pos then src[pos + i]? else none := by
  rw [window_eq_take, List.getElem?_take]
  split
  · rw [List.getElem?_drop, Array.getElem?_toList]
  · rfl

theorem window_eq_nil_of_none (h : src[pos]? = none) (limit : Nat) :
    src.window pos limit = [] := by
  have hsize := Array.getElem?_eq_none_iff.mp h
  have hlen := src.length_window pos limit
  apply List.eq_nil_of_length_eq_zero
  omega

theorem drop_window (src : Source) (pos limit k : Nat) :
    (src.window pos limit).drop k = src.window (pos + k) limit := by
  rw [window_eq_take, window_eq_take, List.drop_take, List.drop_drop, Nat.sub_sub]

theorem window_append {mid : Nat} (h₁ : pos ≤ mid) (h₂ : mid ≤ limit) :
    src.window pos mid ++ src.window mid limit = src.window pos limit := by
  obtain ⟨a, rfl⟩ := Nat.exists_eq_add_of_le h₁
  obtain ⟨b, rfl⟩ := Nat.exists_eq_add_of_le h₂
  rw [window_eq_take, window_eq_take, window_eq_take, Nat.add_sub_cancel_left,
    Nat.add_sub_cancel_left, Nat.add_assoc, Nat.add_sub_cancel_left, List.take_add,
    ← List.drop_drop]

/-! ### Skipping -/

section Skip

variable {p : Char → Bool} {i : Nat}

theorem dropWhile_window (src : Source) (p : Char → Bool) (pos limit : Nat) :
    (src.window pos limit).dropWhile p = src.window (src.skipWhile p pos limit) limit := by
  rw [skipWhile, ← drop_window]
  conv => rhs; rhs; rw [← List.takeWhile_append_dropWhile (p := p) (l := src.window pos limit)]
  rw [List.drop_left]

theorem skipWhile_le (h : pos ≤ limit) : src.skipWhile p pos limit ≤ limit := by
  have := (List.takeWhile_prefix p (l := src.window pos limit)).length_le
  have := src.length_window_le pos limit
  rw [skipWhile]
  omega

theorem test_of_lt_skipWhile (hp : pos ≤ i) (hi : i < src.skipWhile p pos limit) :
    src.test p i = true := by
  obtain ⟨k, rfl⟩ := Nat.exists_eq_add_of_le hp
  rw [skipWhile] at hi
  have hk : k < ((src.window pos limit).takeWhile p).length := by omega
  have hpre := List.takeWhile_prefix p (l := src.window pos limit)
  have hw := List.prefix_iff_getElem?.mp hpre k hk
  rw [← (hasAt_window src pos limit).getElem? (Nat.lt_of_lt_of_le hk hpre.length_le)] at hw
  exact test_iff.mpr ⟨_, hw, List.all_eq_true.mp List.all_takeWhile _ (List.getElem_mem hk)⟩

theorem test_skipWhile (h : src.skipWhile p pos limit < limit) :
    src.test p (src.skipWhile p pos limit) = false := by
  have hat : (src.window pos limit)[((src.window pos limit).takeWhile p).length]? =
      src[src.skipWhile p pos limit]? := by
    rw [getElem?_window, if_pos (by rw [skipWhile] at h; omega), skipWhile]
  have hdrop : (src.window pos limit)[((src.window pos limit).takeWhile p).length]? =
      ((src.window pos limit).dropWhile p).head? := by
    conv => lhs; lhs; rw [← List.takeWhile_append_dropWhile (p := p) (l := src.window pos limit)]
    rw [List.getElem?_append_right (Nat.le_refl _), Nat.sub_self, List.head?_eq_getElem?]
  have hno := List.head?_dropWhile_not p (src.window pos limit)
  rw [← hdrop, hat] at hno
  unfold test
  split
  · next c hc =>
    rw [hc] at hno
    exact hno
  · rfl

theorem test_skipWhile_of_limit (hp : pos ≤ limit) (hl : src.test p limit = false) :
    src.test p (src.skipWhile p pos limit) = false := by
  by_cases h : src.skipWhile p pos limit < limit
  · exact test_skipWhile h
  · have := src.skipWhile_le hp (p := p)
    rw [show src.skipWhile p pos limit = limit by omega]
    exact hl

theorem skipWhile_of_not_test (h : src.test p pos = false) (limit : Nat) :
    src.skipWhile p pos limit = pos := by
  have hnil : (src.window pos limit).takeWhile p = [] := by
    by_cases hlt : pos < limit
    · cases hc : src[pos]? with
      | none =>
        rw [window_eq_nil_of_none hc]
        rfl
      | some c =>
        rw [window_cons src hc hlt, List.takeWhile_cons_of_neg]
        simpa [test, hc] using h
    · rw [window_eq_nil_of_le src (Nat.le_of_not_lt hlt)]
      rfl
  rw [skipWhile, hnil]
  rfl

theorem skipWhile_of_test (h : src.test p pos = true) (hlt : pos < limit) :
    src.skipWhile p pos limit = src.skipWhile p (pos + 1) limit := by
  obtain ⟨c, hc, hpc⟩ := test_iff.mp h
  rw [skipWhile, skipWhile, window_cons src hc hlt, List.takeWhile_cons_of_pos hpc,
    List.length_cons]
  omega

theorem skipWhile_of_forall {mid : Nat} (hle : pos ≤ mid) (hmid : mid ≤ limit)
    (h : ∀ i, pos ≤ i → i < mid → src.test p i = true) :
    src.skipWhile p pos limit = src.skipWhile p mid limit := by
  induction hn : mid - pos generalizing pos with
  | zero => rw [show pos = mid by omega]
  | succ n ih =>
    rw [skipWhile_of_test (h pos (Nat.le_refl pos) (by omega)) (by omega)]
    apply ih (by omega) _ (by omega)
    intro i hi hlt
    exact h i (by omega) hlt

theorem skipWhile_of_limit {limit' : Nat} (hp : pos ≤ limit) (hl : limit ≤ limit')
    (h : src.test p limit = false) : src.skipWhile p pos limit' = src.skipWhile p pos limit := by
  induction hn : limit - pos generalizing pos with
  | zero =>
    obtain rfl : pos = limit := by omega
    rw [skipWhile_of_not_test h, skipWhile_of_not_test h]
  | succ n ih =>
    cases ht : src.test p pos with
    | false => rw [skipWhile_of_not_test ht, skipWhile_of_not_test ht]
    | true =>
      rw [skipWhile_of_test ht (by omega), skipWhile_of_test ht (by omega)]
      exact ih (by omega) (by omega)

end Skip

end MdxProse.Source
