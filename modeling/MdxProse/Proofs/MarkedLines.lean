import Mathlib.Order.Monotone.Basic
import MdxProse.Document
import MdxProse.Proofs.RunningText

/-!
# Texts with a mark in front of each line

* `Text.markLines`: the text with a mark in front of each line.
  `Text.splitOn_markLines`: its lines.
* `Text.carry`: by how much the marks in front of lines move an offset on.
  `Text.getElem?_markLines`: **what stands there is what stands at the offset in the text.**
* `Anchor.linesFrom_markLines`: the lines of the marked text are marked, and start as much further
  on.
-/

namespace MdxProse

namespace Text

variable {mark w : List Char} {n p : Nat}

/-- The text with a mark in front of each line. -/
def markLines (mark w : List Char) : List Char :=
  unlines ((splitOn '\n' w).map (mark ++ ·))

theorem markLines_single (h : '\n' ∉ w) : markLines mark w = mark ++ w := by
  rw [markLines, splitOn_single h]
  rfl

theorem markLines_first {u : List Char} (h : '\n' ∉ u) (v : List Char) :
    markLines mark (u ++ '\n' :: v) = mark ++ (u ++ '\n' :: markLines mark v) := by
  have hne : (splitOn '\n' v).map (mark ++ ·) ≠ [] := fun hnil => by
    have hlen := length_splitOn '\n' v
    rw [List.map_eq_nil_iff.mp hnil] at hlen
    cases hlen
  rw [markLines, splitOn_first h, List.map_cons, unlines_cons _ hne, List.append_assoc]
  rfl

/-- **The lines of the marked text** are those of the text with the mark in front. -/
theorem splitOn_markLines (hmark : '\n' ∉ mark) (w : List Char) :
    splitOn '\n' (markLines mark w) = (splitOn '\n' w).map (mark ++ ·) := by
  induction w using split_induction '\n' with
  | single w h =>
    rw [markLines_single h, splitOn_single h, splitOn_single, List.map_singleton]
    simp [hmark, h]
  | first u v h ih =>
    have hu : '\n' ∉ mark ++ u := by simp [hmark, h]
    rw [markLines_first h, ← List.append_assoc, splitOn_first hu, ih, splitOn_first h,
      List.map_cons]

theorem count_markLines (hmark : '\n' ∉ mark) (w : List Char) :
    (markLines mark w).count '\n' = w.count '\n' := by
  have hlen := length_splitOn '\n' (markLines mark w)
  rw [splitOn_markLines hmark, List.length_map, length_splitOn] at hlen
  omega

theorem mem_markLines {c : Char} (h : c ∈ markLines mark w) : c ∈ mark ∨ c ∈ w := by
  induction w using split_induction '\n' with
  | single w hno =>
    rw [markLines_single hno] at h
    exact List.mem_append.mp h
  | first u v hno ih =>
    rw [markLines_first hno] at h
    simp only [List.mem_append, List.mem_cons] at h ⊢
    rcases h with h | h | h | h
    · exact .inl h
    · exact .inr (.inl h)
    · exact .inr (.inr (.inl h))
    · exact (ih h).imp id fun h => .inr (.inr h)

theorem map_markLines {f : Char → Char} (hmark : ∀ c ∈ mark, f c = c)
    (hbreak : ∀ c, f c = '\n' ↔ c = '\n') (w : List Char) :
    (markLines mark w).map f = markLines mark (w.map f) := by
  have hsame : mark.map f = mark := by
    conv => rhs; rw [← List.map_id mark]
    exact List.map_congr_left hmark
  have hno {u : List Char} (h : '\n' ∉ u) : '\n' ∉ u.map f := fun hmem => by
    obtain ⟨c, hc, hfc⟩ := List.mem_map.mp hmem
    exact h ((hbreak c).mp hfc ▸ hc)
  induction w using split_induction '\n' with
  | single w h => rw [markLines_single h, markLines_single (hno h), List.map_append, hsame]
  | first u v h ih =>
    rw [markLines_first h, List.map_append, hsame, List.map_append, List.map_cons, ih,
      (hbreak '\n').mpr rfl, List.map_append, List.map_cons, (hbreak '\n').mpr rfl,
      markLines_first (hno h)]

theorem replaceNul_markLines (hmark : '\x00' ∉ mark) (w : List Char) :
    replaceNul (markLines mark w) = markLines mark (replaceNul w) := by
  refine map_markLines (fun c hc => ?_) (fun c => ?_) w
  · rw [if_neg]
    intro hnul
    exact hmark (beq_iff_eq.mp hnul ▸ hc)
  · split
    · next hc =>
      rw [beq_iff_eq.mp hc]
      decide
    · exact Iff.rfl

theorem notMem_replaceNul {c : Char} (hc : c ≠ replacement) (h : c ∉ w) : c ∉ replaceNul w := by
  intro hmem
  obtain ⟨d, hd, hdc⟩ := List.mem_map.mp hmem
  split at hdc
  · exact hc hdc.symm
  · exact h (hdc ▸ hd)

/-! ### Offsets -/

/-- The offset in the text, moved on by `n` characters for each line break before it. -/
def carry (n : Nat) (w : List Char) (p : Nat) : Nat :=
  p + n * (w.take p).count '\n'

theorem carry_zero (n : Nat) (w : List Char) : carry n w 0 = 0 := by
  rw [carry, List.take_zero, List.count_nil, Nat.mul_zero]

theorem carry_succ_of_ne (h : w[p]? ≠ some '\n') : carry n w (p + 1) = carry n w p + 1 := by
  have hcount : (w[p]?.toList).count '\n' = 0 := by
    cases hc : w[p]? with
    | none => rfl
    | some c =>
      rw [hc] at h
      refine List.count_eq_zero_of_not_mem fun hmem => h ?_
      rw [Option.toList_some, List.mem_singleton] at hmem
      rw [hmem]
  rw [carry, carry, List.take_add_one, List.count_append, hcount, Nat.add_right_comm]
  rfl

theorem carry_succ_of_eq (h : w[p]? = some '\n') : carry n w (p + 1) = carry n w p + 1 + n := by
  rw [carry, carry, List.take_add_one, List.count_append, h, Option.toList_some,
    List.count_singleton_self, Nat.mul_add, Nat.mul_one]
  omega

theorem carry_strictMono (n : Nat) (w : List Char) : StrictMono (carry n w) := by
  refine strictMono_nat_of_lt_succ fun p => ?_
  by_cases h : w[p]? = some '\n'
  · rw [carry_succ_of_eq h]
    omega
  · rw [carry_succ_of_ne h]
    omega

theorem carry_length (n : Nat) (w : List Char) :
    carry n w w.length = w.length + n * w.count '\n' := by
  rw [carry, List.take_length]

/-- Below the first line break the rest of the text tells how far an offset is moved. -/
theorem carry_append (n : Nat) (u v : List Char) (q : Nat) :
    carry n (u ++ v) (u.length + q) = u.length + n * u.count '\n' + carry n v q := by
  rw [carry, carry, List.take_length_add_append, List.count_append, Nat.mul_add]
  omega

theorem carry_append_left {u : List Char} (hp : p ≤ u.length) (n : Nat) (v : List Char) :
    carry n (u ++ v) p = carry n u p := by
  rw [carry, carry, List.take_append_of_le_length hp]

theorem carry_of_le {u : List Char} (h : '\n' ∉ u) (hp : p ≤ u.length) (n : Nat) (v : List Char) :
    carry n (u ++ v) p = p := by
  rw [carry_append_left hp, carry, List.count_eq_zero_of_not_mem fun hmem =>
    h (List.mem_of_mem_take hmem), Nat.mul_zero, Nat.add_zero]

theorem length_markLines (mark w : List Char) :
    (markLines mark w).length = carry mark.length w w.length + mark.length := by
  rw [carry_length]
  induction w using split_induction '\n' with
  | single w h =>
    rw [markLines_single h, List.length_append, List.count_eq_zero_of_not_mem h]
    omega
  | first u v h ih =>
    rw [markLines_first h, List.length_append, List.length_append, List.length_cons, ih,
      List.length_append, List.length_cons, List.count_append, List.count_cons_self,
      List.count_eq_zero_of_not_mem h, Nat.mul_add, Nat.mul_add]
    omega

/-- **What stands at an offset of the text stands in the marked text where the marks move it.** -/
theorem getElem?_markLines (mark : List Char) (hp : p ≤ w.length) :
    (markLines mark w)[carry mark.length w p + mark.length]? = w[p]? := by
  induction w using split_induction '\n' generalizing p with
  | single w h =>
    have hcarry := carry_of_le h hp mark.length []
    rw [List.append_nil] at hcarry
    rw [markLines_single h, hcarry, Nat.add_comm, List.getElem?_append_right (Nat.le_add_right _ _),
      Nat.add_sub_cancel_left]
  | first u v h ih =>
    by_cases hlt : p ≤ u.length
    · rw [markLines_first h, carry_of_le h hlt, Nat.add_comm,
        List.getElem?_append_right (Nat.le_add_right _ _), Nat.add_sub_cancel_left]
      rcases Nat.lt_or_eq_of_le hlt with hlt | rfl
      · rw [List.getElem?_append_left hlt, List.getElem?_append_left hlt]
      · rw [List.getElem?_append_right (Nat.le_refl _), List.getElem?_append_right (Nat.le_refl _),
          Nat.sub_self]
        rfl
    · obtain ⟨q, rfl⟩ := Nat.exists_eq_add_of_lt (Nat.lt_of_not_le hlt)
      have hq : q ≤ v.length := by
        rw [List.length_append, List.length_cons] at hp
        omega
      have hsplit : u ++ '\n' :: v = (u ++ ['\n']) ++ v := by simp
      have hlen : u.length + q + 1 = (u ++ ['\n']).length + q := by
        rw [List.length_append, List.length_singleton]
        omega
      have hmarked : mark ++ (u ++ '\n' :: markLines mark v) =
          (mark ++ (u ++ ['\n'])) ++ markLines mark v := by simp
      have hone : (u ++ ['\n']).count '\n' = 1 := by
        rw [List.count_append, List.count_eq_zero_of_not_mem h]
        rfl
      rw [markLines_first h, hmarked, hsplit, hlen, carry_append, hone,
        List.getElem?_append_right (Nat.le_add_right _ _), Nat.add_sub_cancel_left, ← ih hq,
        List.getElem?_append_right
          (by simp only [List.length_append, List.length_singleton]; omega)]
      congr 1
      simp only [List.length_append, List.length_singleton]
      omega

end Text

/-- **The lines of the marked text are marked**, and start where the marks move them. -/
theorem Anchor.linesFrom_markLines {mark : List Char} (hmark : '\n' ∉ mark) {w : List Char}
    {pos i s : Nat} {body : List Char}
    (h : (linesFrom pos (Text.splitOn '\n' w))[i]? = some (s, body)) (pos' : Nat) :
    pos ≤ s ∧ s - pos ≤ w.length ∧
      (linesFrom pos' (Text.splitOn '\n' (Text.markLines mark w)))[i]? =
        some (pos' + Text.carry mark.length w (s - pos), mark ++ body) := by
  induction w using Text.split_induction '\n' generalizing pos pos' i with
  | single w hno =>
    rw [linesFrom_single hno] at h
    obtain ⟨rfl, he⟩ : i = 0 ∧ (pos, w) = (s, body) := by
      cases i with
      | zero => exact ⟨rfl, Option.some.inj h⟩
      | succ i => cases h
    obtain ⟨rfl, rfl⟩ := Prod.mk.inj he
    have hm : '\n' ∉ mark ++ w := by simp [hmark, hno]
    rw [Text.markLines_single hno, linesFrom_single hm, Nat.sub_self, Text.carry_zero]
    exact ⟨Nat.le_refl _, Nat.zero_le _, rfl⟩
  | first u v hno ih =>
    have hm : '\n' ∉ mark ++ u := by simp [hmark, hno]
    rw [linesFrom_first hno] at h
    rw [Text.markLines_first hno, ← List.append_assoc, linesFrom_first hm]
    cases i with
    | zero =>
      cases h
      rw [Nat.sub_self, Text.carry_zero]
      exact ⟨Nat.le_refl _, Nat.zero_le _, rfl⟩
    | succ i =>
      rw [List.getElem?_cons_succ] at h ⊢
      obtain ⟨hle, hsub, hget⟩ := ih h (pos' + (mark ++ u).length + 1)
      have hsplit : u ++ '\n' :: v = (u ++ ['\n']) ++ v := by simp
      have hlen : s - pos = (u ++ ['\n']).length + (s - (pos + u.length + 1)) := by
        rw [List.length_append, List.length_singleton]
        omega
      have hone : (u ++ ['\n']).count '\n' = 1 := by
        rw [List.count_append, List.count_eq_zero_of_not_mem hno]
        rfl
      refine ⟨by omega, ?_, ?_⟩
      · rw [List.length_append, List.length_cons]
        omega
      · rw [hget, hsplit, hlen, Text.carry_append, hone, List.length_append, List.length_append,
          List.length_singleton]
        congr 2
        omega

end MdxProse
