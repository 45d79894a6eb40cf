import MdxProse.Anchor
import MdxProse.Block.Line
import MdxProse.Proofs.Window

/-!
# The lines of a source

A source has one line more than it has line breaks.  `Source.IsLine src s body` says that one of
them starts at `s` and holds `body`; `Anchor.lines` is the list of all of them.

* `Text.splitOn_first`, `Text.splitOn_single`: how a text is split.
* `Anchor.lines_isLine`, `Anchor.lines_next`: what `Anchor.lines` lists are the lines, each right
  after the one before.
* `Block.Line.table_getElem?`: **the table of lines lists the same lines**, but for a last one
  without text (`Block.Line.lt_size_table`).
-/

namespace MdxProse

theorem takeWhile_eq_take {α : Type} {p : α → Bool} {xs : List α} {n : Nat}
    (h : ∀ k x, k < n → xs[k]? = some x → p x = true)
    (hn : ∀ x, xs[n]? = some x → p x = false) : xs.takeWhile p = xs.take n := by
  induction xs generalizing n with
  | nil => rw [List.takeWhile_nil, List.take_nil]
  | cons x xs ih =>
    cases n with
    | zero => rw [List.takeWhile_cons_of_neg (by simp [hn x rfl]), List.take_zero]
    | succ n =>
      rw [List.takeWhile_cons_of_pos (h 0 x (Nat.succ_pos n) rfl), List.take_succ_cons,
        ih (fun k y hk hy => h (k + 1) y (Nat.succ_lt_succ hk) hy) fun y hy => hn y hy]

/-! ### Splitting -/

namespace Text

variable {sep : Char} {u w : List Char}

theorem splitOn_single (h : sep ∉ w) : splitOn sep w = [w] := by
  induction w with
  | nil => rfl
  | cons c w ih =>
    rw [List.mem_cons, not_or] at h
    rw [splitOn, ih h.2]
    simp [Ne.symm h.1]

theorem splitOn_first (h : sep ∉ u) (w : List Char) :
    splitOn sep (u ++ sep :: w) = u :: splitOn sep w := by
  induction u with
  | nil =>
    rw [List.nil_append, splitOn]
    cases hw : splitOn sep w with
    | nil =>
      cases w with
      | nil => cases hw
      | cons c w =>
        rw [splitOn] at hw
        split at hw
        · cases hw
        · split at hw <;> cases hw
    | cons p ps => simp
  | cons c u ih =>
    rw [List.mem_cons, not_or] at h
    rw [List.cons_append, splitOn, ih h.2]
    simp [Ne.symm h.1]

theorem exists_splitOn_cons {c : Char} (hc : c ≠ sep) (w : List Char) :
    ∃ u rest, splitOn sep (c :: w) = (c :: u) :: rest := by
  by_cases h : sep ∈ w
  · obtain ⟨u, v, rfl, hu⟩ := List.eq_append_cons_of_mem h
    refine ⟨u, splitOn sep v, splitOn_first (u := c :: u) ?_ v⟩
    rw [List.mem_cons, not_or]
    exact ⟨hc.symm, hu⟩
  · refine ⟨w, [], splitOn_single ?_⟩
    rw [List.mem_cons, not_or]
    exact ⟨hc.symm, h⟩

theorem split_cases (sep : Char) (w : List Char) :
    sep ∉ w ∨ ∃ u v, sep ∉ u ∧ w = u ++ sep :: v := by
  by_cases h : sep ∈ w
  · obtain ⟨u, v, rfl, hu⟩ := List.eq_append_cons_of_mem h
    exact .inr ⟨u, v, hu, rfl⟩
  · exact .inl h

/-- To show something of every text, show it of one without a separator, and of one in which the
first separator comes before a text of which it holds. -/
theorem split_induction {motive : List Char → Prop} (sep : Char)
    (single : ∀ w, sep ∉ w → motive w)
    (first : ∀ u v, sep ∉ u → motive v → motive (u ++ sep :: v)) (w : List Char) : motive w := by
  rcases split_cases sep w with h | ⟨u, v, hu, hw⟩
  · exact single w h
  · rw [hw]
    exact first u v hu (split_induction sep single first v)
termination_by w.length
decreasing_by
  rw [hw, List.length_append, List.length_cons]
  omega

theorem length_splitOn (sep : Char) (w : List Char) :
    (splitOn sep w).length = w.count sep + 1 := by
  induction w using split_induction sep with
  | single w h => rw [splitOn_single h, List.count_eq_zero_of_not_mem h, List.length_singleton]
  | first u v h ih =>
    rw [splitOn_first h, List.length_cons, ih, List.count_append, List.count_cons_self,
      List.count_eq_zero_of_not_mem h, Nat.zero_add]

end Text

/-! ### Lines of a source -/

/-- The text `body` is the line of the source that starts at `s`. -/
structure Source.IsLine (src : Source) (s : Nat) (body : List Char) : Prop where
  hasAt : src.HasAt s body
  noBreak : '\n' ∉ body
  start : s = 0 ∨ src[s - 1]? = some '\n'
  stop : src[s + body.length]? = some '\n' ∨ s + body.length = src.size

theorem Source.IsLine.le_size {src : Source} {s : Nat} {body : List Char}
    (h : src.IsLine s body) : s + body.length ≤ src.size := by
  rcases h.stop with hb | hs
  · exact Nat.le_of_lt (Array.getElem?_eq_some_iff.mp hb).1
  · exact Nat.le_of_eq hs

namespace Anchor

variable {src : Source} {k s : Nat} {body : List Char}

theorem linesFrom_single {w : List Char} (h : '\n' ∉ w) (pos : Nat) :
    linesFrom pos (Text.splitOn '\n' w) = [(pos, w)] := by
  rw [Text.splitOn_single h]
  rfl

theorem linesFrom_first {u : List Char} (h : '\n' ∉ u) (v : List Char) (pos : Nat) :
    linesFrom pos (Text.splitOn '\n' (u ++ '\n' :: v)) =
      (pos, u) :: linesFrom (pos + u.length + 1) (Text.splitOn '\n' v) := by
  rw [Text.splitOn_first h]
  rfl

theorem linesFrom_zero (pos : Nat) (w : List Char) :
    ∃ body, (linesFrom pos (Text.splitOn '\n' w))[0]? = some (pos, body) := by
  rcases Text.split_cases '\n' w with hw | ⟨u, v, hu, rfl⟩
  · exact ⟨w, by rw [linesFrom_single hw]; rfl⟩
  · exact ⟨u, by rw [linesFrom_first hu]; rfl⟩

/-- What lists the lines from some offset on lists lines of the source, one right after the
other. -/
theorem linesFrom_spec {w : List Char} {pos : Nat} (hw : src.toList.drop pos = w)
    (hpos : pos = 0 ∨ src[pos - 1]? = some '\n') (hle : pos ≤ src.size)
    (h : (linesFrom pos (Text.splitOn '\n' w))[k]? = some (s, body)) :
    src.IsLine s body ∧ (src[s + body.length]? = some '\n' →
      ∃ body', (linesFrom pos (Text.splitOn '\n' w))[k + 1]? =
        some (s + body.length + 1, body')) := by
  induction w using Text.split_induction '\n' generalizing pos k with
  | single w hno =>
    rw [linesFrom_single hno] at h ⊢
    obtain ⟨rfl, he⟩ : k = 0 ∧ (pos, w) = (s, body) := by
      cases k with
      | zero => exact ⟨rfl, Option.some.inj h⟩
      | succ k => cases h
    obtain ⟨rfl, rfl⟩ := Prod.mk.inj he
    have hlen : pos + w.length = src.size := by
      rw [← hw, List.length_drop, Array.length_toList]
      omega
    refine ⟨⟨⟨[], by rw [hw, List.append_nil]⟩, hno, hpos, .inr hlen⟩, fun hbreak => ?_⟩
    rw [hlen] at hbreak
    simp at hbreak
  | first u v hno ih =>
    rw [linesFrom_first hno] at h ⊢
    have hat : src.HasAt pos (u ++ ['\n']) := ⟨v, by rw [hw]; simp⟩
    have hbreak : src[pos + u.length]? = some '\n' := by
      have := (Source.hasAt_append.mp hat).2.getElem? (i := 0) (by simp)
      simpa using this
    have hv : src.toList.drop (pos + u.length + 1) = v := by
      rw [Nat.add_assoc, ← List.drop_drop, hw]
      simp
    have hsize : pos + u.length + 1 ≤ src.size := by
      have := hat.le_size (by simp)
      simpa [Nat.add_assoc] using this
    cases k with
    | zero =>
      obtain ⟨rfl, rfl⟩ := Prod.mk.inj (Option.some.inj h)
      exact ⟨⟨(Source.hasAt_append.mp hat).1, hno, hpos, .inl hbreak⟩,
        fun _ => linesFrom_zero _ _⟩
    | succ k => exact ih hv (.inr hbreak) hsize h

/-- **What is listed are the lines of the source.** -/
theorem lines_isLine (h : (lines src)[k]? = some (s, body)) : src.IsLine s body :=
  (linesFrom_spec rfl (.inl rfl) (Nat.zero_le _) h).1

theorem lines_next (h : (lines src)[k]? = some (s, body))
    (hbreak : src[s + body.length]? = some '\n') :
    ∃ body', (lines src)[k + 1]? = some (s + body.length + 1, body') :=
  (linesFrom_spec rfl (.inl rfl) (Nat.zero_le _) h).2 hbreak

theorem le_of_linesFrom {ls : List (List Char)} {pos : Nat}
    (h : (linesFrom pos ls)[k]? = some (s, body)) : pos ≤ s := by
  induction ls generalizing pos k with
  | nil => cases h
  | cons l ls ih =>
    cases k with
    | zero =>
      cases h
      exact Nat.le_refl _
    | succ k =>
      have := ih (k := k) h
      omega

theorem lines_succ {t : Nat} {body' : List Char} (h : (lines src)[k]? = some (s, body))
    (h' : (lines src)[k + 1]? = some (t, body')) : t = s + body.length + 1 := by
  suffices ∀ (ls : List (List Char)) pos k, (linesFrom pos ls)[k]? = some (s, body) →
      (linesFrom pos ls)[k + 1]? = some (t, body') → t = s + body.length + 1 from
    this _ _ _ h h'
  intro ls
  induction ls with
  | nil =>
    intro pos k h
    cases h
  | cons l ls ih =>
    intro pos k h h'
    cases k with
    | zero =>
      cases h
      cases ls with
      | nil => cases h'
      | cons l' ls =>
        cases h'
        rfl
    | succ k => exact ih _ k h h'

/-- **A line ends before the later ones start.** -/
theorem lines_lt {j t : Nat} {body' : List Char} (h : (lines src)[k]? = some (s, body))
    (h' : (lines src)[j]? = some (t, body')) (hkj : k < j) : s + body.length < t := by
  suffices ∀ (ls : List (List Char)) pos k j, (linesFrom pos ls)[k]? = some (s, body) →
      (linesFrom pos ls)[j]? = some (t, body') → k < j → s + body.length < t from
    this _ _ _ _ h h' hkj
  intro ls
  induction ls with
  | nil =>
    intro pos k j h
    cases h
  | cons l ls ih =>
    intro pos k j h h' hkj
    match k, j, hkj with
    | 0, j + 1, _ =>
      cases h
      exact le_of_linesFrom (k := j) h'
    | k + 1, j + 1, hkj => exact ih _ k j h h' (Nat.lt_of_succ_lt_succ hkj)

theorem break_of_next {t : Nat} {body' : List Char} (h : (lines src)[k]? = some (s, body))
    (h' : (lines src)[k + 1]? = some (t, body')) : src[s + body.length]? = some '\n' := by
  have ht := lines_succ h h'
  rcases (lines_isLine h').start with h0 | hb
  · omega
  · rw [ht, Nat.add_sub_cancel] at hb
    exact hb

theorem splitOn_window {k j s t : Nat} {body body' : List Char}
    (h : (lines src)[k]? = some (s, body)) (h' : (lines src)[j]? = some (t, body')) (hkj : k ≤ j) :
    Text.splitOn '\n' (src.window s (t + body'.length)) =
      (((lines src).drop k).take (j + 1 - k)).map (·.2) := by
  obtain ⟨hlt, hk⟩ := List.getElem?_eq_some_iff.mp h
  have hline := lines_isLine h
  rw [List.drop_eq_getElem_cons hlt, hk]
  rcases Nat.eq_or_lt_of_le hkj with rfl | hkj
  · rw [h, Option.some.injEq, Prod.mk.injEq] at h'
    obtain ⟨rfl, rfl⟩ := h'
    rw [hline.hasAt.window_eq, Text.splitOn_single hline.noBreak, Nat.add_sub_cancel_left]
    rfl
  · obtain ⟨next, hnext⟩ : ∃ next, (lines src)[k + 1]? = some next := by
      have := (List.getElem?_eq_some_iff.mp h').1
      exact ⟨_, List.getElem?_eq_getElem (show k + 1 < (lines src).length by omega)⟩
    obtain ⟨u, v⟩ := next
    have hu := lines_succ h hnext
    have hle : u ≤ t + body'.length := by
      rcases Nat.eq_or_lt_of_le hkj with hj | hj
      · rw [← hj, hnext, Option.some.injEq, Prod.mk.injEq] at h'
        omega
      · have := lines_lt hnext h' hj
        omega
    rw [← Source.window_append (Nat.le_add_right s body.length) (by omega), hline.hasAt.window_eq,
      Source.window_cons _ (break_of_next h hnext) (by omega), Text.splitOn_first hline.noBreak,
      ← hu, splitOn_window hnext h' hkj, show j + 1 - k = (j + 1 - (k + 1)) + 1 by omega]
    rfl
termination_by j - k

theorem getElem?_of_linesFrom {ls : List (List Char)} {pos : Nat}
    (h : (linesFrom pos ls)[k]? = some (s, body)) : ls[k]? = some body := by
  induction ls generalizing pos k with
  | nil => cases h
  | cons l ls ih =>
    cases k with
    | zero =>
      cases h
      rfl
    | succ k => exact ih h

theorem length_linesFrom (pos : Nat) (ls : List (List Char)) :
    (linesFrom pos ls).length = ls.length := by
  induction ls generalizing pos with
  | nil => rfl
  | cons l ls ih =>
    rw [linesFrom, List.length_cons, ih]
    rfl

theorem exists_line {o : Nat} (h : o ≤ src.size) :
    ∃ (k s : Nat) (body : List Char), (lines src)[k]? = some (s, body) ∧ s ≤ o ∧
      o ≤ s + body.length := by
  suffices ∀ (w : List Char) pos, pos ≤ o → o ≤ pos + w.length →
      ∃ (k s : Nat) (body : List Char),
        (linesFrom pos (Text.splitOn '\n' w))[k]? = some (s, body) ∧ s ≤ o ∧
          o ≤ s + body.length from
    this src.toList 0 (Nat.zero_le o) (by simpa using h)
  intro w
  induction w using Text.split_induction '\n' with
  | single w hno =>
    intro pos hpos ho
    exact ⟨0, pos, w, by rw [linesFrom_single hno]; rfl, hpos, ho⟩
  | first u v hu ih =>
    intro pos hpos ho
    rw [List.length_append, List.length_cons] at ho
    by_cases hle : o ≤ pos + u.length
    · exact ⟨0, pos, u, by rw [linesFrom_first hu]; rfl, hpos, hle⟩
    · obtain ⟨k, s, body, hk, hs⟩ := ih (pos + u.length + 1) (by omega) (by omega)
      exact ⟨k + 1, s, body, by rw [linesFrom_first hu]; exact hk, hs⟩

theorem exists_last (src : Source) : ∃ k s body, (lines src)[k]? = some (s, body) ∧
    (lines src).length = k + 1 ∧ s + body.length = src.size := by
  obtain ⟨body, h0⟩ := linesFrom_zero 0 src.toList
  have hpos : 0 < (lines src).length := (List.getElem?_eq_some_iff.mp h0).1
  have hlast := List.getElem?_eq_getElem (Nat.sub_lt hpos Nat.one_pos)
  refine ⟨(lines src).length - 1, _, _, hlast, by omega, ?_⟩
  rcases (lines_isLine hlast).stop with hb | hs
  · obtain ⟨_, hnext⟩ := lines_next hlast hb
    have := (List.getElem?_eq_some_iff.mp hnext).1
    omega
  · exact hs

theorem splitOn_rest {k s : Nat} {body : List Char} (h : (lines src)[k]? = some (s, body)) :
    Text.splitOn '\n' (src.window s src.size) = ((lines src).drop k).map (·.2) := by
  obtain ⟨j, t, body', hlast, hlen, hsize⟩ := exists_last src
  have hk := (List.getElem?_eq_some_iff.mp h).1
  have hall : ((lines src).drop k).take (j + 1 - k) = (lines src).drop k := by
    refine List.take_of_length_le ?_
    rw [List.length_drop]
    omega
  rw [← hsize, splitOn_window h hlast (by omega), hall]

end Anchor

/-! ### The table of lines -/

namespace Block.Line

variable {src : Source} {k s : Nat} {body : List Char}

/-- The line that holds `body`, as it stands in the table. -/
def ofBody (s : Nat) (body : List Char) : Line :=
  let lead := body.takeWhile Text.isSpace
  ⟨s, s + body.length, lead.length, columns 0 0 lead, 0⟩

theorem takeWhile_of_all {p : Char → Bool} {w : List Char} (h : ∀ c ∈ w, p c = true) :
    w.takeWhile p = w ∧ w.dropWhile p = [] := by
  have htake := @List.takeWhile_append_of_pos _ p w [] h
  have hdrop := @List.dropWhile_append_of_pos _ p w [] h
  simp only [List.append_nil, List.takeWhile_nil, List.dropWhile_nil] at htake hdrop
  exact ⟨htake, hdrop⟩

theorem ne_break {u : List Char} (h : '\n' ∉ u) : ∀ c ∈ u, (c != '\n') = true := by
  intro c hc
  rw [bne_iff_ne]
  rintro rfl
  exact h hc

theorem tableFrom_single {w : List Char} (h : '\n' ∉ w) (pos : Nat) :
    tableFrom pos w = if w.all Text.isSpace then [] else [ofBody pos w] := by
  obtain ⟨htake, hdrop⟩ := takeWhile_of_all (ne_break h)
  rw [tableFrom]
  by_cases hw : w.isEmpty
  · rw [if_pos hw, if_pos (by rw [List.isEmpty_iff.mp hw]; rfl)]
  · rw [if_neg hw]
    split
    · rw [htake]
      by_cases hall : w.all Text.isSpace
      · rw [if_pos hall, if_pos (by rw [(takeWhile_of_all (List.all_eq_true.mp hall)).1])]
      · rw [if_neg hall, if_neg]
        · rfl
        · intro hlen
          have := List.IsPrefix.eq_of_length (List.takeWhile_prefix Text.isSpace) hlen
          rw [← this, List.all_takeWhile] at hall
          exact hall rfl
    · next hd =>
      rw [hdrop] at hd
      cases hd

theorem tableFrom_first {u : List Char} (h : '\n' ∉ u) (v : List Char) (pos : Nat) :
    tableFrom pos (u ++ '\n' :: v) = ofBody pos u :: tableFrom (pos + u.length + 1) v := by
  have htake := @List.takeWhile_append_of_pos _ (· != '\n') u ('\n' :: v) (ne_break h)
  have hdrop := @List.dropWhile_append_of_pos _ (· != '\n') u ('\n' :: v) (ne_break h)
  rw [List.takeWhile_cons_of_neg (by simp), List.append_nil] at htake
  rw [List.dropWhile_cons_of_neg (by simp)] at hdrop
  rw [tableFrom, if_neg (by simp)]
  split
  · next hd =>
    rw [hdrop] at hd
    cases hd
  · next hd =>
    rw [hdrop] at hd
    rw [htake, (List.cons.inj hd).2]
    rfl

/-- The table lists the lines, but for a last one without text. -/
theorem tableFrom_eq (w : List Char) (pos : Nat) :
    ∃ ls rest, Anchor.linesFrom pos (Text.splitOn '\n' w) = ls ++ rest ∧
      tableFrom pos w = ls.map (fun l => ofBody l.1 l.2) ∧
      (rest = [] ∨ ∃ s body, rest = [(s, body)] ∧ body.all Text.isSpace = true) := by
  induction w using Text.split_induction '\n' generalizing pos with
  | single w hno =>
    rw [Anchor.linesFrom_single hno, tableFrom_single hno]
    by_cases hall : w.all Text.isSpace
    · exact ⟨[], [(pos, w)], rfl, if_pos hall, .inr ⟨pos, w, rfl, hall⟩⟩
    · exact ⟨[(pos, w)], [], rfl, if_neg hall, .inl rfl⟩
  | first u v hno ih =>
    obtain ⟨ls, rest, hls, htable, hrest⟩ := ih (pos + u.length + 1)
    refine ⟨(pos, u) :: ls, rest, ?_, ?_, hrest⟩
    · rw [Anchor.linesFrom_first hno, hls, List.cons_append]
    · rw [tableFrom_first hno, htable, List.map_cons]

/-- **The table of lines lists the same lines**, as they are. -/
theorem table_getElem? {l : Line} (h : (table src)[k]? = some l) :
    ∃ s body, (Anchor.lines src)[k]? = some (s, body) ∧ l = ofBody s body := by
  obtain ⟨ls, rest, hls, htable, -⟩ := tableFrom_eq src.toList 0
  rw [table, List.getElem?_toArray, htable, List.getElem?_map, Option.map_eq_some_iff] at h
  obtain ⟨⟨s, body⟩, hk, rfl⟩ := h
  refine ⟨s, body, ?_, rfl⟩
  obtain ⟨hlt, -⟩ := List.getElem?_eq_some_iff.mp hk
  rw [Anchor.lines, hls, List.getElem?_append_left hlt, hk]

theorem lt_size_table (h : (Anchor.lines src)[k]? = some (s, body)) :
    k < (table src).size ∨ (Anchor.lines src).length = k + 1 ∧ body.all Text.isSpace = true := by
  obtain ⟨ls, rest, hls, htable, hrest⟩ := tableFrom_eq src.toList 0
  rw [table, List.size_toArray, htable, List.length_map, Anchor.lines, hls]
  rw [Anchor.lines, hls] at h
  by_cases hk : k < ls.length
  · exact .inl hk
  · rw [List.getElem?_append_right (Nat.le_of_not_lt hk)] at h
    rcases hrest with rfl | ⟨s', body', rfl, hall⟩
    · cases h
    · obtain ⟨hlt, he⟩ := List.getElem?_eq_some_iff.mp h
      rw [List.length_singleton] at hlt
      have hk' : k = ls.length := by omega
      subst hk'
      simp only [Nat.sub_self, List.getElem_cons_zero, Prod.mk.injEq] at he
      exact .inr ⟨by simp, he.2 ▸ hall⟩

end Block.Line

end MdxProse
