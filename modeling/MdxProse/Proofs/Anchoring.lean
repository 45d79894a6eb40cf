import MdxProse.Proofs.RunningText

/-!
# Where running text is located

An offset of a running text is on one of its parts, and each part is looked up on one line of the
document.

* `Anchor.column_spec`: a part that occurs on its line is found there.  A part that does not is
  taken to start where the line does (`column_of_not_isInfix`).
* `Anchor.OnLine`: the part and the line to which an offset belongs.  `Running.exists_onLine`: every
  offset of a running text belongs to some.
* `OnLine.locate_eq`: **the place of an offset**, told by its part and its line.
* `OnLine.hasAt_of_isInfix`: **a text of one line is located on itself if its part occurs on the
  line.**  `OnLine.locate_iff`: otherwise what is expected there may hold by chance.
-/

namespace MdxProse

namespace Text

variable {needle w : List Char}

/-- **A text that occurs in another is found there.** -/
theorem indexOf?_eq_some (h : needle <:+: w) :
    ∃ i, indexOf? needle w = some i ∧ needle <+: w.drop i := by
  induction w with
  | nil =>
    cases List.infix_nil.mp h
    exact ⟨0, rfl, List.nil_prefix⟩
  | cons c w ih =>
    rw [indexOf?]
    by_cases hp : needle <+: c :: w
    · rw [if_pos (List.isPrefixOf_iff_prefix.mpr hp)]
      exact ⟨0, rfl, hp⟩
    · rw [if_neg (by rwa [List.isPrefixOf_iff_prefix])]
      obtain ⟨i, hi, hpre⟩ := ih ((List.infix_cons_iff.mp h).resolve_left hp)
      exact ⟨i + 1, by rw [hi]; rfl, hpre⟩

theorem indexOf?_eq_none (h : ¬ needle <:+: w) : indexOf? needle w = none := by
  induction w with
  | nil =>
    rw [indexOf?, if_neg]
    rw [List.isEmpty_iff]
    rintro rfl
    exact h List.nil_infix
  | cons c w ih =>
    rw [List.infix_cons_iff, not_or] at h
    rw [indexOf?, if_neg (by rw [List.isPrefixOf_iff_prefix]; exact h.1), ih h.2]
    rfl

end Text

namespace Anchor

variable {src content : Source} {part line : List Char}

/-! ### Columns -/

/-- **A part that occurs on its line is found there.** -/
theorem column_spec (h : part <:+: line) : part <+: line.drop (column line part) := by
  rw [column]
  split
  · next hs =>
    obtain ⟨u, rfl⟩ := List.isSuffixOf_iff_suffix.mp hs
    have hdrop : (u ++ part).drop ((u ++ part).length - part.length) = part := by
      rw [List.length_append, Nat.add_sub_cancel, List.drop_left]
    exact ⟨[], (List.append_nil part).trans hdrop.symm⟩
  · obtain ⟨i, hi, hp⟩ := Text.indexOf?_eq_some h
    rw [hi]
    exact hp

/-- A part that does not occur on its line is taken to start where the line does. -/
theorem column_of_not_isInfix (h : ¬ part <:+: line) : column line part = 0 := by
  rw [column, if_neg, Text.indexOf?_eq_none h]
  · rfl
  · rw [List.isSuffixOf_iff_suffix]
    exact fun hs => h hs.isInfix

theorem column_add_le (h : part <:+: line) : column line part + part.length ≤ line.length := by
  by_cases hnil : part = []
  · subst hnil
    rw [column, if_pos (List.isSuffixOf_iff_suffix.mpr List.nil_suffix)]
    exact Nat.le_refl _
  · have hlen := (column_spec h).length_le
    have hpos := List.length_pos_iff.mpr hnil
    rw [List.length_drop] at hlen
    omega

/-! ### Anchors -/

/-- The text that a part is looked up on, if the line of the document is `body`: from the last line
a blank end is cut off. -/
def target (last : Bool) (body : List Char) : List Char :=
  if last then Text.trimEnd Text.isBlank body else body

theorem target_isPrefix (last : Bool) (body : List Char) : target last body <+: body := by
  rw [target]
  split
  · exact Text.trimEnd_isPrefix _ _
  · exact List.prefix_refl body

theorem pair_getElem? {parts : List (List Char)} {ls : List (Nat × List Char)} {inner o j s : Nat}
    {body : List Char} (hp : (linesFrom inner parts)[j]? = some (o, part))
    (hl : ls[j]? = some (s, body)) :
    (pair inner parts ls)[j]? =
      some ⟨o, s + column (target (j + 1 = parts.length) body) part⟩ := by
  induction parts generalizing inner ls j with
  | nil => cases hp
  | cons q qs ih =>
    cases ls with
    | nil => cases hl
    | cons l ls =>
      cases j with
      | zero =>
        cases hp
        cases hl
        cases qs <;> rfl
      | succ j =>
        have := ih hp hl
        simpa [pair] using this

theorem pair_inner {parts : List (List Char)} {ls : List (Nat × List Char)} {inner j : Nat}
    {a : Anchor} (h : (pair inner parts ls)[j]? = some a) :
    ∃ part, (linesFrom inner parts)[j]? = some (a.inner, part) := by
  induction parts generalizing inner ls j with
  | nil => cases h
  | cons q qs ih =>
    cases ls with
    | nil => cases h
    | cons l ls =>
      cases j with
      | zero =>
        cases h
        exact ⟨q, rfl⟩
      | succ j => exact ih h

/-! ### Places -/

/-- An offset is located by the last anchor that is not after it. -/
theorem locate_eq {anchors : List Anchor} {a : Anchor} {j o : Nat} (ha : anchors[j]? = some a)
    (hle : ∀ k b, k ≤ j → anchors[k]? = some b → b.inner ≤ o)
    (hlt : ∀ b, anchors[j + 1]? = some b → o < b.inner) :
    locate anchors o = a.outer + o - a.inner := by
  obtain ⟨hj, -⟩ := List.getElem?_eq_some_iff.mp ha
  have htake : anchors.takeWhile (·.inner ≤ o) = anchors.take (j + 1) :=
    takeWhile_eq_take (fun k b hk hb => decide_eq_true (hle k b (Nat.le_of_lt_succ hk) hb))
      fun b hb => decide_eq_false (Nat.not_le.mpr (hlt b hb))
  have hlast : (anchors.take (j + 1)).getLast? = some a := by
    rw [List.getLast?_take, if_neg (Nat.succ_ne_zero j), Nat.add_sub_cancel, ha]
    rfl
  rw [locate, htake, hlast]

/-! ### The line of an offset -/

/-- The offset `o` of the running text `content`, which comes from the lines from `first` on, is
that of the character `a` of its part `part`; this is looked up on `line`, which starts at `start`
in the document. -/
def OnLine (src content : Source) (first o a : Nat) (part : List Char) (start : Nat)
    (line : List Char) : Prop :=
  ∃ j inner body, (lines content)[j]? = some (inner, part) ∧ o = inner + a ∧ a ≤ part.length ∧
    (lines src)[first + j]? = some (start, body) ∧
    line = target (j + 1 = (Text.splitOn '\n' content.toList).length) body

namespace OnLine

variable {first o a start : Nat}

/-- **The place of an offset.** -/
theorem locate_eq (h : OnLine src content first o a part start line) :
    locate (ofText (lines src) content.toList first) o = start + column line part + a := by
  obtain ⟨j, inner, body, hpart, rfl, ha, hline, rfl⟩ := h
  have hdrop : ((lines src).drop first)[j]? = some (start, body) := by
    rw [List.getElem?_drop, hline]
  have hanchor := pair_getElem? hpart hdrop
  have := Anchor.locate_eq (o := inner + a) hanchor ?_ ?_
  · rw [ofText, this]
    dsimp only
    omega
  · intro k b hk hb
    obtain ⟨part', hb⟩ := pair_inner hb
    have hb : (lines content)[k]? = some (b.inner, part') := hb
    rcases Nat.eq_or_lt_of_le hk with rfl | hlt
    · rw [hb] at hpart
      cases hpart
      exact Nat.le_add_right _ _
    · have := lines_lt hb hpart hlt
      omega
  · intro b hb
    obtain ⟨part', hb⟩ := pair_inner hb
    have hb : (lines content)[j + 1]? = some (b.inner, part') := hb
    have := lines_succ hpart hb
    omega

theorem le_length (h : OnLine src content first o a part start line) : a ≤ part.length := by
  obtain ⟨_, _, _, _, _, ha, _⟩ := h
  exact ha

theorem add {d : Nat} (h : OnLine src content first o a part start line)
    (hd : a + d ≤ part.length) : OnLine src content first (o + d) (a + d) part start line := by
  obtain ⟨j, inner, body, hpart, rfl, -, hrest⟩ := h
  exact ⟨j, inner, body, hpart, Nat.add_assoc _ _ _, hd, hrest⟩

theorem prefix_of_hasAt {w : List Char} (h : OnLine src content first o a part start line)
    (hw : content.HasAt o w) (hno : '\n' ∉ w) : w <+: part.drop a := by
  obtain ⟨j, inner, body, hpart, rfl, ha, -⟩ := h
  have hl := lines_isLine hpart
  have hlen : w.length ≤ (part.drop a).length := by
    refine Nat.le_of_not_lt fun hlt => ?_
    rw [List.length_drop] at hlt
    -- the line break after the part, or the end of the text, would be in the middle of the text
    have hget := hw.getElem? hlt
    rw [show inner + a + (part.length - a) = inner + part.length by omega,
      List.getElem?_eq_getElem hlt] at hget
    rcases hl.stop with hb | hs
    · rw [hb] at hget
      exact hno (Option.some.inj hget ▸ List.getElem_mem hlt)
    · rw [Array.getElem?_eq_none (Nat.le_of_eq hs.symm)] at hget
      cases hget
  exact List.prefix_of_prefix_length_le hw (hl.hasAt.drop a) hlen

theorem hasAt_column (h : OnLine src content first o a part start line) (hin : part <:+: line) :
    src.HasAt (start + column line part + a) (part.drop a) := by
  obtain ⟨j, inner, body, hpart, rfl, ha, hline, rfl⟩ := h
  have hat := (lines_isLine hline).hasAt.of_isPrefix
    (target_isPrefix (j + 1 = (Text.splitOn '\n' content.toList).length) body)
  exact ((hat.drop _).of_isPrefix (column_spec hin)).drop a

/-- A text of one line stands where it is located if its part occurs on the line. -/
theorem hasAt_of_isInfix {w : List Char} (h : OnLine src content first o a part start line)
    (hw : content.HasAt o w) (hno : '\n' ∉ w) (hin : part <:+: line) :
    src.HasAt (start + column line part + a) w :=
  (h.hasAt_column hin).of_isPrefix (h.prefix_of_hasAt hw hno)

/-- **What holds where a text of one line stands holds where it is located exactly if its part
occurs on the line**, or it happens to hold as far from the start of the line as the text is from
that of the part. -/
theorem locate_iff {w : List Char} {P : Nat → Prop}
    (h : OnLine src content first o a part start line) (hw : content.HasAt o w) (hno : '\n' ∉ w)
    (hP : ∀ pos, src.HasAt pos w → P pos) :
    P (locate (ofText (lines src) content.toList first) o) ↔ part <:+: line ∨ P (start + a) := by
  rw [h.locate_eq]
  by_cases hin : part <:+: line
  · simp only [hin, true_or, iff_true]
    exact hP _ (h.hasAt_of_isInfix hw hno hin)
  · rw [column_of_not_isInfix hin]
    simp [hin]

end OnLine

end Anchor

/-- **Every offset of a running text belongs to a part and a line.** -/
theorem Running.exists_onLine {src content : Source} {first o : Nat}
    (h : Running src content.toList first) (ho : o ≤ content.size) :
    ∃ a part start line, Anchor.OnLine src content first o a part start line := by
  obtain ⟨j, inner, part, hpart, hle, hlt⟩ := Anchor.exists_line ho
  obtain ⟨start, body, hline⟩ := h.exists_line (List.getElem?_eq_some_iff.mp hpart).1
  exact ⟨o - inner, part, start, _, j, inner, body, hpart, by omega, by omega, hline, rfl⟩

end MdxProse
