import MdxProse.Proofs.Alignment

/-!
# Where anchors are exact

The anchors of a running text are exact if each of its parts is what its line of the document ends
in, the last one but for blanks.  A line break of the text is then located on that of the document,
too, so that nothing of the text is moved against its neighbours.

* `Anchor.EndsLines`: what is asked of the text.
* `Anchor.exists_last_anchor`: the anchor that locates an offset is the last one not after it.
* `Anchor.OnLine.getElem?_locate`: **each offset is located on its own character.**
* `Anchor.OnLine.locate_lt`: **offsets in order are located in order**, no two of them on one place.
* `Anchor.EndsLines.window_eq`: a text of one line is located on itself.
* `anchors_exact`: all of it.
-/

namespace MdxProse

namespace Anchor

variable {src content : Source} {first o o' a a' j s e start start' : Nat}
  {part part' line line' : List Char}

/-- Each part of the running text ends the line of the document that it comes from, as far as parts
are looked up on it: of the last one, a blank end does not count. -/
def EndsLines (src content : Source) (first : Nat) : Prop :=
  ∀ j part, (Text.splitOn '\n' content.toList)[j]? = some part →
    ∃ start body, (lines src)[first + j]? = some (start, body) ∧
      part <:+ target (j + 1 = (Text.splitOn '\n' content.toList).length) body

instance (src content : Source) (first : Nat) : Decidable (EndsLines src content first) :=
  decidable_of_iff
    (∀ j, (hj : j < (Text.splitOn '\n' content.toList).length) →
      ((lines src)[first + j]?).any (fun l =>
        ((Text.splitOn '\n' content.toList)[j]).isSuffixOf
          (target (j + 1 = (Text.splitOn '\n' content.toList).length) l.2)) = true) <| by
    simp only [Option.any_eq_true, List.isSuffixOf_iff_suffix, Prod.exists]
    constructor
    · intro h j part hpart
      obtain ⟨hj, rfl⟩ := List.getElem?_eq_some_iff.mp hpart
      exact h j hj
    · intro h j hj
      exact h j _ (List.getElem?_eq_getElem hj)

/-! ### The anchor of an offset -/

theorem sorted_ofText (src content : Source) (first : Nat) :
    (ofText (lines src) content.toList first).Pairwise (·.inner < ·.inner) := by
  rw [List.pairwise_iff_getElem]
  intro j k hj hk hlt
  obtain ⟨part, hpart⟩ := pair_inner (List.getElem?_eq_getElem hj)
  obtain ⟨part', hpart'⟩ := pair_inner (List.getElem?_eq_getElem hk)
  have := lines_lt (k := j) hpart hpart' hlt
  omega

/-- Where an offset is: its part, and the line of the document that this part ends. -/
theorem EndsLines.exists_line (h : EndsLines src content first) (ho : o ≤ content.size) :
    ∃ j inner part start body, (lines content)[j]? = some (inner, part) ∧ inner ≤ o ∧
      o ≤ inner + part.length ∧ (lines src)[first + j]? = some (start, body) ∧
      part <:+ target (j + 1 = (Text.splitOn '\n' content.toList).length) body := by
  obtain ⟨j, inner, part, hpart, hle, hlt⟩ := Anchor.exists_line ho
  obtain ⟨start, body, hline, hsuffix⟩ := h j part (getElem?_of_linesFrom hpart)
  exact ⟨j, inner, part, start, body, hpart, hle, hlt, hline, hsuffix⟩

/-- **An offset is located by the last anchor that is not after it.** -/
theorem exists_last_anchor (h : EndsLines src content first) (ho : o ≤ content.size) :
    ∃ (j : Nat) (b : Anchor), (ofText (lines src) content.toList first)[j]? = some b ∧
      b.inner ≤ o ∧
      (∀ k b', j < k → (ofText (lines src) content.toList first)[k]? = some b' → o < b'.inner) ∧
      locate (ofText (lines src) content.toList first) o = b.outer + o - b.inner := by
  obtain ⟨j, inner, part, start, body, hpart, hle, hlt, hline, -⟩ := h.exists_line ho
  have hdrop : ((lines src).drop first)[j]? = some (start, body) := by
    rw [List.getElem?_drop, hline]
  refine ⟨j, _, pair_getElem? hpart hdrop, hle, ?_, ?_⟩
  · intro k b' hjk hb'
    obtain ⟨part', hpart'⟩ := pair_inner hb'
    have := lines_lt (k := j) hpart hpart' hjk
    omega
  · have hon : OnLine src content first o (o - inner) part start _ :=
      ⟨j, inner, body, hpart, by omega, by omega, hline, rfl⟩
    rw [hon.locate_eq]
    dsimp only
    omega

/-! ### Places -/

theorem EndsLines.exists_onLine (h : EndsLines src content first) (ho : o ≤ content.size) :
    ∃ a part start line, OnLine src content first o a part start line ∧ part <:+ line := by
  obtain ⟨j, inner, part, start, body, hpart, hle, hlt, hline, hsuffix⟩ := h.exists_line ho
  refine ⟨o - inner, part, start, _, ⟨j, inner, body, hpart, ?_, ?_, hline, rfl⟩, hsuffix⟩
  · omega
  · omega

theorem column_of_isSuffix (h : part <:+ line) :
    column line part = line.length - part.length := by
  rw [column, if_pos (List.isSuffixOf_iff_suffix.mpr h)]

namespace OnLine

theorem getElem?_eq (h : OnLine src content first o a part start line) (ho : o < content.size) :
    content[o]? = some (part[a]?.getD '\n') := by
  obtain ⟨j, inner, body, hpart, rfl, ha, -⟩ := h
  have hl := lines_isLine hpart
  rcases Nat.lt_or_eq_of_le ha with hlt | rfl
  · rw [hl.hasAt.getElem? hlt, List.getElem?_eq_getElem hlt, Option.getD_some]
  · rw [List.getElem?_eq_none (Nat.le_refl _), Option.getD_none]
    exact hl.stop.resolve_right (Nat.ne_of_lt ho)

/-- **An offset is located on its own character** if its part ends its line. -/
theorem getElem?_locate (hends : EndsLines src content first)
    (h : OnLine src content first o a part start line) (hs : part <:+ line)
    (ho : o < content.size) :
    src[locate (ofText (lines src) content.toList first) o]? = content[o]? := by
  rw [h.locate_eq, h.getElem?_eq ho]
  have hcol := column_of_isSuffix hs
  have hlen := hs.length_le
  rcases Nat.lt_or_eq_of_le h.le_length with hlt | rfl
  · have hat := h.hasAt_column hs.isInfix
    have hget := hat.getElem? (i := 0) (by rw [List.length_drop]; omega)
    rw [Nat.add_zero, List.getElem?_drop, Nat.add_zero] at hget
    rw [hget, List.getElem?_eq_getElem hlt, Option.getD_some]
  · rw [List.getElem?_eq_none (Nat.le_refl _), Option.getD_none]
    have hbreak := h.getElem?_eq ho
    rw [List.getElem?_eq_none (Nat.le_refl _), Option.getD_none] at hbreak
    obtain ⟨j, inner, body, hpart, rfl, -, hline, rfl⟩ := h
    -- the text goes on after the line break, so the part is not the last one
    obtain ⟨part', hnext⟩ := lines_next hpart hbreak
    have hnext' := getElem?_of_linesFrom hnext
    have hmore := (List.getElem?_eq_some_iff.mp hnext').1
    obtain ⟨start', body', hline', -⟩ := hends (j + 1) part' hnext'
    rw [target, if_neg (by simp; omega)] at hcol hlen ⊢
    rw [hcol, show start + (body.length - part.length) + part.length = start + body.length by omega]
    exact break_of_next hline hline'

theorem offset_eq (h : OnLine src content first o a part start line)
    (h' : OnLine src content first o' a' part' start line') : o + a' = o' + a := by
  obtain ⟨j, inner, body, hpart, rfl, -, hline, -⟩ := h
  obtain ⟨j', inner', body', hpart', rfl, -, hline', -⟩ := h'
  rcases Nat.lt_trichotomy j j' with hlt | rfl | hgt
  · have := lines_lt hline hline' (Nat.add_lt_add_left hlt first)
    omega
  · rw [hpart] at hpart'
    cases hpart'
    omega
  · have := lines_lt hline' hline (Nat.add_lt_add_left hgt first)
    omega

/-- **Offsets in order are located in order**, and not on one place, if the part of the first one
occurs on its line. -/
theorem locate_lt (h : OnLine src content first o a part start line)
    (h' : OnLine src content first o' a' part' start' line') (hlt : o < o')
    (hin : part <:+: line) :
    locate (ofText (lines src) content.toList first) o <
      locate (ofText (lines src) content.toList first) o' := by
  rw [h.locate_eq, h'.locate_eq]
  rcases h.same_or_before h' (Nat.le_of_lt hlt) with
    ⟨rfl, rfl, rfl, -⟩ | ⟨j, inner, body, -, -, hbody, hbefore⟩
  · have := h.offset_eq h'
    omega
  · have hcol := column_add_le hin
    have hlen := hbody.length_le
    have ha := h.le_length
    omega

end OnLine

theorem EndsLines.getElem?_locate (h : EndsLines src content first) (ho : o < content.size) :
    src[locate (ofText (lines src) content.toList first) o]? = content[o]? := by
  obtain ⟨a, part, start, line, hon, hs⟩ := h.exists_onLine (Nat.le_of_lt ho)
  exact hon.getElem?_locate h hs ho

theorem EndsLines.locate_lt (h : EndsLines src content first) (hlt : o < o')
    (ho' : o' < content.size) : locate (ofText (lines src) content.toList first) o <
      locate (ofText (lines src) content.toList first) o' := by
  obtain ⟨a, part, start, line, hon, hs⟩ := h.exists_onLine (o := o) (by omega)
  obtain ⟨a', part', start', line', hon', -⟩ := h.exists_onLine (Nat.le_of_lt ho')
  exact hon.locate_lt hon' hlt hs.isInfix

/-- **What stays on one line is located on itself.**  The line break at the end of the line counts
as a part of it. -/
theorem EndsLines.window_eq (h : EndsLines src content first) (hlt : s < e)
    (he : e ≤ content.size) (hno : '\n' ∉ content.window s (e - 1)) :
    src.window (locate (ofText (lines src) content.toList first) s)
        (locate (ofText (lines src) content.toList first) (e - 1) + 1) =
      content.window s e := by
  obtain ⟨a, part, start, line, hon, hs⟩ := h.exists_onLine (o := s) (by omega)
  have hlen := (hon.prefix_of_hasAt (content.hasAt_window s (e - 1)) hno).length_le
  rw [Source.length_window, List.length_drop] at hlen
  have ha := hon.le_length
  have hplace : ∀ d, s + d < e → locate (ofText (lines src) content.toList first) (s + d) =
      locate (ofText (lines src) content.toList first) s + d := by
    intro d hd
    rw [hon.locate_eq, (hon.add (d := d) (by omega)).locate_eq, Nat.add_assoc _ a d]
  obtain ⟨n, rfl⟩ := Nat.exists_eq_add_of_lt hlt
  rw [show s + n + 1 - 1 = s + n from rfl, hplace n (Nat.lt_succ_self _)]
  apply List.ext_getElem?
  intro i
  rw [Source.getElem?_window, Source.getElem?_window]
  by_cases hi : i < n + 1
  · rw [if_pos (by omega), if_pos (by omega), ← hplace i (by omega)]
    exact h.getElem?_locate (by omega)
  · rw [if_neg (by omega), if_neg (by omega)]

end Anchor

/-- **Anchors are exact where the parts of a text end their lines.**  They are in order; every
offset is located by the last of them that is not after it, on its own character, and offsets in
order on places in order.  So a span that is not empty is located on one that is not empty, and on
its own characters if it stays on one line. -/
theorem anchors_exact (src content : Source) (first : Nat) (anchors : List Anchor)
    (h : Anchor.EndsLines src content first)
    (hanchors : anchors = Anchor.ofText (Anchor.lines src) content.toList first) :
    anchors.Pairwise (·.inner < ·.inner) ∧
    (∀ o, o < content.size →
      (∃ (j : Nat) (b : Anchor), anchors[j]? = some b ∧ b.inner ≤ o ∧
        (∀ k b', j < k → anchors[k]? = some b' → o < b'.inner) ∧
        Anchor.locate anchors o = b.outer + o - b.inner) ∧
      src[Anchor.locate anchors o]? = content[o]?) ∧
    (∀ o o', o < o' → o' < content.size →
      Anchor.locate anchors o < Anchor.locate anchors o') ∧
    ∀ s e, s < e → e ≤ content.size →
      Anchor.locateSpan anchors ⟨s, e⟩ =
        ⟨Anchor.locate anchors s, Anchor.locate anchors (e - 1) + 1⟩ ∧
      (Anchor.locateSpan anchors ⟨s, e⟩).start < (Anchor.locateSpan anchors ⟨s, e⟩).stop ∧
      ('\n' ∉ content.window s (e - 1) →
        src.cover (Anchor.locateSpan anchors ⟨s, e⟩) = content.cover ⟨s, e⟩) := by
  subst hanchors
  refine ⟨Anchor.sorted_ofText src content first, ?_, ?_, ?_⟩
  · intro o ho
    exact ⟨Anchor.exists_last_anchor h (Nat.le_of_lt ho), h.getElem?_locate ho⟩
  · intro o o' hlt ho'
    exact h.locate_lt hlt ho'
  · intro s e hlt he
    refine ⟨rfl, ?_, ?_⟩
    · show Anchor.locate _ s < Anchor.locate _ (e - 1) + 1
      rcases Nat.lt_or_eq_of_le (Nat.le_sub_one_of_lt hlt) with hbefore | heq
      · exact Nat.lt_succ_of_lt (h.locate_lt hbefore (by omega))
      · rw [← heq]
        exact Nat.lt_succ_self _
    · intro hno
      exact congrArg String.ofList (h.window_eq hlt he hno)

/-- Two lines of a quote, the last of which ends in spaces that the text has lost: the break between
them and the expression after it are located on themselves. -/
theorem anchors_exact_quoted : ∃ (src content : Source) (anchors : List Anchor),
    src = Source.ofString "> a\n> b \x7bx\x7d  \n" ∧ content = Source.ofString "a\nb \x7bx\x7d" ∧
    anchors = Anchor.ofText (Anchor.lines src) content.toList 0 ∧
    Anchor.EndsLines src content 0 ∧ src[Anchor.locate anchors 1]? = some '\n' ∧
    Anchor.locateSpan anchors ⟨4, 7⟩ = ⟨8, 11⟩ ∧ src.cover ⟨8, 11⟩ = content.cover ⟨4, 7⟩ := by
  let src := Source.ofString "> a\n> b \x7bx\x7d  \n"
  let content := Source.ofString "a\nb \x7bx\x7d"
  let anchors := Anchor.ofText (Anchor.lines src) content.toList 0
  have hends : Anchor.EndsLines src content 0 := by decide +kernel
  have hspan : Anchor.locateSpan anchors ⟨4, 7⟩ = ⟨8, 11⟩ := by decide +kernel
  obtain ⟨-, hplaces, -, hspans⟩ := anchors_exact src content 0 anchors hends rfl
  have hbreak := (hplaces 1 (by decide +kernel)).2
  have hcover := (hspans 4 7 (by decide) (by decide +kernel)).2.2 (by decide +kernel)
  rw [hspan] at hcover
  have hbreak' : content[1]? = some '\n' := by decide +kernel
  exact ⟨src, content, anchors, rfl, rfl, rfl, hends, hbreak.trans hbreak', hspan, hcover⟩

end MdxProse
