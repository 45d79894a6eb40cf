import MdxProse.Proofs.QuotedText
import MdxProse.Proofs.WrappedText

/-!
# The lines inside a quote

In a quoted text, all lines belong to one quote.  Inside it, the lines are those of the text.

* `Quote.read_all`: a quote of which each line has a mark takes in all lines.
* `Quoting.exists_inside`: **a quoted text is one quote.**
* `Quoting.inside_alike`: **the region inside the quote is alike to that of the text.**
  `Quoting.endsAlike`: reading ends at the same place in both.
-/

namespace MdxProse.Block

/-! ### Quotes with a mark on each line -/

section Gather

variable {r : Region} {i past : Nat}

/-- The line is marked as a line of a quote. -/
structure Region.IsQuoted (r : Region) (i : Nat) : Prop where
  isEmpty : r.isEmpty i = false
  starts : Quote.starts r i = true
  indent : r.indent ≤ (r.line i).indent

theorem Region.IsQuoted.setLine {k : Nat} {l : Line} (h : r.IsQuoted k) (hne : i ≠ k) :
    (r.setLine i l).IsQuoted k := by
  have hline : (r.setLine i l).line k = r.line k := by
    rw [Region.line_setLine, if_neg fun hc => hne hc.1]
  refine ⟨?_, ?_, ?_⟩
  · rw [Region.isEmpty, hline]
    exact h.isEmpty
  · rw [Quote.starts, Region.lineText, hline]
    exact h.starts
  · rw [hline]
    exact h.indent

/-- The region `r'` shows the lines of `r` from `i` to just before `past` without their marks, and
all other lines as they are. -/
structure Quote.Shows (r r' : Region) (i past : Nat) : Prop where
  src : r'.src = r.src
  height : r'.height = r.height
  listIndent : r'.listIndent = r.listIndent
  size : r'.lines.size = r.lines.size
  line : ∀ k, i ≤ k → k < past → r'.line k = inner r (r.line k)
  line_off : ∀ k, k < i ∨ past ≤ k → r'.line k = r.line k

theorem Quote.Shows.cons {r' : Region} (hlt : i < past) (hsize : past ≤ r.lines.size)
    (h : Shows (r.setLine i (inner r (r.line i))) r' (i + 1) past) : Shows r r' i past := by
  have hother {k : Nat} (hne : i ≠ k) :
      (r.setLine i (inner r (r.line i))).line k = r.line k := by
    rw [Region.line_setLine, if_neg fun hc => hne hc.1]
  refine ⟨h.src, h.height, h.listIndent, ?_, fun k hk hkp => ?_, fun k hk => ?_⟩
  · rw [h.size, Region.setLine, Array.size_setIfInBounds]
  · rcases Nat.eq_or_lt_of_le hk with rfl | hk
    · rw [h.line_off i (.inl (Nat.lt_succ_self i)),
        Region.line_setLine_self (Nat.lt_of_lt_of_le hlt hsize)]
    · rw [h.line k hk hkp, hother (Nat.ne_of_lt hk)]
      rfl
  · rw [h.line_off k (by omega), hother (by omega)]

/-- **Marked lines are all taken in**, each without its mark. -/
theorem Quote.gather_all (hi : i ≤ past) (hsize : past ≤ r.lines.size)
    (h : ∀ k, i ≤ k → k < past → r.IsQuoted k) (afterEmpty : Bool) :
    ∃ r', gather r past afterEmpty i = (r', past) ∧ Shows r r' i past := by
  induction hi using Nat.decreasingInduction generalizing r afterEmpty with
  | self =>
    refine ⟨r, ?_, rfl, rfl, rfl, rfl, fun k hk hkp => ?_, fun k _ => rfl⟩
    · rw [gather, if_neg (Nat.lt_irrefl past)]
    · omega
  | of_succ i hlt ih =>
    have hfirst := h i (Nat.le_refl i) hlt
    have hempty : (r.line i).isEmpty = false := hfirst.isEmpty
    have hmarked : (starts r i && decide (r.indent ≤ (r.line i).indent)) = true := by
      rw [hfirst.starts, decide_eq_true hfirst.indent]
      rfl
    obtain ⟨r', hgather, hshows⟩ := @ih (r.setLine i (inner r (r.line i)))
      (by simpa [Region.setLine] using hsize)
      (fun k hk hkp => (h k (Nat.le_of_succ_le hk) hkp).setLine (Nat.ne_of_lt hk))
      (inner r (r.line i)).isEmpty
    refine ⟨r', ?_, hshows.cons hlt hsize⟩
    rw [gather, if_pos hlt]
    dsimp only
    rw [hempty, if_neg Bool.false_ne_true, if_pos hmarked, hgather]

/-- **A quote of marked lines** is read in a region that shows them without their marks. -/
theorem Quote.read_all (hi : i < past) (hsize : past ≤ r.lines.size)
    (h : ∀ k, i ≤ k → k < past → r.IsQuoted k) : ∃ r', Shows r r' i past ∧
      ∀ content : Reader, read content r i past =
        content { r' with indent := 0, isTop := false } i past >>= fun c =>
          .ok ⟨Event.around .blockquote (some ⟨i, c.next⟩) c.events, c.definitions, c.next⟩ := by
  have hrest (k : Nat) (hk : i + 1 ≤ k) (hkp : k < past) :
      (r.setLine i (inner r (r.line i))).IsQuoted k :=
    (h k (Nat.le_of_succ_le hk) hkp).setLine (Nat.ne_of_lt hk)
  obtain ⟨r', hgather, hshows⟩ := gather_all hi (by simpa [Region.setLine] using hsize) hrest
    (inner r (r.line i)).isEmpty
  refine ⟨r', hshows.cons hi hsize, fun content => ?_⟩
  rw [read, hgather]
  rfl

end Gather

/-! ### The quoted text -/

namespace Quoting

open Text

variable {w : List Char} {i s : Nat} {body : List Char}

/-- The region of the quoted text. -/
def region (w : List Char) : Region :=
  .ofSource (inQuote w).toArray

theorem line (h : (Anchor.lines w.toArray)[i]? = some (s, body)) :
    (region w).Holds i (carry 2 w s) ('>' :: ' ' :: body) := by
  have hno : '\n' ∉ quoteMark := by decide
  obtain ⟨-, -, hget⟩ := Anchor.linesFrom_markLines hno h 0
  rw [Nat.zero_add, Nat.sub_zero] at hget
  have hget : (Anchor.lines (inQuote w).toArray)[i]? =
      some (carry 2 w s, '>' :: ' ' :: body) := hget
  have hlt : i < (region w).height := (Line.lt_size_table hget).resolve_right fun hblank => by
    cases hblank.2
  obtain ⟨t, body', hget', hline⟩ := Region.line_ofSource (inQuote w).toArray hlt
  cases hget.symm.trans hget'
  refine ⟨?_, (Anchor.lines_isLine hget).hasAt⟩
  exact hline.trans (Line.ofBody_of_head rfl _ _)

theorem length_lines (w : List Char) : (Anchor.lines w.toArray).length = w.count '\n' + 1 := by
  rw [Anchor.lines, Anchor.length_linesFrom, length_splitOn]

theorem exists_line (w : List Char) (hi : i < w.count '\n' + 1) :
    ∃ s body, (Anchor.lines w.toArray)[i]? = some (s, body) :=
  ⟨_, _, List.getElem?_eq_getElem (length_lines w ▸ hi)⟩

/-- All lines of the quoted text hold text, if only the mark. -/
theorem height (w : List Char) : (region w).height = w.count '\n' + 1 := by
  have hlen : (Anchor.lines (inQuote w).toArray).length = w.count '\n' + 1 :=
    (length_lines _).trans (congrArg (· + 1) (count_markLines (by decide) w))
  refine Nat.le_antisymm (hlen ▸ Region.height_le _) (Nat.le_of_not_lt fun hlt => ?_)
  obtain ⟨s, body, hget⟩ := exists_line w hlt
  have hempty := (line hget).isEmpty
  have hnone : (region w).lines[(region w).height]? = none :=
    Array.getElem?_eq_none_iff.mpr (Nat.le_refl _)
  rw [Region.isEmpty, Region.line, hnone] at hempty
  simp [Line.atEnd, Line.isEmpty, Line.start] at hempty

theorem isQuoted (hi : i < (region w).height) : (region w).IsQuoted i := by
  obtain ⟨s, body, hget⟩ := exists_line w (height w ▸ hi)
  have hline := line hget
  refine ⟨hline.isEmpty, ?_, ?_⟩
  · rw [Quote.starts, hline.lineText]
    rfl
  · rw [hline.indent]
    exact Int.le_refl 0

/-- **A quoted text is one quote**, read in a region that shows its lines without the marks. -/
theorem exists_inside (w : List Char) : ∃ r', Quote.Shows (region w) r' 0 (region w).height ∧
    ∀ one two : Reader, readBlock one two (region w) 0 (region w).height =
      one { r' with indent := 0, isTop := false } 0 (region w).height >>= fun c =>
        .ok ⟨Event.around .blockquote (some ⟨0, c.next⟩) c.events, c.definitions, c.next⟩ := by
  have hpos : 0 < (region w).height := height w ▸ Nat.succ_pos _
  obtain ⟨s, body, hget⟩ := exists_line w (Nat.succ_pos _)
  have hline := line hget
  obtain ⟨r', hshows, hread⟩ := Quote.read_all hpos (Nat.le_refl _) fun k _ hk => isQuoted hk
  refine ⟨r', hshows, fun one two => ?_⟩
  have hdash : (region w).src.has '-' 0 = false := by
    rw [Source.has, Source.test, region, Region.ofSource, List.getElem?_toArray, inQuote_eq]
    rfl
  have hesm : Esm.starts (region w) 0 = false := by
    rw [Esm.starts, hline.lineText]
    simp [Esm.isStatement]
  rw [← hread]
  simp [readBlock, FrontMatter.read?, hdash, hline.mathBlock (by decide), Esm.read?, hesm,
    FlowExpression.read?, hline.flowExpression (by decide), hline.shape? (by decide), Fence.read?,
    hline.fence (by decide) (by decide), (isQuoted hpos).starts]

/-! ### The lines inside the quote -/

theorem quotedAt_line (hget : (Anchor.lines w.toArray)[i]? = some (s, body)) :
    quotedAt w (s + body.length) = quotedAt w s + body.length := by
  have hisLine := Anchor.lines_isLine hget
  obtain ⟨x, hx⟩ := hisLine.hasAt
  have hx : body ++ x = w.drop s := hx
  refine quotedAt_add_of_notMem ?_ ?_
  · rw [← hx, List.length_append]
    exact Nat.le_add_right _ _
  · rw [← hx, List.take_left]
    exact hisLine.noBreak

/-- **Without its mark, a line is the line of the text.** -/
theorem inner_line (htab : '\t' ∉ w) (hget : (Anchor.lines w.toArray)[i]? = some (s, body)) :
    let l := Quote.inner (region w) ((region w).line i)
    l.first = quotedAt w s ∧ l.stop = quotedAt w (s + body.length) ∧
      l.shift = (body.takeWhile Text.isSpace).length ∧
      l.indent = (body.takeWhile Text.isSpace).length := by
  have hline := line hget
  obtain ⟨hfirst, hshift, hindent⟩ :=
    Quote.inner_eq (r := region w) (l := (region w).line i) rfl fun p hc => by
      have hc : (inQuote w).toArray[p]? = some '\t' := hc
      rw [List.getElem?_toArray] at hc
      exact notMem_inQuote (by decide) htab (List.mem_of_getElem? hc)
  have hspace : (region w).src.has ' ' (((region w).line i).start + 1) = true := by
    have hat := hline.hasAt.getElem? (i := 1) (by simp)
    rw [hline.start]
    exact Source.test_iff.mpr ⟨_, hat, rfl⟩
  have hstart : ((region w).line i).start + 1 + 1 = quotedAt w s := by
    rw [hline.start]
    rfl
  have hstop : ((region w).line i).stop = quotedAt w s + body.length := by
    rw [hline.stop, quotedAt]
    simp only [List.length_cons]
    omega
  have hbody : (region w).src.window (quotedAt w s) (quotedAt w s + body.length) = body :=
    (hline.hasAt.drop 2).window_eq
  have hsize : quotedAt w s + body.length ≤ (region w).src.size := by
    have hle := hline.hasAt.le_size (List.cons_ne_nil _ _)
    have hstop' := hline.stop
    omega
  have hlead := (List.takeWhile_prefix Text.isSpace (l := body)).length_le
  rw [if_pos hspace, hstart] at hfirst hshift hindent
  rw [hstop, Source.skipWhile, hbody] at hshift hindent
  refine ⟨hfirst, ?_, ?_, ?_⟩
  · exact hstop.trans (quotedAt_line hget).symm
  · rw [hshift, Nat.add_sub_cancel_left]
  · rw [hindent, Source.length_window]
    omega

theorem isEmpty_inner (htab : '\t' ∉ w) (hget : (Anchor.lines w.toArray)[i]? = some (s, body))
    (hblank : body.all Text.isSpace = true) :
    (Quote.inner (region w) ((region w).line i)).isEmpty = true := by
  obtain ⟨hfirst, hstop, hshift, -⟩ := inner_line htab hget
  rw [(Line.takeWhile_of_all (List.all_eq_true.mp hblank)).1] at hshift
  rw [Line.isEmpty, Line.start, hfirst, hstop, hshift, quotedAt_line hget]
  exact decide_eq_true (Nat.le_refl _)

theorem isEmpty_of_height_le {src : Source} (h : (Region.ofSource src).height ≤ i) :
    (Region.ofSource src).isEmpty i = true := by
  have hnone : (Region.ofSource src).lines[i]? = none := Array.getElem?_eq_none_iff.mpr h
  rw [Region.isEmpty, Region.line, hnone]
  exact decide_eq_true (Nat.le_refl _)

section Inside

variable {r' : Region} (hshows : Quote.Shows (region w) r' 0 (region w).height)

include hshows

/-- Where the text has no lines that hold text any more, all lines inside the quote are empty. -/
theorem isEmpty_below (htab : '\t' ∉ w) (h : (Region.ofSource w.toArray).height ≤ i) :
    r'.isEmpty i = true := by
  by_cases hi : i < (region w).height
  · obtain ⟨s, body, hget⟩ := exists_line w (height w ▸ hi)
    obtain ⟨-, hblank⟩ := Region.blank_of_height_le hget h
    rw [Region.isEmpty, hshows.line i (Nat.zero_le i) hi]
    exact isEmpty_inner htab hget hblank
  · rw [Region.isEmpty, hshows.line_off i (.inr (Nat.le_of_not_lt hi))]
    exact isEmpty_of_height_le (Nat.le_of_not_lt hi)

variable (htab : '\t' ∉ w) (hdash : w.head? ≠ some '-') (hkeeps : KeepsTags w)

/-- **The region inside the quote is alike to that of the text.** -/
theorem inside_alike : Region.Alike (quoting w htab hdash hkeeps) (.ofSource w.toArray)
    { r' with indent := 0, isTop := false } where
  sound := Region.sound_ofSource _
  src := hshows.src
  height := by
    show (Region.ofSource w.toArray).height ≤ r'.height
    rw [hshows.height, height, ← length_lines]
    exact Region.height_le w.toArray
  size := by
    show r'.height ≤ r'.lines.size
    rw [hshows.height, hshows.size]
    exact Nat.le_refl _
  line i _ hi := by
    obtain ⟨s, body, hget, hline⟩ := Region.line_ofSource w.toArray hi
    have hisLine := Anchor.lines_isLine hget
    have hlt : i < (region w).height := by
      rw [height, ← length_lines]
      exact (List.getElem?_eq_some_iff.mp hget).1
    obtain ⟨hfirst, hstop, hshift, hindent⟩ := inner_line htab hget
    have hline' : Region.line { r' with indent := 0, isTop := false } i =
        Quote.inner (region w) ((region w).line i) := hshows.line i (Nat.zero_le i) hlt
    rw [hline, hline']
    exact Line.alike_ofBody hisLine (Nat.zero_le s) hisLine.le_size hfirst hstop hshift
      (hindent.trans (Int.add_zero _).symm)
  indent := ⟨rfl, .inl rfl⟩
  listIndent := .inr ⟨rfl, hshows.listIndent⟩
  isEmpty_off i hi := by
    have hi := hi.resolve_left (Nat.not_lt_zero i)
    have hempty : r'.isEmpty i = true := isEmpty_below hshows htab hi
    exact hempty.trans (isEmpty_of_height_le hi).symm

/-- **Reading ends at the same place**: after the last line of text there are only empty lines. -/
theorem endsAlike : Region.EndsAlike (quoting w htab hdash hkeeps) (.ofSource w.toArray)
    { r' with indent := 0, isTop := false } (Region.ofSource w.toArray).height
    (region w).height where
  limit := by
    obtain ⟨k, s, body, hget, hlen, hend⟩ := Anchor.exists_last w.toArray
    obtain ⟨-, hstop, -, -⟩ := inner_line htab hget
    rw [length_lines, ← height] at hlen
    have hlast : (region w).height - 1 = k := by omega
    have hend : s + body.length = w.length := hend
    refine ⟨w.length, Nat.le_refl _, ?_, .inr ⟨Region.trails_ofSource _, rfl⟩⟩
    show (r'.line ((region w).height - 1)).stop = quotedAt w w.length
    rw [hlast, hshows.line _ (Nat.zero_le _) (by omega), hstop, hend]
  le := by
    have hle := (inside_alike hshows htab hdash hkeeps).height
    exact Nat.le_trans hle (Nat.le_of_eq hshows.height)
  below i hi _ := by
    have hempty : r'.isEmpty i = true := isEmpty_below hshows htab hi
    exact hempty

end Inside

end Quoting

end MdxProse.Block
