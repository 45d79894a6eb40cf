import MdxProse.Block.Content
import MdxProse.Proofs.Lines

/-!
# Regions and the document

A region shows the lines of a document in part: containers take the front of a line, and a closing
tag may cut off the end of the last one.  `Line.Inside` says that a line of a region is a part of
one line of the document, and `Region.Sound` that all lines of the region are, each of the line with
the same number.

* `Region.sound_ofSource`: the region of a whole source is sound.
* `Region.Sound.setLine`, `Region.Sound.narrow`: what containers do to a region keeps it sound.
* `Quote.inside_inner`, `Items.inside_line`: the marks of containers stay out of the text.
* `Region.Sound.line_lt`: a line ends before the later ones start.
* `Region.lineReaching_spec`: the line on which an offset is.
-/

namespace MdxProse.Block

variable {src : Source} {r : Region} {i j k s : Nat} {body : List Char} {l : Line}

/-- A quote mark at the start of a line, or after a space or another quote mark. -/
def HasQuote (src : Source) : Prop :=
  ∃ i, src[i]? = some '>' ∧ (i = 0 ∨ ∃ c, src[i - 1]? = some c ∧ (Text.isGap c ∨ c = '>'))

/-! ### Lines of a region -/

/-- The line of a region is a part of the line of the source that starts at `s` and holds
`body`. -/
structure Line.Inside (src : Source) (s : Nat) (body : List Char) (l : Line) : Prop where
  first : s ≤ l.first
  start : l.start ≤ l.stop
  stop : l.stop ≤ s + body.length
  le_size : l.stop ≤ src.size
  /-- No tag starts before the text of the line. -/
  margin : ∀ i, s ≤ i → i < l.start → src[i]? ≠ some '<'
  /-- What comes right before the text: nothing, a gap, or a quote mark. -/
  before : l.start < l.stop →
    l.start = 0 ∨ ∃ c, src[l.start - 1]? = some c ∧ (Text.isGap c ∨ c = '>')
  /-- The text does not start with a space. -/
  text : src.test Text.isSpace l.start = false
  /-- The line does not end before a space. -/
  tail : src.test Text.isSpace l.stop = false
  indent : -1 ≤ l.indent
  /-- Only in quotes there are lines that just continue a paragraph. -/
  quoted : l.indent < 0 → HasQuote src

theorem Line.columns_ge (base n : Int) (w : List Char) : n + w.length ≤ columns base n w := by
  induction w generalizing n with
  | nil => simp [columns]
  | cons c w ih =>
    have := ih (advance base n c)
    have hadv : n + 1 ≤ advance base n c := by
      unfold advance
      split <;> omega
    have hcons : columns base n (c :: w) = columns base (advance base n c) w := rfl
    rw [hcons, List.length_cons]
    omega

theorem Line.le_columns (base n : Int) (w : List Char) : n ≤ columns base n w := by
  have := columns_ge base n w
  omega

theorem test_stop (h : src.IsLine s body) : src.test Text.isSpace (s + body.length) = false := by
  unfold Source.test
  rcases h.stop with hb | hs
  · rw [hb]
    rfl
  · rw [hs]
    simp

theorem Line.inside_ofBody (h : src.IsLine s body) : (ofBody s body).Inside src s body := by
  have hlead := List.takeWhile_prefix Text.isSpace (l := body)
  have hlen := hlead.length_le
  have hin : ∀ i, s ≤ i → i < s + (body.takeWhile Text.isSpace).length →
      ∃ c, src[i]? = some c ∧ Text.isSpace c = true := by
    intro i hi hlt
    obtain ⟨d, rfl⟩ := Nat.exists_eq_add_of_le hi
    have hd : d < (body.takeWhile Text.isSpace).length := by omega
    refine ⟨_, (h.hasAt.of_isPrefix hlead).getElem? hd ▸ List.getElem?_eq_getElem hd, ?_⟩
    exact List.all_eq_true.mp List.all_takeWhile _ (List.getElem_mem hd)
  refine ⟨Nat.le_refl s, ?_, Nat.le_refl _, h.le_size, ?_, ?_, ?_, test_stop h, ?_, ?_⟩
  · simpa [ofBody, start] using hlen
  · intro i hi hlt hc
    obtain ⟨c, hc', hspace⟩ := hin i hi hlt
    rw [hc, Option.some.injEq] at hc'
    rw [← hc'] at hspace
    cases hspace
  · intro _
    by_cases hz : (body.takeWhile Text.isSpace).length = 0
    · rcases h.start with h0 | hb
      · exact .inl (by simp [ofBody, start, hz, h0])
      · exact .inr ⟨'\n', by simpa [ofBody, start, hz] using hb, .inl rfl⟩
    · obtain ⟨c, hc, hspace⟩ := hin (s + (body.takeWhile Text.isSpace).length - 1) (by omega)
        (by omega)
      exact .inr ⟨c, hc, .inl (by simp [Text.isGap, hspace])⟩
  · have hwin := h.hasAt.window_eq
    have := Source.test_skipWhile_of_limit (Nat.le_add_right s body.length) (test_stop h)
    rwa [Source.skipWhile, hwin] at this
  · have := le_columns 0 0 (body.takeWhile Text.isSpace)
    show -1 ≤ columns 0 0 _
    omega
  · intro hneg
    exact absurd (le_columns 0 0 (body.takeWhile Text.isSpace)) (Int.not_le.mpr hneg)

/-! ### Sound regions -/

/-- **All lines of the region are parts of lines of the source**, each of the one with its number,
and only the last one may be cut off. -/
structure Region.Sound (src : Source) (r : Region) : Prop where
  src_eq : r.src = src
  height : r.height ≤ r.lines.size
  line : ∀ k, k < r.height → ∃ s body, (Anchor.lines src)[k]? = some (s, body) ∧
    (r.line k).Inside src s body ∧ (k + 1 < r.height → (r.line k).stop = s + body.length)
  indent : -1 ≤ r.indent
  quoted : r.indent < 0 → HasQuote src

namespace Region

theorem line_of_lt (h : k < r.lines.size) : r.lines[k]? = some (r.line k) := by
  rw [line, Array.getElem?_eq_getElem h, Option.getD_some]

theorem line_setLine (r : Region) (i k : Nat) (l : Line) :
    (r.setLine i l).line k = if i = k ∧ k < r.lines.size then l else r.line k := by
  simp only [line, setLine, Array.getElem?_setIfInBounds]
  by_cases hik : i = k
  · subst hik
    by_cases hk : i < r.lines.size
    · simp [hk]
    · simp [hk]
  · simp [hik]

/-- **The region of a whole source is sound.** -/
theorem sound_ofSource (src : Source) : (ofSource src).Sound src := by
  refine ⟨rfl, Nat.le_refl _, ?_, (by decide : (-1 : Int) ≤ 0), fun h => absurd h (Int.lt_irrefl 0)⟩
  intro k hk
  obtain ⟨s, body, hline, hl⟩ := Line.table_getElem? (line_of_lt (r := ofSource src) hk)
  refine ⟨s, body, hline, ?_, fun _ => by rw [hl]; rfl⟩
  rw [hl]
  exact Line.inside_ofBody (Anchor.lines_isLine hline)

namespace Sound

theorem inside (h : Sound src r) (hk : k < r.height) : ∃ s body,
    (Anchor.lines src)[k]? = some (s, body) ∧ (r.line k).Inside src s body := by
  obtain ⟨s, body, hline, hl, _⟩ := h.line k hk
  exact ⟨s, body, hline, hl⟩

/-- **A line ends before the later ones start.** -/
theorem line_lt (h : Sound src r) (hjk : j < k) (hk : k < r.height) :
    (r.line j).stop < (r.line k).first := by
  obtain ⟨s, body, hj, hlj⟩ := h.inside (Nat.lt_trans hjk hk)
  obtain ⟨t, body', hk, hlk⟩ := h.inside hk
  have := Anchor.lines_lt hj hk hjk
  have := hlj.stop
  have := hlk.first
  omega

theorem first_le_stop (h : Sound src r) (hk : k < r.height) :
    (r.line k).first ≤ (r.line k).stop := by
  obtain ⟨_, _, _, hl⟩ := h.inside hk
  exact Nat.le_trans (Nat.le_add_right _ _) hl.start

theorem stop_le (h : Sound src r) (hjk : j ≤ k) (hk : k < r.height) :
    (r.line j).stop ≤ (r.line k).stop := by
  rcases Nat.lt_or_eq_of_le hjk with hlt | rfl
  · have := h.line_lt hlt hk
    have := h.first_le_stop hk
    omega
  · exact Nat.le_refl _

theorem setLine (h : Sound src r) (hl : ∀ s body, (r.line i).Inside src s body →
      l.Inside src s body ∧ (i + 1 < r.height → l.stop = (r.line i).stop)) :
    Sound src (r.setLine i l) := by
  refine ⟨h.src_eq, by simpa [Region.setLine] using h.height, ?_, h.indent, h.quoted⟩
  intro k hk
  obtain ⟨s, body, hline, hin, hstop⟩ := h.line k hk
  refine ⟨s, body, hline, ?_⟩
  rw [line_setLine]
  split
  · next hik =>
    obtain ⟨rfl, -⟩ := hik
    obtain ⟨hin', hstop'⟩ := hl s body hin
    exact ⟨hin', fun hlt => by rw [hstop' hlt, hstop hlt]⟩
  · exact ⟨hin, hstop⟩

theorem narrow {height : Nat} {indent listIndent : Int} {isTop : Bool} (h : Sound src r)
    (hheight : height ≤ r.height) (hindent : -1 ≤ indent) (hquoted : indent < 0 → HasQuote src) :
    Sound src { r with height, indent, listIndent, isTop } := by
  refine ⟨h.src_eq, Nat.le_trans hheight h.height, ?_, hindent, hquoted⟩
  intro k hk
  obtain ⟨s, body, hline, hin, hstop⟩ := h.line k (Nat.lt_of_lt_of_le hk hheight)
  exact ⟨s, body, hline, hin, fun hlt => hstop (Nat.lt_of_lt_of_le hlt hheight)⟩

end Sound

/-! ### Finding lines -/

/-- **The line that an offset is on** is the first one that reaches to it. -/
theorem lineReaching_spec {offset : Nat} (r : Region) (hij : i ≤ j) (hj : j < r.lines.size)
    (hs : offset ≤ (r.line j).stop) :
    i ≤ r.lineReaching offset i ∧ r.lineReaching offset i ≤ j ∧
      offset ≤ (r.line (r.lineReaching offset i)).stop ∧
      ∀ k, i ≤ k → k < r.lineReaching offset i → (r.line k).stop < offset := by
  fun_induction lineReaching r offset i with
  | case1 i hi hlt ih =>
    have hne : i ≠ j := by
      rintro rfl
      omega
    obtain ⟨h₁, h₂, h₃, h₄⟩ := ih (by omega)
    refine ⟨by omega, h₂, h₃, fun k hik hk => ?_⟩
    rcases Nat.eq_or_lt_of_le hik with rfl | hik
    · exact hlt
    · exact h₄ k hik hk
  | case2 i hi hlt => exact ⟨Nat.le_refl _, hij, by omega, fun k h₁ h₂ => by omega⟩
  | case3 i hi => omega

/-- **A line is the first one that reaches to its end.** -/
theorem Sound.lineReaching_stop (h : Sound src r) (hij : i ≤ j) (hj : j < r.height) :
    r.lineReaching (r.line j).stop i = j := by
  obtain ⟨-, hle, hreach, -⟩ :=
    r.lineReaching_spec hij (Nat.lt_of_lt_of_le hj h.height) (Nat.le_refl (r.line j).stop)
  apply Nat.le_antisymm hle
  apply Nat.le_of_not_lt
  intro hlt
  -- an earlier line would end before that one starts
  have hbefore := h.line_lt hlt hj
  have hfirst := h.first_le_stop hj
  omega

/-- **A tag that starts between two lines starts in the text of the line that its offset is on.** -/
theorem Sound.start_le_of_lineReaching {p : Nat} (h : Sound src r) (hij : i ≤ j) (hj : j < r.height)
    (hi : (r.line i).start ≤ p) (hp : p ≤ (r.line j).stop) (htag : src[p]? = some '<') :
    (r.line (r.lineReaching p i)).start ≤ p := by
  obtain ⟨hge, hle, _, hbefore⟩ :=
    r.lineReaching_spec hij (Nat.lt_of_lt_of_le hj h.height) hp
  generalize r.lineReaching p i = k at *
  obtain ⟨s, body, hline, hin⟩ := h.inside (Nat.lt_of_le_of_lt hle hj)
  have hs : s ≤ p := by
    rcases Nat.eq_or_lt_of_le hge with rfl | hlt
    · have := hin.first
      have : (r.line i).first ≤ (r.line i).start := Nat.le_add_right _ _
      omega
    · obtain ⟨t, body', hprev, _, hstop⟩ := h.line (k - 1) (by omega)
      have hlast := hbefore (k - 1) (by omega) (by omega)
      rw [hstop (by omega)] at hlast
      have := Anchor.lines_succ hprev (by rw [Nat.sub_add_cancel (by omega)]; exact hline)
      omega
  exact Nat.le_of_not_lt fun hlt => hin.margin p hs hlt htag

theorem skipEmpty_spec (r : Region) (i : Nat) :
    i ≤ r.skipEmpty i ∧ (r.skipEmpty i < r.height → r.isEmpty (r.skipEmpty i) = false) := by
  fun_induction skipEmpty r i with
  | case1 i hi he ih => exact ⟨by omega, ih.2⟩
  | case2 i hi he => exact ⟨Nat.le_refl _, fun _ => by simpa using he⟩
  | case3 i hi => exact ⟨Nat.le_refl _, fun h => absurd h hi⟩

theorem skipEmpty_of_isEmpty_eq_false (h : r.isEmpty i = false) : r.skipEmpty i = i := by
  rw [skipEmpty, h, if_neg Bool.false_ne_true, ite_self]

theorem getElem?_of_lineText {c : Char} (h : (r.lineText i)[k]? = some c) :
    (r.line i).start + k < (r.line i).stop ∧ r.src[(r.line i).start + k]? = some c := by
  rw [lineText, Source.getElem?_window] at h
  split at h
  · exact ⟨by omega, h⟩
  · cases h

end Region

/-! ### What containers do to a line -/

theorem Line.Inside.advance {l' : Line} (h : l.Inside src s body) (hfirst : l.first ≤ l'.first)
    (hstop : l'.stop = l.stop) (hle : l'.start ≤ l.stop)
    (hmargin : ∀ i, l.start ≤ i → i < l'.start → src[i]? ≠ some '<')
    (hbefore : l'.start < l.stop → ∃ c, src[l'.start - 1]? = some c ∧ (Text.isGap c ∨ c = '>'))
    (htext : src.test Text.isSpace l'.start = false) (hindent : 0 ≤ l'.indent) :
    l'.Inside src s body := by
  refine ⟨Nat.le_trans h.first hfirst, by rw [hstop]; exact hle, by rw [hstop]; exact h.stop,
    by rw [hstop]; exact h.le_size, ?_, ?_, htext, by rw [hstop]; exact h.tail, by omega, by omega⟩
  · intro i hi hlt
    by_cases hil : i < l.start
    · exact h.margin i hi hil
    · exact hmargin i (Nat.le_of_not_lt hil) hlt
  · intro hlt
    rw [hstop] at hlt
    exact .inr (hbefore hlt)

theorem ne_of_test_isSpace {p : Nat} (h : src.test Text.isSpace p = true) :
    src[p]? ≠ some '<' ∧ ∃ c, src[p]? = some c ∧ (Text.isGap c ∨ c = '>') := by
  obtain ⟨c, hc, hspace⟩ := Source.test_iff.mp h
  refine ⟨fun he => ?_, c, hc, .inl (by simp [Text.isGap, hspace])⟩
  rw [hc, Option.some.injEq] at he
  rw [he] at hspace
  cases hspace

theorem Line.Inside.cutAt (h : l.Inside src s body) {p : Nat} (hp : l.start ≤ p) (hp' : p ≤ l.stop)
    (htag : src[p]? = some '<') : ({ l with stop := p } : Line).Inside src s body := by
  refine ⟨h.first, hp, Nat.le_trans hp' h.stop, Nat.le_trans hp' h.le_size, h.margin,
    fun hlt => h.before (Nat.lt_of_lt_of_le hlt hp'), h.text, ?_, h.indent, h.quoted⟩
  show src.test Text.isSpace p = false
  rw [Source.test, htag]
  rfl

/-- What is left of a line starts right after its quote mark, or after the space that belongs to the
mark. -/
theorem Quote.first_spec (h : l.Inside r.src s body) (hlt : l.start < l.stop) :
    (inner r l).first = l.start + 1 ∨ (inner r l).first = l.start + 2 ∧
      r.src.test Text.isSpace (l.start + 1) = true ∧ l.start + 1 < l.stop := by
  have hpos : ∀ c, Text.isSpace c = true → r.src.has c (l.start + 1) = true →
      r.src.test Text.isSpace (l.start + 1) = true ∧ l.start + 1 < l.stop := by
    intro c hc hhas
    obtain ⟨d, hd, hdc⟩ := Source.test_iff.mp hhas
    rw [beq_iff_eq] at hdc
    subst hdc
    have htest : r.src.test Text.isSpace (l.start + 1) = true := Source.test_iff.mpr ⟨d, hd, hc⟩
    refine ⟨htest, Nat.lt_of_le_of_ne hlt fun he => ?_⟩
    rw [he, h.tail] at htest
    cases htest
  dsimp only [inner]
  split
  · next ht =>
    refine .inr ⟨rfl, ?_⟩
    rcases Bool.or_eq_true_iff.mp ht with hsp | htab
    · exact hpos ' ' rfl hsp
    · exact hpos '\t' rfl (Bool.and_eq_true_iff.mp htab).1
  · exact .inl rfl

/-- **After its quote mark, a line is still a part of the same line of the source.** -/
theorem Quote.inside_inner (hsrc : r.src = src) (h : l.Inside src s body)
    (hq : src[l.start]? = some '>') (hlt : l.start < l.stop) :
    (inner r l).Inside src s body ∧ (inner r l).stop = l.stop ∧ l.first ≤ (inner r l).first := by
  subst hsrc
  have hfirst := Quote.first_spec h hlt
  have hstart : (inner r l).start = r.src.skipWhile Text.isSpace (inner r l).first l.stop :=
    Nat.add_sub_cancel' (r.src.le_skipWhile Text.isSpace (inner r l).first l.stop)
  have hindent : 0 ≤ (inner r l).indent := Int.sub_nonneg.mpr (Line.le_columns _ _ _)
  have hstop : (inner r l).stop = l.stop := rfl
  generalize inner r l = l' at *
  have hle : l'.first ≤ l.stop := by omega
  have hskip := r.src.le_skipWhile Text.isSpace l'.first l.stop
  have hskip' := r.src.skipWhile_le hle (p := Text.isSpace)
  have hspace : ∀ p, l.start < p → p < l'.start → r.src.test Text.isSpace p = true := by
    intro p hp hps
    rw [hstart] at hps
    by_cases hpf : l'.first ≤ p
    · exact Source.test_of_lt_skipWhile hpf hps
    · have hp1 : p = l.start + 1 := by omega
      rcases hfirst with hf | ⟨_, htest, _⟩
      · omega
      · rw [hp1]
        exact htest
  have hll : l.first ≤ l.start := Nat.le_add_right _ _
  refine ⟨h.advance (by omega) hstop (by omega) ?_ ?_ ?_ hindent, hstop, by omega⟩
  · intro p hp hps
    rcases Nat.eq_or_lt_of_le hp with rfl | hp
    · rw [hq]
      simp
    · exact (ne_of_test_isSpace (hspace p hp hps)).1
  · intro _
    by_cases hp : l'.start = l.start + 1
    · exact ⟨'>', by rw [hp]; exact hq, .inr rfl⟩
    · exact (ne_of_test_isSpace (hspace _ (by omega) (by omega))).2
  · rw [hstart]
    exact Source.test_skipWhile_of_limit hle h.tail

/-- The marker of a list item stands at the start of the text; no tag starts in it, and no text
follows it at once. -/
theorem Marker.read?_spec {text : List Char} {m : Marker} (h : Marker.read? text = some m) :
    0 < m.length ∧ m.length ≤ text.length ∧ '<' ∉ text.take m.length ∧
      Marker.endsWell (text.drop m.length) = true := by
  match text, h with
  | c :: rest, h =>
    simp only [Marker.read?] at h
    by_cases hc : (c == '*' || c == '-' || c == '+') = true
    · rw [if_pos hc] at h
      split at h
      · next hw =>
        cases h
        refine ⟨Nat.one_pos, by simp, ?_, hw⟩
        simp only [List.take_succ_cons, List.take_zero, List.mem_singleton]
        rintro rfl
        cases hc
      · cases h
    · rw [if_neg hc] at h
      split at h
      · cases h
      · next d after hd =>
        split at h
        · next hall =>
          cases h
          simp only [Bool.and_eq_true, Bool.or_eq_true, beq_iff_eq] at hall
          obtain ⟨⟨_, hmark⟩, hw⟩ := hall
          have hdigits := List.takeWhile_prefix Char.isDigit (l := c :: rest)
          have htext : c :: rest = (c :: rest).takeWhile Char.isDigit ++ d :: after := by
            conv => lhs; rw [← List.take_append_drop ((c :: rest).takeWhile Char.isDigit).length
              (c :: rest), hd, ← List.prefix_iff_eq_take.mp hdigits]
          have hall : '<' ∉ (c :: rest).takeWhile Char.isDigit := fun hlt =>
            absurd (List.all_eq_true.mp List.all_takeWhile _ hlt) (by decide)
          generalize (c :: rest).takeWhile Char.isDigit = digits at htext hall ⊢
          rw [htext]
          refine ⟨Nat.succ_pos _, by simp, ?_, ?_⟩
          · rw [List.take_append, List.take_of_length_le (Nat.le_succ _), Nat.add_sub_cancel_left,
              List.take_succ_cons, List.take_zero, List.mem_append, List.mem_singleton, not_or]
            refine ⟨hall, ?_⟩
            rintro rfl
            rcases hmark with hmark | hmark <;> cases hmark
          · rw [List.drop_append, List.drop_of_length_le (Nat.le_succ _), Nat.add_sub_cancel_left]
            exact hw
        · cases h

/-- **After its marker, the first line of an item is still a part of the same line of the
source.** -/
theorem Items.inside_line {m : Marker} (h : l.Inside src s body)
    (hm : Marker.read? (src.window l.start l.stop) = some m) {reached : Int} (hr : 0 ≤ reached) :
    ({ l with
      shift := src.skipWhile Text.isSpace (l.start + m.length) l.stop - l.first
      indent := reached } : Line).Inside src s body := by
  obtain ⟨hpos, hlen, hno, hends⟩ := Marker.read?_spec hm
  have hwin := src.length_window_le l.start l.stop
  have hle : l.start + m.length ≤ l.stop := by omega
  have hfirst : l.first ≤ l.start := Nat.le_add_right _ _
  have hskip := src.le_skipWhile Text.isSpace (l.start + m.length) l.stop
  have hskip' := src.skipWhile_le hle (p := Text.isSpace)
  have hspace : ∀ p, l.start + m.length ≤ p →
      p < src.skipWhile Text.isSpace (l.start + m.length) l.stop →
      src.test Text.isSpace p = true := fun p hp hps => Source.test_of_lt_skipWhile hp hps
  have htest := Source.test_skipWhile_of_limit (p := Text.isSpace) hle h.tail
  generalize src.skipWhile Text.isSpace (l.start + m.length) l.stop = start at *
  have hstart : l.first + (start - l.first) = start := by omega
  refine h.advance (Nat.le_refl _) rfl ?_ ?_ ?_ ?_ hr
  · show l.first + (start - l.first) ≤ l.stop
    omega
  · intro p hp hps
    have hps : p < l.first + (start - l.first) := hps
    by_cases hpm : p < l.start + m.length
    · intro hc
      refine hno (List.mem_of_getElem? (i := p - l.start) ?_)
      rw [List.getElem?_take_of_lt (by omega), Source.getElem?_window, if_pos (by omega),
        Nat.add_sub_cancel' hp, hc]
    · exact (ne_of_test_isSpace (hspace p (by omega) (by omega))).1
  · intro hlt
    have hlt : l.first + (start - l.first) < l.stop := hlt
    show ∃ c, src[l.first + (start - l.first) - 1]? = some c ∧ _
    rw [hstart]
    have hgt : l.start + m.length < start := by
      refine Nat.lt_of_le_of_ne hskip fun he => ?_
      -- the character after the marker would be no space
      have hsize := h.le_size
      have hhead : ((src.window l.start l.stop).drop m.length).head? = src[start]? := by
        rw [List.head?_drop, Source.getElem?_window, if_pos (by omega), he]
      rw [Marker.endsWell, hhead] at hends
      unfold Source.test at htest
      rw [Array.getElem?_eq_getElem (by omega)] at hends htest
      exact absurd hends (by simp [htest])
    exact (ne_of_test_isSpace (hspace _ (by omega) (by omega))).2
  · show src.test Text.isSpace (l.first + (start - l.first)) = false
    rw [hstart]
    exact htest

theorem Items.sound_inside {m : Marker} (h : r.Sound src) (hi : i < r.height)
    (hm : Marker.read? (r.lineText i) = some m) : (inside r m i).1.Sound src := by
  have hsrc := h.src_eq
  subst hsrc
  obtain ⟨_, _, _, hin⟩ := h.inside hi
  have hfrom : 0 ≤ (r.line i).indent + m.length := by
    have := hin.indent
    have := (Marker.read?_spec hm).1
    omega
  have hreached := Line.le_columns (r.line i).base ((r.line i).indent + m.length)
    (r.src.window ((r.line i).start + m.length)
      (r.src.skipWhile Text.isSpace ((r.line i).start + m.length) (r.line i).stop))
  have hindent : 0 ≤ (inside r m i).1.indent := by
    dsimp only [inside]
    split <;> omega
  refine Region.Sound.narrow (h.setLine (i := i) fun s body hl => ⟨?_, fun _ => rfl⟩)
    (Nat.le_refl _) (by omega) (fun hlt => absurd hindent (Int.not_le.mpr hlt))
  exact inside_line hl hm (Int.le_trans hfrom hreached)

end MdxProse.Block
