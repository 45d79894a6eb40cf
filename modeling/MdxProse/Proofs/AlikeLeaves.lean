import MdxProse.Proofs.AlikeLines

/-!
# Blocks without content in regions that are alike

Fenced code and mathematics look for the line that closes them; headings and paragraphs take running
text.  In regions that are alike, **all of them are read alike**: with the same texts, on the same
lines.

* `Region.Alike.fence_closing`, `.fence_read?`: fenced code is closed on the same line, and loses as
  many columns more as its opening mark is indented more.
* `Region.Alike.math_read?`: mathematics ends on the same line.  It keeps its indentation, so the
  lines of the two regions must be indented alike.
* `Region.Alike.text_read`: so is what is left, a definition, a heading or a paragraph.
-/

namespace MdxProse.Block

theorem Fence.char_of_opening? {r : Region} {i n : Nat} {c : Char}
    (h : opening? r i = some (c, n)) : c = '\x60' ∨ c = '~' := by
  have hmark {text : List Char} {c : Char} {n : Nat} (h : mark? text = some (c, n)) :
      c = '\x60' ∨ c = '~' := by
    cases text with
    | nil => cases h
    | cons d rest =>
      rw [mark?, Option.ite_none_right_eq_some] at h
      obtain ⟨hd, h⟩ := h
      dsimp only at h
      rw [Option.ite_none_right_eq_some] at h
      cases h.2
      simpa using hd
  rw [opening?] at h
  split at h
  · next c' n' hm =>
    rw [Option.ite_none_left_eq_some] at h
    cases h.2
    exact hmark hm
  · cases h

theorem Fence.closing_le (r : Region) (c : Char) (n : Nat) {past i : Nat} (hi : i ≤ past) :
    (closing r c n past i).1 ≤ past := by
  fun_induction closing r c n past i with
  | case1 | case2 | case3 | case5 => exact hi
  | case4 i hlt _ _ _ _ _ ih => exact ih hlt

namespace Region.Alike

variable {m : Carrying} {r r' : Region} {i past p q n : Nat}

section Line

variable (h : r.Alike m r') (hi : m.first ≤ i) (hlt : i < r.height)

include h hi hlt

theorem stop_eq : (r'.line i).stop = m.carry (r.line i).stop :=
  (h.line i hi hlt).stop

theorem window (hp : (r.line i).first ≤ p) (hq : q ≤ (r.line i).stop) :
    r'.src.window (m.carry p) (m.carry q) = r.src.window p q := by
  have hline := h.line i hi hlt
  rw [h.src, h.src_eq]
  by_cases hpq : p ≤ q
  · exact Carrying.window (Nat.le_trans hline.lo hp) hpq (Nat.le_trans hq hline.hi)
      fun k hk hkq => h.sound.ne_break hlt (Nat.le_trans hp hk) (Nat.lt_of_lt_of_le hkq hq)
  · rw [Source.window_eq_nil_of_le _ (Nat.le_of_not_le hpq),
      Source.window_eq_nil_of_le _ (m.carry_le_carry.mpr (Nat.le_of_not_le hpq))]

theorem carry_sub (hn : n ≤ (r.line i).stop - (r.line i).first) :
    m.carry ((r.line i).stop - n) = m.carry (r.line i).stop - n := by
  have hadd := h.carry_add hi hlt (p := (r.line i).stop - n) (n := n) (by
    have := h.sound.first_le_stop hlt
    omega) (by
    have := h.sound.first_le_stop hlt
    omega)
  have hle : (r.line i).stop - n + n = (r.line i).stop := by
    have := h.sound.first_le_stop hlt
    omega
  rw [hle] at hadd
  omega

/-- Skipping in a line does not go over its end, unless tags or line breaks are skipped. -/
theorem skipWhile {f : Char → Bool} (hbreak : f '\n' = false) (hopen : f '<' = false)
    (hp : (r.line i).first ≤ p) (hps : p ≤ (r.line i).stop) :
    r'.src.skipWhile f (m.carry p) r'.src.size = m.carry (r.src.skipWhile f p r.src.size) ∧
      p ≤ r.src.skipWhile f p r.src.size ∧ r.src.skipWhile f p r.src.size ≤ (r.line i).stop := by
  have hline := h.line i hi hlt
  have htest : m.src.test f (r.line i).stop = false := by
    rw [Source.test]
    rcases hline.ends with hc | hc | hc <;> rw [hc]
    · exact hbreak
    · exact hopen
  have htest' : m.dst.test f (m.carry (r.line i).stop) = false := by
    rwa [Carrying.test (by have := hline.lo; omega) hline.hi]
  have hle := Nat.le_trans hline.hi m.le_size
  have hle' := Nat.le_trans (m.carry_le_carry.mpr hline.hi) m.carry_le
  rw [h.src, h.src_eq, Source.skipWhile_of_limit hps hle htest,
    Source.skipWhile_of_limit (m.carry_le_carry.mpr hps) hle' htest']
  exact ⟨Carrying.skipWhile hbreak (Nat.le_trans hline.lo hp) hps hline.hi,
    m.src.le_skipWhile f p _, Source.skipWhile_le hps⟩

end Line

/-! ### Fenced code -/

/-- **The same line closes fenced code.** -/
theorem fence_closing (h : r.Alike m r') (hpast : past ≤ r.height) (hi : m.first ≤ i) {c : Char}
    (hc : c = '\x60' ∨ c = '~') : Fence.closing r' c n past i = Fence.closing r c n past i := by
  by_cases hle : i ≤ past
  · induction hle using Nat.decreasingInduction with
    | self =>
      rw [Fence.closing, Fence.closing.eq_def r, if_neg (Nat.lt_irrefl _),
        if_neg (Nat.lt_irrefl _)]
    | of_succ i hlt ih =>
      have hheight := Nat.lt_of_lt_of_le hlt hpast
      obtain ⟨hlo, hfirst, hstart, hhi⟩ := h.first_le hi hheight
      obtain ⟨-, hless, -⟩ := h.line_indent hi hheight
      have hempty : (r'.line i).isEmpty = (r.line i).isEmpty := h.isEmpty hi hheight
      have hsize : r'.src.size ≤ m.carry (r.line i).start ↔ r.src.size ≤ (r.line i).start := by
        rw [h.src, h.src_eq, ← Array.getElem?_eq_none_iff,
          ← Array.getElem?_eq_none_iff, m.char _ hlo (Nat.le_trans hstart hhi)]
      obtain ⟨hmark, hge, hle⟩ := h.skipWhile hi hheight (f := (· == c))
        (by rcases hc with rfl | rfl <;> rfl) (by rcases hc with rfl | rfl <;> rfl) hfirst hstart
      generalize hs : r.src.skipWhile (· == c) (r.line i).start r.src.size = mark at *
      obtain ⟨hspace, -, -⟩ := h.skipWhile hi hheight (f := Text.isSpace) rfl rfl
        (Nat.le_trans hfirst hge) hle
      have hlong : m.carry mark - m.carry (r.line i).start = mark - (r.line i).start := by
        obtain ⟨k, rfl⟩ := Nat.exists_eq_add_of_le hge
        rw [h.carry_add hi hheight hfirst hle]
        omega
      rw [Fence.closing, Fence.closing.eq_def r, if_pos hlt, if_pos hlt]
      dsimp only
      simp only [hempty, hless, hsize, h.start hi hheight, hmark, hs, hspace, hlong,
        h.stop_eq hi hheight, m.carry_le_carry, ih (Nat.le_succ_of_le hi)]
  · rw [Fence.closing, Fence.closing.eq_def r, if_neg (by omega), if_neg (by omega)]

theorem fence_read? (h : r.Alike m r') (hpast : past ≤ r.height) (hi : m.first ≤ i)
    (hlt : i < past) : Fence.read? r' i past = Fence.read? r i past := by
  have hheight := Nat.lt_of_lt_of_le hlt hpast
  rw [Fence.read?, Fence.read?, h.fence hi hheight]
  cases hf : Fence.opening? r i with
  | none => rfl
  | some mark =>
    obtain ⟨c, k⟩ := mark
    have hlast := Fence.closing_le r c k (Nat.succ_le_of_lt hlt)
    dsimp only [Option.map_some]
    rw [h.fence_closing hpast (Nat.le_succ_of_le hi) (Fence.char_of_opening? hf),
      h.lineText hi hheight,
      h.text (Nat.le_succ_of_le hi) (Nat.le_trans hlast hpast) (h.line i hi hheight).indent]

/-! ### Mathematics -/

/-- **Mathematics ends at the same place on a line.** -/
theorem math_lineEnd? (h : r.Alike m r') (hi : m.first ≤ i) (hlt : i < r.height) :
    MathBlock.lineEnd? r' i =
      (MathBlock.lineEnd? r i).map fun (stop, labelled) => (m.carry stop, labelled) := by
  obtain ⟨-, hfirst, hstart, -⟩ := h.first_le hi hlt
  have hlen : (r.lineText i).length ≤ (r.line i).stop - (r.line i).start :=
    Source.length_window_le _ _ _
  have hback {n : Nat} (hn : n ≤ (r.lineText i).length) :
      m.carry (r.line i).stop - n = m.carry ((r.line i).stop - n) :=
    (h.carry_sub hi hlt (by omega)).symm
  rw [MathBlock.lineEnd?, MathBlock.lineEnd?, h.lineText hi hlt, h.stop_eq hi hlt]
  split
  · next hdollars =>
    have hbare := (Text.trim_isInfix Text.isBlank (r.lineText i)).length_le
    have htwo : 2 ≤ (Text.trim Text.isBlank (r.lineText i)).length :=
      (List.isSuffixOf_iff_suffix.mp hdollars).length_le
    rw [Nat.sub_sub, Nat.sub_sub, hback (by omega)]
    rfl
  · cases hend : MathBlock.labelledEnd? (r.lineText i) with
    | none => rfl
    | some n =>
      have hn : n ≤ (r.lineText i).length := by
        rw [MathBlock.labelledEnd?] at hend
        split at hend
        · obtain ⟨rest, -, rfl⟩ := Option.map_eq_some_iff.mp hend
          exact Nat.sub_le _ _
        · cases hend
      dsimp only [Option.map_some]
      rw [hback hn]

theorem math_lineEnd_le {stop : Nat} {labelled : Bool}
    (hend : MathBlock.lineEnd? r i = some (stop, labelled)) : stop ≤ (r.line i).stop := by
  rw [MathBlock.lineEnd?] at hend
  split at hend
  · cases hend
    omega
  · obtain ⟨n, -, he⟩ := Option.map_eq_some_iff.mp hend
    cases he
    exact Nat.sub_le _ _

theorem math_closing? (h : r.Alike m r') (hpast : past ≤ r.height) (hi : m.first ≤ i) :
    MathBlock.closing? r' past i = (MathBlock.closing? r past i).map
      fun (last, stop, labelled) => (last, m.carry stop, labelled) := by
  fun_induction MathBlock.closing? r past i with
  | case1 i hlt stop labelled hend =>
    rw [MathBlock.closing?, if_pos hlt, h.math_lineEnd? hi (Nat.lt_of_lt_of_le hlt hpast), hend]
    rfl
  | case2 i hlt hend ih =>
    rw [MathBlock.closing?, if_pos hlt, h.math_lineEnd? hi (Nat.lt_of_lt_of_le hlt hpast), hend]
    exact ih (Nat.le_succ_of_le hi)
  | case3 i hlt =>
    rw [MathBlock.closing?, if_neg hlt]
    rfl

theorem math_ending? (h : r.Alike m r') (hpast : past ≤ r.height) (hi : m.first ≤ i)
    (hlt : i < past) : MathBlock.ending? r' i past = (MathBlock.ending? r i past).map
      fun (last, stop, labelled) => (last, m.carry stop, labelled) := by
  have hheight := Nat.lt_of_lt_of_le hlt hpast
  rw [MathBlock.ending?, MathBlock.ending?, h.lineText hi hheight, h.math_lineEnd? hi hheight,
    h.math_closing? hpast (Nat.le_succ_of_le hi)]
  by_cases hlong : 3 < (Text.trim Text.isBlank (r.lineText i)).length
  · rw [if_pos hlong, if_pos hlong]
    cases MathBlock.lineEnd? r i with
    | some found => rfl
    | none => cases MathBlock.closesEarly (r.lineText i) <;> rfl
  · rw [if_neg hlong, if_neg hlong]
    cases MathBlock.closesEarly (r.lineText i) <;> rfl

theorem math_ending_le {last stop : Nat} {labelled : Bool} (hlt : i < past)
    (hend : MathBlock.ending? r i past = some (last, stop, labelled)) :
    i ≤ last ∧ last < past ∧ stop ≤ (r.line last).stop := by
  have hclosing {j : Nat} (hc : MathBlock.closing? r past j = some (last, stop, labelled)) :
      j ≤ last ∧ last < past ∧ stop ≤ (r.line last).stop := by
    fun_induction MathBlock.closing? r past j with
    | case1 j hj stop' labelled' he =>
      cases hc
      exact ⟨Nat.le_refl _, hj, math_lineEnd_le he⟩
    | case2 j hj he ih =>
      obtain ⟨hle, hrest⟩ := ih hc
      exact ⟨Nat.le_of_succ_le hle, hrest⟩
    | case3 => cases hc
  rw [MathBlock.ending?] at hend
  split at hend
  · next stop' labelled' he =>
    cases hend
    rw [Option.ite_none_right_eq_some] at he
    exact ⟨Nat.le_refl _, hlt, math_lineEnd_le he.2⟩
  · split at hend
    · cases hend
    · obtain ⟨hle, hrest⟩ := hclosing hend
      exact ⟨Nat.le_of_succ_le hle, hrest⟩

/-- Where lines are not indented more, mathematics has the same text. -/
theorem math_between (h : r.Alike m r') (hflush : m.columns = 0) (hi : m.first ≤ i)
    {last stop : Nat} (hil : i ≤ last) (hlast : last < r.height) (hstop : stop ≤ (r.line last).stop)
    (htwo : (r.line i).start + 2 ≤ (r.line i).stop) :
    MathBlock.between r' i last (m.carry stop) = MathBlock.between r i last stop := by
  have hheight := Nat.lt_of_le_of_lt hil hlast
  obtain ⟨-, hfirst, -, -⟩ := h.first_le hi hheight
  have hlf := (h.line last (Nat.le_trans hi hil) hlast).first
  rw [hflush, Nat.add_zero] at hlf
  have hzero : Deeper m 0 0 := ⟨by rw [hflush]; rfl, .inl hflush⟩
  rw [MathBlock.between, MathBlock.between, h.start hi hheight]
  rw [← h.carry_add hi hheight hfirst htwo]
  split
  · rw [h.stop_eq hi hheight, h.window hi hheight (by omega) (Nat.le_refl _),
      h.text (Nat.le_succ_of_le hi) (Nat.le_of_lt hlast) hzero, hlf,
      h.window (Nat.le_trans hi hil) hlast (Nat.le_refl _) hstop]
  · obtain rfl : i = last := by omega
    rw [h.window hi hheight (by omega) hstop]

/-- **Mathematics is read alike.** -/
theorem math_read? (h : r.Alike m r') (hpast : past ≤ r.height) (hi : m.first ≤ i)
    (hlt : i < past) : MathBlock.read? r' i past = MathBlock.read? r i past := by
  have hheight := Nat.lt_of_lt_of_le hlt hpast
  rw [MathBlock.read?, MathBlock.read?, h.lineText hi hheight, h.math_ending? hpast hi hlt]
  split
  · next hdollars =>
    obtain ⟨rest, hrest⟩ := List.isPrefixOf_iff_prefix.mp hdollars
    obtain ⟨hlo, hfirst, hstart, hhi⟩ := h.first_le hi hheight
    obtain ⟨hone, hc⟩ := Region.getElem?_of_lineText (r := r) (i := i) (k := 0) (c := '$')
      (by rw [← hrest]; rfl)
    obtain ⟨htwo, -⟩ := Region.getElem?_of_lineText (r := r) (i := i) (k := 1) (c := '$')
      (by rw [← hrest]; rfl)
    have hflush : m.columns = 0 := m.flush.resolve_right fun hno => by
      rw [h.src_eq] at hc
      exact (hno _ hlo (by omega)).2 hc
    cases hend : MathBlock.ending? r i past with
    | none => rfl
    | some found =>
      obtain ⟨last, stop, labelled⟩ := found
      obtain ⟨hil, hlast, hstop⟩ := math_ending_le hlt hend
      dsimp only [Option.map_some]
      rw [h.math_between hflush hi hil (Nat.lt_of_lt_of_le hlast hpast) hstop (by omega)]
  · rfl

/-! ### Headings and paragraphs -/

theorem thematicBreak_read? (h : r.Alike m r') (hi : m.first ≤ i) (hlt : i < r.height) :
    ThematicBreak.read? r' i = ThematicBreak.read? r i := by
  rw [ThematicBreak.read?, ThematicBreak.read?, h.thematicBreak hi hlt]

theorem heading_read? (h : r.Alike m r') (hi : m.first ≤ i) (hlt : i < r.height) :
    Heading.read? r' i = Heading.read? r i := by
  rw [Heading.read?, Heading.read?, h.lineText hi hlt]

theorem underline_read? (h : r.Alike m r') (hpast : past ≤ r.height) (hi : m.first ≤ i) :
    Underline.read? r' i past = Underline.read? r i past := by
  rw [Underline.read?, Underline.read?, h.underline_find? hpast (Nat.le_succ_of_le hi)]
  cases hfind : Underline.find? r past (i + 1) with
  | none => rfl
  | some found =>
    obtain ⟨line, level⟩ := found
    obtain ⟨-, hline⟩ := Underline.find?_spec hfind
    dsimp only [Option.map_some]
    rw [h.runningText hi (by omega)]

theorem paragraph_read (h : r.Alike m r') (hends : r.EndsAlike m r' r.height r'.height)
    (hi : m.first ≤ i) (hlt : i < r.height) : Paragraph.read r' i = Paragraph.read r i := by
  have hstop := (Paragraph.stop_spec r (i + 1)).2 hlt
  rw [Paragraph.read, Paragraph.read, h.paragraph_stop hends (Nat.le_succ_of_le hi) hlt]
  rw [h.runningText hi hstop]

/-- **A definition, a heading or a paragraph is read alike.** -/
theorem text_read (h : r.Alike m r') (hends : r.EndsAlike m r' r.height r'.height)
    (hpast : past ≤ r.height) (hi : m.first ≤ i) (hlt : i < past) :
    (Definition.ofLine? r' i <|> Heading.read? r' i <|> Underline.read? r' i past).getD
        (Paragraph.read r' i) =
      (Definition.ofLine? r i <|> Heading.read? r i <|> Underline.read? r i past).getD
        (Paragraph.read r i) := by
  have hheight := Nat.lt_of_lt_of_le hlt hpast
  rw [h.definition hends hi hheight, h.heading_read? hi hheight, h.underline_read? hpast hi,
    h.paragraph_read hends hi hheight]

end Region.Alike

end MdxProse.Block
