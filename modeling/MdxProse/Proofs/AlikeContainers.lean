import MdxProse.Proofs.AlikeLeaves

/-!
# Containers in regions that are alike

Containers make regions of their own for their content.  Where two regions are alike, **so are the
regions that their containers make**: the marks of a quote or an item take as many characters in
both, and an element is closed by the same tag.

* `Region.Alike.setLine`: a line may be changed in both regions.
* `Quote.inner_alike`: what the quote mark leaves of a line.  `Quote.gather_alike`: the region of a
  quote.
* `Items.inside_alike`: the region inside an item.
* `Element.closingRun?_alike`, `Element.inside_alike`: **the closing tag of an element is found on
  the same line**, and so is its inside.
-/

namespace MdxProse

theorem Source.Marked.extend {src : Source} {p q : Nat} (h : src.Marked p) (hpq : p ≤ q)
    (hmark : ∀ i, p ≤ i → i < q → src.test Text.isMark i = true) : src.Marked q := by
  obtain ⟨s, hs, hline, hall⟩ := h
  refine ⟨s, Nat.le_trans hs hpq, hline, fun i hi hiq => ?_⟩
  by_cases hip : i < p
  · exact hall i hi hip
  · exact hmark i (Nat.le_of_not_lt hip) hiq

theorem Source.test_isMark_of_isSpace {src : Source} {p : Nat} (hno : src[p]? ≠ some '\t')
    (h : src.test Text.isSpace p = true) : src.test Text.isMark p = true := by
  obtain ⟨c, hc, hspace⟩ := Source.test_iff.mp h
  rw [Text.isSpace, Bool.or_eq_true, beq_iff_eq, beq_iff_eq] at hspace
  rcases hspace with rfl | rfl
  · exact Source.test_iff.mpr ⟨_, hc, rfl⟩
  · exact absurd hc hno

theorem Source.tab_notMem_window {src : Source} (hno : ∀ p : Nat, src[p]? ≠ some '\t')
    {p q : Nat} : '\t' ∉ src.window p q := fun hmem => by
  obtain ⟨k, hk⟩ := List.getElem?_of_mem hmem
  rw [Source.getElem?_window, Option.ite_none_right_eq_some] at hk
  exact hno _ hk.2

namespace Block

theorem Line.columns_eq (base n : Int) {w : List Char} (hno : '\t' ∉ w) :
    columns base n w = n + w.length := by
  induction w generalizing n with
  | nil => simp [columns]
  | cons c w ih =>
    rw [List.mem_cons, not_or] at hno
    have hcons : columns base n (c :: w) = columns base (advance base n c) w := rfl
    rw [hcons, ih _ hno.2, advance, if_neg (by simpa using Ne.symm hno.1), List.length_cons]
    omega

theorem Marker.isMark_of_read? {text : List Char} {mk : Marker} (h : Marker.read? text = some mk) :
    ∀ c ∈ text.take mk.length, Text.isMark c = true := by
  match text, h with
  | c :: rest, h =>
    simp only [Marker.read?] at h
    by_cases hc : (c == '*' || c == '-' || c == '+') = true
    · rw [if_pos hc, Option.ite_none_right_eq_some] at h
      cases h.2
      intro d hd
      rw [List.take_succ_cons, List.take_zero, List.mem_singleton] at hd
      subst hd
      simp only [Bool.or_eq_true, beq_iff_eq] at hc
      rcases hc with (rfl | rfl) | rfl <;> rfl
    · rw [if_neg hc] at h
      split at h
      · cases h
      · next d after hd =>
        rw [Option.ite_none_right_eq_some] at h
        obtain ⟨hall, h⟩ := h
        cases h
        simp only [Bool.and_eq_true, Bool.or_eq_true, beq_iff_eq] at hall
        obtain ⟨⟨-, hmark⟩, -⟩ := hall
        have hdigits := List.takeWhile_prefix Char.isDigit (l := c :: rest)
        have htext : c :: rest = (c :: rest).takeWhile Char.isDigit ++ d :: after := by
          conv => lhs; rw [← List.take_append_drop ((c :: rest).takeWhile Char.isDigit).length
            (c :: rest), hd, ← List.prefix_iff_eq_take.mp hdigits]
        have hall : ∀ e ∈ (c :: rest).takeWhile Char.isDigit, Text.isMark e = true := fun e he => by
          rw [Text.isMark, List.all_eq_true.mp List.all_takeWhile e he, Bool.or_true]
        generalize (c :: rest).takeWhile Char.isDigit = digits at htext hall ⊢
        rw [htext, List.take_append, List.take_of_length_le (Nat.le_succ _),
          Nat.add_sub_cancel_left, List.take_succ_cons, List.take_zero]
        intro e he
        rcases List.mem_append.mp he with he | he
        · exact hall e he
        · rw [List.mem_singleton] at he
          subst he
          rcases hmark with rfl | rfl <;> rfl

variable {m : Carrying} {r r' : Region} {i past past' : Nat}

theorem Line.columns_window {src : Source} (hno : ∀ p : Nat, src[p]? ≠ some '\t') {p q : Nat}
    (hq : q ≤ src.size) (base n : Int) : columns base n (src.window p q) = n + (q - p : Nat) := by
  rw [Line.columns_eq _ _ (Source.tab_notMem_window hno), Source.length_window]
  omega

/-- **A whole line is carried** if it starts, is indented and ends where it should. -/
theorem Line.alike_ofBody {m : Carrying} {s : Nat} {body : List Char} {l' : Line}
    (h : m.src.IsLine s body) (hlo : m.lo ≤ s) (hhi : s + body.length ≤ m.hi)
    (hfirst : l'.first + m.columns = m.carry s) (hstop : l'.stop = m.carry (s + body.length))
    (hshift : l'.shift = (body.takeWhile Text.isSpace).length + m.columns)
    (hindent : l'.indent = (body.takeWhile Text.isSpace).length + m.columns) :
    (ofBody s body).Alike m l' := by
  have hlead := List.takeWhile_prefix Text.isSpace (l := body)
  have hat := h.hasAt.of_isPrefix hlead
  have hno : '\t' ∉ body.takeWhile Text.isSpace := fun hmem => by
    obtain ⟨k, hk⟩ := List.getElem?_of_mem hmem
    rw [← hat.getElem? (List.getElem?_eq_some_iff.mp hk).1] at hk
    exact (m.noTab _).1 hk
  have hcolumns : (ofBody s body).indent = (body.takeWhile Text.isSpace).length := by
    rw [ofBody]
    dsimp only
    rw [columns_eq 0 0 hno, Int.zero_add]
  refine ⟨hlo, hhi, hfirst, hstop, hshift, ⟨by rw [hindent, hcolumns], .inr ?_⟩, ?_, ?_⟩
  · rw [hcolumns]
    exact Int.natCast_nonneg _
  · refine ⟨s, Nat.le_add_right _ _, h.start, fun p hp hps => ?_⟩
    obtain ⟨k, rfl⟩ := Nat.exists_eq_add_of_le hp
    have hk : k < (body.takeWhile Text.isSpace).length := Nat.lt_of_add_lt_add_left hps
    have hc := (hat.getElem? hk).trans (List.getElem?_eq_getElem hk)
    exact Source.test_isMark_of_isSpace (m.noTab _).1 (Source.test_iff.mpr
      ⟨_, hc, List.all_eq_true.mp List.all_takeWhile _ (List.getElem_mem hk)⟩)
  · rcases h.stop with hb | hb
    · exact .inr (.inl hb)
    · exact .inl (Array.getElem?_eq_none_iff.mpr (Nat.le_of_eq hb.symm))

/-! ### Changing lines -/

theorem Region.line_setLine_self (hi : i < r.lines.size) (l : Line) :
    (r.setLine i l).line i = l := by
  rw [line_setLine, if_pos ⟨rfl, hi⟩]

theorem Region.Alike.setLine (h : r.Alike m r') (hi : m.first ≤ i) (hlt : i < r.height)
    {l l' : Line} (hsound : (r.setLine i l).Sound m.src) (hl : l.Alike m l') :
    (r.setLine i l).Alike m (r'.setLine i l') where
  sound := hsound
  src := h.src
  height := h.height
  size := by simpa [Region.setLine] using h.size
  line k hk hkh := by
    have hsize := Nat.lt_of_lt_of_le hkh h.sound.height
    have hsize' := Nat.lt_of_lt_of_le hkh (Nat.le_trans h.height h.size)
    rw [Region.line_setLine, Region.line_setLine]
    by_cases hik : i = k
    · rw [if_pos ⟨hik, hsize⟩, if_pos ⟨hik, hsize'⟩]
      exact hl
    · rw [if_neg (fun hc => hik hc.1), if_neg (fun hc => hik hc.1)]
      exact h.line k hk hkh
  indent := h.indent
  listIndent := h.listIndent
  isEmpty_off k hk := by
    have hk : k < m.first ∨ r.height ≤ k := hk
    rw [Region.isEmpty, Region.isEmpty, Region.line_setLine, Region.line_setLine,
      if_neg (by omega), if_neg (by omega)]
    exact h.isEmpty_off k hk

/-- **Two regions for the content of a container**: they are alike, and end at the same line. -/
structure Region.Twin (m : Carrying) (r r' : Region) : Prop extends r.Alike m r' where
  height_eq : r'.height = r.height
  isTop : r.isTop = false ∧ r'.isTop = false

theorem Region.Alike.narrow (h : r.Alike m r') {height height' : Nat} {a b c d : Int}
    {t t' : Bool} (hheight : height ≤ r.height) (hh : height' = height)
    (hsound : Region.Sound m.src { r with height, indent := a, listIndent := c, isTop := t })
    (hindent : Deeper m a b) (hlist : Deeper m c d ∨ c = -1 ∧ d = -1) :
    Region.Alike m { r with height, indent := a, listIndent := c, isTop := t }
      { r' with height := height', indent := b, listIndent := d, isTop := t' } where
  sound := hsound
  src := h.src
  height := Nat.le_of_eq hh.symm
  size := hh ▸ Nat.le_trans hheight (Nat.le_trans h.height h.size)
  line k hk hkh := h.line k hk (Nat.lt_of_lt_of_le hkh hheight)
  indent := hindent
  listIndent := hlist
  isEmpty_off k _ := h.isEmpty_all k

/-- **Spaces are skipped alike**, from an offset on a line on. -/
theorem Region.Alike.skipSpaces (h : r.Alike m r') (hi : m.first ≤ i) (hlt : i < r.height) {p : Nat}
    (hp : (r.line i).first ≤ p) (hstop : p ≤ (r.line i).stop) : ∃ q, p ≤ q ∧ q ≤ (r.line i).stop ∧
      m.src.skipWhile Text.isSpace p (r.line i).stop = q ∧
      m.dst.skipWhile Text.isSpace (m.carry p) (m.carry (r.line i).stop) = m.carry q ∧
      m.carry q - m.carry p = q - p ∧
      ∀ j, p ≤ j → j < q → m.src.test Text.isMark j = true := by
  have hline := h.line i hi hlt
  have hge := m.src.le_skipWhile Text.isSpace p (r.line i).stop
  have hle := m.src.skipWhile_le hstop (p := Text.isSpace)
  have hskip : m.dst.skipWhile Text.isSpace (m.carry p) (m.carry (r.line i).stop) =
      m.carry (m.src.skipWhile Text.isSpace p (r.line i).stop) :=
    Carrying.skipWhile rfl (Nat.le_trans hline.lo hp) hstop hline.hi
  refine ⟨_, hge, hle, rfl, hskip, ?_, fun j hj hjq => ?_⟩
  · obtain ⟨n, hn⟩ := Nat.exists_eq_add_of_le hge
    rw [hn, h.carry_add hi hlt hp (hn ▸ hle)]
    omega
  · exact Source.test_isMark_of_isSpace (m.noTab j).1 (Source.test_of_lt_skipWhile hj hjq)

/-! ### Quotes -/

namespace Quote

/-- Quotes are not indented more in the second region. -/
theorem flush_of_starts (h : r.Alike m r') (hi : m.first ≤ i) (hlt : i < r.height)
    (hq : starts r i = true) : m.columns = 0 := by
  obtain ⟨hmark, hstop, -⟩ := mark_of_starts h.sound hlt hq
  obtain ⟨hlo, -, -, hhi⟩ := h.first_le hi hlt
  exact m.flush.resolve_right fun hno => (hno _ hlo (Nat.lt_of_lt_of_le hstop hhi)).1 hmark

theorem inner_eq {src : Source} {l : Line} (hsrc : r.src = src)
    (hno : ∀ p : Nat, src[p]? ≠ some '\t') :
    let p := if src.has ' ' (l.start + 1) then l.start + 1 + 1 else l.start + 1
    (inner r l).first = p ∧ (inner r l).shift = src.skipWhile Text.isSpace p l.stop - p ∧
      (inner r l).indent = (src.window p (src.skipWhile Text.isSpace p l.stop)).length := by
  have hnoTab : src.has '\t' (l.start + 1) = false := by
    rw [Source.has, Source.test]
    split
    · next c hc => exact beq_eq_false_iff_ne.mpr fun hb => hno _ (hb ▸ hc)
    · rfl
  intro p
  simp only [inner, hsrc, hnoTab, Bool.false_and, Bool.or_false]
  refine ⟨rfl, rfl, ?_⟩
  rw [Line.columns_eq _ _ (Source.tab_notMem_window hno), Int.add_comm, Int.add_sub_cancel]

/-- The quote mark takes as much of a line in both texts: itself, and a space that follows it. -/
theorem first_inner_alike (h : r.Alike m r') (hi : m.first ≤ i) (hlt : i < r.height)
    (hq : starts r i = true) :
    (r.line i).start + 1 ≤ (inner r (r.line i)).first ∧
      (inner r (r.line i)).first ≤ (r.line i).stop ∧
      (inner r' (r'.line i)).first = m.carry (inner r (r.line i)).first ∧
      ∀ j, (r.line i).start ≤ j → j < (inner r (r.line i)).first →
        m.src.test Text.isMark j = true := by
  obtain ⟨hmark, hstop, -⟩ := mark_of_starts h.sound hlt hq
  obtain ⟨hlo, hfirst, hstart, hhi⟩ := h.first_le hi hlt
  obtain ⟨-, htail⟩ := h.not_space hlt
  obtain ⟨hin, -, -⟩ := inner_eq (l := r.line i) h.src_eq fun p => (m.noTab p).1
  obtain ⟨hin', -, -⟩ := inner_eq (l := r'.line i) h.src fun p => (m.noTab p).2
  have hpos : (r'.line i).start + 1 = m.carry ((r.line i).start + 1) := by
    rw [h.start hi hlt, h.carry_add hi hlt hfirst hstop]
  have hhas : m.dst.has ' ' ((r'.line i).start + 1) = m.src.has ' ' ((r.line i).start + 1) := by
    rw [hpos]
    exact Carrying.test (by omega) (by omega) _
  rw [hin, hin', hhas, hpos]
  split
  · next hc =>
    obtain ⟨c, hget, hc⟩ := Source.test_iff.mp hc
    rw [beq_iff_eq] at hc
    subst hc
    -- a line does not end before a space
    have hlong : (r.line i).start + 1 < (r.line i).stop := by
      refine Nat.lt_of_le_of_ne hstop fun he => ?_
      have hspace : m.src.test Text.isSpace (r.line i).stop = true :=
        Source.test_iff.mpr ⟨_, he ▸ hget, rfl⟩
      rw [htail] at hspace
      cases hspace
    refine ⟨Nat.le_succ _, hlong, ?_, fun j hj hjp => ?_⟩
    · exact (h.carry_add hi hlt (p := (r.line i).start + 1) (n := 1) (by omega) hlong).symm
    · rcases Nat.eq_or_lt_of_le hj with rfl | hj
      · exact Source.test_iff.mpr ⟨_, hmark, rfl⟩
      · obtain rfl : j = (r.line i).start + 1 := by omega
        exact Source.test_iff.mpr ⟨_, hget, rfl⟩
  · refine ⟨Nat.le_refl _, hstop, rfl, fun j hj hjp => ?_⟩
    obtain rfl : j = (r.line i).start := by omega
    exact Source.test_iff.mpr ⟨_, hmark, rfl⟩

theorem inner_alike (h : r.Alike m r') (hi : m.first ≤ i) (hlt : i < r.height)
    (hq : starts r i = true) : (inner r (r.line i)).Alike m (inner r' (r'.line i)) := by
  have hflush := flush_of_starts h hi hlt hq
  obtain ⟨hlo, hfirst, hstart, hhi⟩ := h.first_le hi hlt
  have hline := h.line i hi hlt
  obtain ⟨-, hshift, hindent⟩ := inner_eq (l := r.line i) h.src_eq fun p => (m.noTab p).1
  obtain ⟨-, hshift', hindent'⟩ := inner_eq (l := r'.line i) h.src fun p => (m.noTab p).2
  obtain ⟨hin, -, -⟩ := inner_eq (l := r.line i) h.src_eq fun p => (m.noTab p).1
  obtain ⟨hin', -, -⟩ := inner_eq (l := r'.line i) h.src fun p => (m.noTab p).2
  rw [← hin] at hshift hindent
  rw [← hin'] at hshift' hindent'
  obtain ⟨hge, hle, hp, hmarks⟩ := first_inner_alike h hi hlt hq
  obtain ⟨q, hpq, hqs, hskip, hskip', hwide, hspaces⟩ := h.skipSpaces hi hlt (by omega) hle
  have hwindow := h.window hi hlt (p := (inner r (r.line i)).first) (by omega) hqs
  rw [h.src, h.src_eq] at hwindow
  rw [hskip] at hshift hindent
  rw [hp, h.stop_eq hi hlt, hskip'] at hshift' hindent'
  rw [hwindow] at hindent'
  refine ⟨by omega, hhi, ?_, hline.stop, ?_, ⟨?_, .inl hflush⟩, ?_, hline.ends⟩
  · rw [hp, hflush, Nat.add_zero]
  · rw [hshift, hshift', hwide, hflush, Nat.add_zero]
  · rw [hindent, hindent', hflush]
    omega
  · have hq : (inner r (r.line i)).start = q := by
      rw [Line.start, hshift]
      omega
    rw [hq]
    refine hline.marked.extend (by omega) fun j hj hjq => ?_
    rcases Nat.lt_or_ge j (inner r (r.line i)).first with hjp | hjp
    · exact hmarks j hj hjp
    · exact hspaces j hjp hjq

theorem isEmpty_inner_alike (h : r.Alike m r') (hi : m.first ≤ i) (hlt : i < r.height)
    (hq : starts r i = true) :
    (inner r' (r'.line i)).isEmpty = (inner r (r.line i)).isEmpty := by
  have hline := h.setLine hi hlt (within_mark h.sound hlt hq).sound (inner_alike h hi hlt hq)
  have hsame := hline.isEmpty hi hlt
  rwa [Region.isEmpty, Region.isEmpty,
    Region.line_setLine_self (Nat.lt_of_lt_of_le hlt h.sound.height),
    Region.line_setLine_self (Nat.lt_of_lt_of_le hlt (Nat.le_trans h.height h.size))] at hsame

/-- A line in the regions of two quotes is left alone, takes a mark or continues a paragraph. -/
theorem starts_alike (h : r.Alike m r') (hi : m.first ≤ i) (hlt : i < r.height) :
    (starts r' i && decide (r'.indent ≤ (r'.line i).indent)) =
      (starts r i && decide (r.indent ≤ (r.line i).indent)) := by
  have hindent := h.line_indent hi hlt
  have hle : r'.indent ≤ (r'.line i).indent ↔ r.indent ≤ (r.line i).indent := by omega
  rw [h.quote hi hlt, decide_eq_decide.mpr hle]

theorem lazy_alike (h : r.Alike m r') (hi : m.first ≤ i) (hlt : i < r.height)
    (hflush : m.columns = 0) :
    Line.Alike m { r.line i with indent := -1 } { r'.line i with indent := -1 } := by
  have hline := h.line i hi hlt
  have hindent : Deeper m (-1) (-1) := ⟨by rw [hflush]; rfl, .inl hflush⟩
  exact ⟨hline.lo, hline.hi, hline.first, hline.stop, hline.shift, hindent, hline.marked,
    hline.ends⟩

/-- **The regions of two quotes are alike**, and end at the same line. -/
theorem gather_alike (h : r.Alike m r') (hh : r'.height = r.height) (hflush : m.columns = 0)
    (hpast : past ≤ r.height) (hi : m.first ≤ i) (hq : HasQuote m.src) (afterEmpty : Bool) :
    (gather r past afterEmpty i).1.Alike m (gather r' past afterEmpty i).1 ∧
      (gather r' past afterEmpty i).1.height = (gather r past afterEmpty i).1.height ∧
      (gather r' past afterEmpty i).2 = (gather r past afterEmpty i).2 := by
  fun_induction gather r past afterEmpty i generalizing r' with
  | case1 =>
    rename_i r _ i hlt _ hempty
    have hempty' : (r'.line i).isEmpty = true := (h.isEmpty hi (by omega)).trans hempty
    rw [gather.eq_def r', if_pos hlt]
    dsimp only
    rw [if_pos hempty']
    exact ⟨h, hh, rfl⟩
  | case2 =>
    rename_i r _ i hlt _ hempty hstarts _ ih
    have hheight := Nat.lt_of_lt_of_le hlt hpast
    have hempty' : (r'.line i).isEmpty = (r.line i).isEmpty := h.isEmpty hi hheight
    have hmark := (Bool.and_eq_true_iff.mp hstarts).1
    have hinner := inner_alike h hi hheight hmark
    have hline := h.setLine hi hheight (within_mark h.sound hheight hmark).sound hinner
    rw [gather.eq_def r', if_pos hlt]
    dsimp only
    rw [hempty', if_neg hempty, starts_alike h hi hheight, if_pos hstarts,
      isEmpty_inner_alike h hi hheight hmark]
    exact ih hline hh hpast (Nat.le_succ_of_le hi)
  | case3 =>
    rename_i r i hlt _ hempty hstarts
    have hheight := Nat.lt_of_lt_of_le hlt hpast
    have hempty' : (r'.line i).isEmpty = (r.line i).isEmpty := h.isEmpty hi hheight
    rw [gather.eq_def r', if_pos hlt]
    dsimp only
    rw [hempty', if_neg hempty, starts_alike h hi hheight, if_neg hstarts, if_pos rfl]
    exact ⟨h, hh, rfl⟩
  | case4 =>
    rename_i r _ i hlt _ hempty hstarts hafter hinterrupts
    have hheight := Nat.lt_of_lt_of_le hlt hpast
    have hempty' : (r'.line i).isEmpty = (r.line i).isEmpty := h.isEmpty hi hheight
    rw [gather.eq_def r', if_pos hlt]
    dsimp only
    rw [hempty', if_neg hempty, starts_alike h hi hheight, if_neg hstarts, if_neg hafter,
      h.interrupts (h.endsAlike (Nat.lt_of_le_of_lt hi hlt) hpast) hi hheight, if_pos hinterrupts]
    refine ⟨h.narrow (Nat.le_of_lt hheight) rfl ?_ h.indent h.listIndent, rfl, rfl⟩
    exact h.sound.narrow (Nat.le_of_lt hheight) h.sound.indent h.sound.quoted
  | case5 =>
    rename_i r _ i hlt _ hempty hstarts hafter hinterrupts ih
    have hheight := Nat.lt_of_lt_of_le hlt hpast
    have hempty' : (r'.line i).isEmpty = (r.line i).isEmpty := h.isEmpty hi hheight
    have hnext := h.setLine hi hheight (within_lazy h.sound hheight hq).sound
      (lazy_alike h hi hheight hflush)
    rw [gather.eq_def r', if_pos hlt]
    dsimp only
    rw [hempty', if_neg hempty, starts_alike h hi hheight, if_neg hstarts, if_neg hafter,
      h.interrupts (h.endsAlike (Nat.lt_of_le_of_lt hi hlt) hpast) hi hheight,
      if_neg hinterrupts]
    exact ih hnext hh hpast (Nat.le_succ_of_le hi)
  | case6 =>
    rename_i r _ i hlt
    rw [gather.eq_def r', if_neg hlt]
    exact ⟨h, hh, rfl⟩

end Quote

/-! ### Lists -/

theorem Items.isMark_of_marker {mk : Marker} (hm : Marker.read? (r.lineText i) = some mk) {p : Nat}
    (hp : (r.line i).start ≤ p) (hlt : p < (r.line i).start + mk.length) :
    r.src.test Text.isMark p = true := by
  obtain ⟨-, hlen, -, -⟩ := Marker.read?_spec hm
  obtain ⟨k, rfl⟩ := Nat.exists_eq_add_of_le hp
  have hk : k < mk.length := Nat.lt_of_add_lt_add_left hlt
  have hc := List.getElem?_eq_getElem (Nat.lt_of_lt_of_le hk hlen)
  obtain ⟨-, hget⟩ := Region.getElem?_of_lineText hc
  refine Source.test_iff.mpr ⟨_, hget, Marker.isMark_of_read? hm _ ?_⟩
  rw [← List.getElem?_take_of_lt hk] at hc
  exact List.mem_of_getElem? hc

theorem Items.inside_alike (h : r.Alike m r') (hh : r'.height = r.height) (hi : m.first ≤ i)
    (hlt : i < r.height) {mk : Marker} (hm : Marker.read? (r.lineText i) = some mk) :
    Region.Twin m (inside r mk i).1 (inside r' mk i).1 ∧
      (inside r' mk i).2 = (inside r mk i).2 := by
  obtain ⟨-, hlen, -, -⟩ := Marker.read?_spec hm
  have hwide := r.src.length_window_le (r.line i).start (r.line i).stop
  have hlen : mk.length ≤ (r.line i).stop - (r.line i).start := Nat.le_trans hlen hwide
  obtain ⟨hlo, hfirst, hstart, hhi⟩ := h.first_le hi hlt
  have hline := h.line i hi hlt
  have hsize := Nat.le_trans hhi m.le_size
  have hsize' := Nat.le_trans (m.carry_le_carry.mpr hhi) m.carry_le
  have hsound := Items.sound_inside h.sound hlt hm
  -- the content starts after the marker and the spaces that follow it
  have hpos' : (r'.line i).start + mk.length = m.carry ((r.line i).start + mk.length) := by
    rw [h.start hi hlt, h.carry_add hi hlt hfirst (by omega)]
  obtain ⟨q, hge, hle, hskip, hskip', hwide', hspaces⟩ :=
    h.skipSpaces hi hlt (p := (r.line i).start + mk.length) (by omega) (by omega)
  have hcolumns (base n : Int) := Line.columns_window (fun p => (m.noTab p).1)
    (p := (r.line i).start + mk.length) (Nat.le_trans hle hsize) base n
  have hcolumns' (base n : Int) := Line.columns_window (fun p => (m.noTab p).2)
    (p := m.carry ((r.line i).start + mk.length))
    (Nat.le_trans (m.carry_le_carry.mpr hle) hsize') base n
  have hwidth (x y : Int) : x + y - x = y := by omega
  simp only [inside, h.src_eq, h.src, hpos', h.stop_eq hi hlt, hskip, hskip', hcolumns, hcolumns',
    hwide', hwidth, m.carry_le_carry] at hsound ⊢
  have hmarked : m.src.Marked q := hline.marked.extend (by omega) fun p hp hpq => by
    rcases Nat.lt_or_ge p ((r.line i).start + mk.length) with hpm | hpm
    · exact h.src_eq ▸ isMark_of_marker hm hp hpm
    · exact hspaces p hpm hpq
  have hcarry := h.carry_add hi hlt (p := (r.line i).first) (n := q - (r.line i).first)
    (Nat.le_refl _) (by omega)
  obtain ⟨hdeep, hcase⟩ := hline.indent
  have hfirst' := hline.first
  have hstart' : (r.line i).first + (q - (r.line i).first) = q := by omega
  have hnew : Line.Alike m ⟨(r.line i).first, (r.line i).stop, q - (r.line i).first,
      (r.line i).indent + mk.length + (q - ((r.line i).start + mk.length) : Nat), (r.line i).base⟩
      ⟨(r'.line i).first, m.carry (r.line i).stop, m.carry q - (r'.line i).first,
      (r'.line i).indent + mk.length + (q - ((r.line i).start + mk.length) : Nat),
      (r'.line i).base⟩ := by
    rw [hstart'] at hcarry
    refine ⟨hline.lo, hhi, hfirst', rfl, ?_, ⟨?_, ?_⟩, ?_, hline.ends⟩
    · dsimp only
      omega
    · dsimp only
      omega
    · dsimp only
      omega
    · rwa [Line.start, hstart']
  have hlines := h.setLine hi hlt (hsound.narrow (Nat.le_refl _) h.sound.indent h.sound.quoted) hnew
  have hindent (width : Int) (hw : 0 ≤ width) : Deeper m ((r.line i).indent + mk.length + width)
      ((r'.line i).indent + mk.length + width) := ⟨by omega, by omega⟩
  refine ⟨⟨hlines.narrow (Nat.le_refl _) hh hsound
    (hindent _ ?_) (.inl h.indent), hh, rfl, rfl⟩, trivial⟩
  split <;> omega

/-! ### Elements -/

namespace Element

/-- **The least indented line is the same in both regions.** -/
theorem leastIndent?_alike (h : r.Alike m r') (hi : m.first ≤ i) (hpast : past ≤ r.height) :
    leastIndent? r' i past = (leastIndent? r i past).map (· + (m.columns : Int)) ∧
      ∀ a, leastIndent? r i past = some a → Deeper m a (a + m.columns) := by
  fun_induction leastIndent? r i past with
  | case1 i hlt rest hempty ih =>
    have hempty' : r'.isEmpty i = r.isEmpty i := h.isEmpty hi (by omega)
    rw [leastIndent?, if_pos hlt]
    dsimp only
    rw [hempty', if_pos hempty]
    exact ih (Nat.le_succ_of_le hi)
  | case2 i hlt rest hempty a hrest ih =>
    have hempty' : r'.isEmpty i = r.isEmpty i := h.isEmpty hi (by omega)
    obtain ⟨ih, hdeep⟩ := ih (Nat.le_succ_of_le hi)
    have hrest : leastIndent? r (i + 1) past = some a := hrest
    obtain ⟨-, ha⟩ := hdeep a hrest
    obtain ⟨hb, hcase⟩ := (h.line i hi (by omega)).indent
    rw [leastIndent?, if_pos hlt]
    dsimp only
    rw [hempty', if_neg hempty, ih, hrest]
    constructor
    · simp only [Option.map_some, hb]
      congr 1
      omega
    · rintro b hb'
      cases hb'
      exact ⟨rfl, by omega⟩
  | case3 i hlt rest hempty hrest ih =>
    have hempty' : r'.isEmpty i = r.isEmpty i := h.isEmpty hi (by omega)
    obtain ⟨ih, -⟩ := ih (Nat.le_succ_of_le hi)
    have hrest : leastIndent? r (i + 1) past = none := hrest
    obtain ⟨hb, hcase⟩ := (h.line i hi (by omega)).indent
    rw [leastIndent?, if_pos hlt]
    dsimp only
    rw [hempty', if_neg hempty, ih, hrest, hb]
    refine ⟨rfl, fun b hb' => ?_⟩
    cases hb'
    exact ⟨rfl, hcase⟩
  | case4 i hlt =>
    rw [leastIndent?, if_neg hlt]
    exact ⟨rfl, fun b hb => by cases hb⟩

theorem closingRun?_of_isEmpty {name : Option String} {inner i : Nat}
    {fence : Option (Char × Nat)} (h : ∀ k, i ≤ k → k < past → r.isEmpty k = true) :
    closingRun? r name past inner fence i = none := by
  rw [closingRun?]
  split
  · next hlt =>
    rw [if_pos (h i (Nat.le_refl i) hlt)]
    exact closingRun?_of_isEmpty fun k hk hkp => h k (Nat.le_of_succ_le hk) hkp
  · rfl
termination_by past - i

/-- On a line that is no mark of fenced code, the search looks at the tags. -/
theorem closingRun?_tags {name : Option String} {inner : Nat} (hlt : i < past)
    (hempty : r.isEmpty i = false) (hmark : Fence.mark? (r.lineText i) = none) :
    closingRun? r name past inner none i =
      match Tag.run? r.src (r.line i).start (r.limit past) with
      | none => closingRun? r name past inner none (i + 1)
      | some (tags, stop) =>
        match findIn name inner tags with
        | .inl (before, closer, after) =>
          if Tag.leavesNothingOpen before && Tag.balanced after then
            some ⟨i, before, closer, after, stop⟩
          else none
        | .inr n => closingRun? r name past n none (max i (r.lineReaching stop i) + 1) := by
  rw [closingRun?, if_pos hlt, hempty, if_neg Bool.false_ne_true]
  dsimp only
  generalize Fence.mark? (r.lineText i) = mark at hmark ⊢
  subst hmark
  rfl

theorem closingRun?_alike (h : r.Alike m r') (hends : r.EndsAlike m r' past past')
    (hpast : past ≤ r.height) {name : Option String} {inner : Nat} {fence : Option (Char × Nat)}
    (hi : m.first ≤ i) : closingRun? r' name past' inner fence i =
      (closingRun? r name past inner fence i).map (ClosingRun.carried m.carry) := by
  have hle := hends.le
  have htags {i inner : Nat} (hi : m.first ≤ i) (hlt : i < past) (hempty : ¬ r.isEmpty i = true)
      (hmark : Fence.mark? (r.lineText i) = none) :
      closingRun? r' name past' inner none i = _ :=
    closingRun?_tags (Nat.lt_of_lt_of_le hlt hle)
      ((h.isEmpty hi (by omega)).trans (Bool.eq_false_iff.mpr hempty))
      ((congrArg Fence.mark? (h.lineText hi (by omega))).trans hmark)
  have hrun {i : Nat} (hi : m.first ≤ i) (hlt : i < past) (hempty : ¬ r.isEmpty i = true) :=
    h.run? hends hi (Nat.lt_of_lt_of_le hlt hpast) (Bool.eq_false_iff.mpr hempty)
  fun_induction closingRun? r name past inner fence i with
  | case1 =>
    rename_i i hlt hempty ih
    rw [closingRun?.eq_def r', if_pos (Nat.lt_of_lt_of_le hlt hle), h.isEmpty hi (by omega),
      if_pos hempty]
    exact ih (Nat.le_succ_of_le hi)
  | case2 =>
    rename_i i hlt hempty text c n ih
    rw [closingRun?.eq_def r', if_pos (Nat.lt_of_lt_of_le hlt hle), h.isEmpty hi (by omega),
      if_neg hempty]
    dsimp only
    rw [h.lineText hi (by omega)]
    exact ih (Nat.le_succ_of_le hi)
  | case3 =>
    rename_i i hlt hempty text mark hmark ih
    rw [closingRun?.eq_def r', if_pos (Nat.lt_of_lt_of_le hlt hle), h.isEmpty hi (by omega),
      if_neg hempty]
    dsimp only
    rw [h.lineText hi (by omega), hmark]
    exact ih (Nat.le_succ_of_le hi)
  | case4 =>
    rename_i i hlt hempty text hmark hnone ih
    rw [htags hi hlt hempty hmark, hrun hi hlt hempty, hnone]
    exact ih (Nat.le_succ_of_le hi)
  | case5 =>
    rename_i i hlt hempty text hmark tags stop hsome before closer after hfind hcond
    rw [htags hi hlt hempty hmark, hrun hi hlt hempty, hsome]
    dsimp only [Option.map_some]
    rw [findIn_carried, hfind]
    dsimp only [Sum.map_inl]
    rw [Tag.leavesNothingOpen_carried, Tag.balanced_carried, if_pos hcond]
    rfl
  | case6 =>
    rename_i i hlt hempty text hmark tags stop hsome before closer after hfind hcond
    rw [htags hi hlt hempty hmark, hrun hi hlt hempty, hsome]
    dsimp only [Option.map_some]
    rw [findIn_carried, hfind]
    dsimp only [Sum.map_inl]
    rw [Tag.leavesNothingOpen_carried, Tag.balanced_carried, if_neg hcond]
    rfl
  | case7 =>
    rename_i i hlt hempty text hmark tags stop hsome n hfind ih
    obtain ⟨-, -, hstop, -⟩ := Tag.run?_spec hsome
    rw [htags hi hlt hempty hmark, hrun hi hlt hempty, hsome]
    dsimp only [Option.map_some]
    rw [findIn_carried, hfind]
    dsimp only [Sum.map_inr, id]
    rw [h.lineReaching hi (j := past - 1) (by omega) (by omega) hstop]
    exact ih (by omega)
  | case8 =>
    rename_i i hlt
    exact closingRun?_of_isEmpty fun k hk hkp => hends.below k (by omega) hkp

/-- **The insides of two elements are alike**, from the same line up to the same line. -/
theorem inside_alike (h : r.Alike m r') (hr : r.Ready m.src past) {name : Option String}
    {run : ClosingRun} {line : Nat} (hc : Closed m.src r past name run line)
    (hi : m.first ≤ run.line) {a b : Int} (ha : -1 ≤ a) (hq : a < 0 → HasQuote m.src)
    (hd : Deeper m a b) :
    Region.Twin m (inside r line (if run.before.isEmpty then run.line else line + 1) a run)
      (inside r' line (if run.before.isEmpty then run.line else line + 1) b
        (run.carried m.carry)) := by
  have hready := (ready_inside hr.sound hr.past_le hc ha hq).sound
  have hheight := hr.past_le
  have hlt := hc.run_lt
  have hlt' := hc.lt_past
  have hle := hc.run_le
  have hbefore : (run.before.map (Tag.carried m.carry)).isEmpty = run.before.isEmpty := by
    cases run.before <;> rfl
  simp only [inside, ClosingRun.carried, hbefore] at hready ⊢
  split
  · next he =>
    simp only [if_pos he] at hready ⊢
    exact ⟨h.narrow (by omega) rfl hready hd h.listIndent, rfl, rfl, rfl⟩
  · next he =>
    simp only [if_neg he] at hready ⊢
    have hline := h.line line (by omega) (by omega)
    have hnarrow : Region.Alike m
        { r with height := line + 1, indent := a, isTop := false }
        { r' with height := line + 1, indent := b, isTop := false } :=
      h.narrow (by omega) rfl (hr.sound.narrow (by omega) ha hq) hd h.listIndent
    have hcut : Line.Alike m { r.line line with stop := run.closer.span.start }
        { r'.line line with stop := m.carry run.closer.span.start } :=
      ⟨hline.lo, Nat.le_trans hc.le_stop hline.hi, hline.first, rfl, hline.shift, hline.indent,
        hline.marked, .inr (.inr (Tag.has_lt_of_scan? hc.scan))⟩
    exact ⟨hnarrow.setLine (by omega) (Nat.lt_succ_self line) hready hcut, rfl, rfl, rfl⟩

end Element

end Block

end MdxProse
