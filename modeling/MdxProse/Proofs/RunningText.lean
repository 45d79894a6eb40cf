import MdxProse.Proofs.Regions

/-!
# Where running text comes from

Running text is made of rows, each of which is left of one line of the document when the marks of
containers and the indentation are cut off.  A tab that is cut in the middle puts spaces in front of
a row.

* `Line.cut_isRow`: what is left of a line is a row of it.
* `Running src content first`: the text `content` is made of rows of the lines from `first` on.
* `Region.Sound.running`: **the running text of lines is made of their rows.**
-/

namespace MdxProse

/-- The rows, with a line break after each but the last. -/
def Text.unlines : List (List Char) → List Char
  | [] => []
  | [row] => row
  | row :: rows => row ++ '\n' :: unlines rows

theorem Text.unlines_cons (row : List Char) {rows : List (List Char)} (h : rows ≠ []) :
    unlines (row :: rows) = row ++ '\n' :: unlines rows := by
  cases rows with
  | nil => exact absurd rfl h
  | cons => rfl

theorem Text.count_unlines {rows : List (List Char)} (hne : rows ≠ [])
    (h : ∀ row ∈ rows, '\n' ∉ row) : (unlines rows).count '\n' + 1 = rows.length := by
  induction rows with
  | nil => exact absurd rfl hne
  | cons row rows ih =>
    obtain ⟨hrow, h⟩ := List.forall_mem_cons.mp h
    have hzero := List.count_eq_zero_of_not_mem hrow
    cases rows with
    | nil => rw [unlines, hzero, List.length_singleton]
    | cons row' rows =>
      rw [unlines_cons row (List.cons_ne_nil _ _), List.count_append, List.count_cons_self, hzero,
        Nat.zero_add, ih (List.cons_ne_nil _ _) h]
      rfl

theorem Text.trimEnd_isPrefix (p : Char → Bool) (w : List Char) : trimEnd p w <+: w := by
  rw [trimEnd, ← List.reverse_suffix, List.reverse_reverse]
  exact List.dropWhile_suffix p

theorem Text.trim_isInfix (p : Char → Bool) (w : List Char) : trim p w <:+: w :=
  (trimEnd_isPrefix p _).isInfix.trans (List.dropWhile_suffix p).isInfix

/-- A row of running text that is left of the line `body`. -/
def IsRow (src : Source) (body row : List Char) : Prop :=
  ∃ n u, row = List.replicate n ' ' ++ u ∧ u <:+: body ∧ n + u.length ≤ body.length + 2 ∧
    (n = 0 ∨ '\t' ∈ body ∨ Block.HasQuote src)

/-- Nothing is missing at the end of the row. -/
def ReachesEnd (body row : List Char) : Prop :=
  ∃ n u, row = List.replicate n ' ' ++ u ∧ u <:+ body

/-- The text is made of rows of the lines from `first` on, and trimmed. -/
def Running (src : Source) (content : List Char) (first : Nat) : Prop :=
  ∃ rows, content = Text.trim Text.isPadding (Text.unlines rows) ∧ rows ≠ [] ∧
    (∀ j row, rows[j]? = some row → ∃ s body, (Anchor.lines src)[first + j]? = some (s, body) ∧
      IsRow src body row ∧ (j + 1 < rows.length → ReachesEnd body row)) ∧
    (1 < rows.length → ∃ row ∈ rows.head?, ∃ c ∈ row, Text.isSpace c = false)

theorem IsRow.noBreak {src : Source} {s : Nat} {body row : List Char} (h : IsRow src body row)
    (hl : src.IsLine s body) : '\n' ∉ row := by
  obtain ⟨n, u, rfl, hu, -⟩ := h
  rw [List.mem_append, not_or]
  refine ⟨fun hm => ?_, fun hm => hl.noBreak (hu.subset hm)⟩
  have := List.eq_of_mem_replicate hm
  cases this

theorem noBreak_of_rows {src : Source} {rows : List (List Char)} {first : Nat}
    {P : Nat → List Char → List Char → Prop}
    (h : ∀ j row, rows[j]? = some row → ∃ s body, (Anchor.lines src)[first + j]? = some (s, body) ∧
      IsRow src body row ∧ P j body row) : ∀ row ∈ rows, '\n' ∉ row := by
  intro row hrow
  obtain ⟨j, hj⟩ := List.getElem?_of_mem hrow
  obtain ⟨s, body, hline, hisRow, -⟩ := h j row hj
  exact hisRow.noBreak (Anchor.lines_isLine hline)

/-- **A running text has a line of the document for each of its parts.** -/
theorem Running.exists_line {src content : Source} {first j : Nat}
    (h : Running src content.toList first) (hj : j < (Anchor.lines content).length) :
    ∃ s body, (Anchor.lines src)[first + j]? = some (s, body) := by
  obtain ⟨rows, hcontent, hne, hrows, -⟩ := h
  have hbreak := noBreak_of_rows hrows
  have hcount := (Text.trim_isInfix Text.isPadding (Text.unlines rows)).sublist.count_le '\n'
  rw [← hcontent] at hcount
  have hlen := Text.count_unlines hne hbreak
  rw [Anchor.lines, Anchor.length_linesFrom, Text.length_splitOn] at hj
  obtain ⟨s, body, hline, -⟩ :=
    hrows j _ (List.getElem?_eq_getElem (show j < rows.length by omega))
  exact ⟨s, body, hline⟩

namespace Block

variable {src : Source} {r : Region} {i past s : Nat} {body : List Char} {l : Line}

/-! ### Cutting off indentation -/

/-- **Cutting off indentation** stops at the text of the line at the latest; it goes further than it
should only over a tab. -/
theorem Line.outdent_spec (h : l.Inside src s body) (indent width : Int) (stop : Nat) {p : Nat}
    (hp : p ≤ l.start) :
    p ≤ (outdent src l indent stop p width).1 ∧
    (outdent src l indent stop p width).1 ≤ l.start ∧
    ((outdent src l indent stop p width).2 ≤ indent ∨
      (outdent src l indent stop p width) = (p, width) ∨
      p < (outdent src l indent stop p width).1 ∧
        (outdent src l indent stop p width).2 ≤ indent + 3 ∧
        src[(outdent src l indent stop p width).1 - 1]? = some '\t') := by
  fun_induction outdent src l indent stop p width with
  | case1 p width hlt hc => exact ⟨Nat.le_refl p, hp, .inr (.inl rfl)⟩
  | case2 p width hlt c hc hspace ih =>
    have hps : p + 1 ≤ l.start := by
      refine Nat.lt_of_le_of_ne hp ?_
      rintro rfl
      have := h.text
      simp only [Source.test, hc, hspace] at this
      cases this
    obtain ⟨h₁, h₂, h₃⟩ := ih hps
    refine ⟨by omega, h₂, ?_⟩
    rcases h₃ with hle | heq | ⟨hlt', hle, htab⟩
    · exact .inl hle
    · rw [heq]
      by_cases htab : c = '\t'
      · refine .inr (.inr ⟨Nat.lt_succ_self p, ?_, by rw [Nat.add_sub_cancel, hc, htab]⟩)
        simp only [advance, htab, beq_self_eq_true, if_true]
        omega
      · refine .inl ?_
        simp only [advance, beq_iff_eq, htab, if_false]
        omega
    · exact .inr (.inr ⟨by omega, hle, htab⟩)
  | case3 p width hlt c hc hspace hshift ih =>
    have hps : p + 1 ≤ l.start := by
      rw [Line.start] at hp ⊢
      omega
    obtain ⟨h₁, h₂, h₃⟩ := ih hps
    refine ⟨by omega, h₂, ?_⟩
    rcases h₃ with hle | heq | ⟨hlt', hle, htab⟩
    · exact .inl hle
    · rw [heq]
      exact .inl (by dsimp only; omega)
    · exact .inr (.inr ⟨by omega, hle, htab⟩)
  | case4 p width hlt c hc hspace hshift => exact ⟨Nat.le_refl p, hp, .inr (.inl rfl)⟩
  | case5 p width hlt => exact ⟨Nat.le_refl p, hp, .inr (.inl rfl)⟩

theorem infix_of_isLine (h : src.IsLine s body) {a b : Nat} (ha : s ≤ a) (hab : a ≤ b)
    (hb : b ≤ s + body.length) :
    src.window a b <:+: body ∧ (b = s + body.length → src.window a b <:+ body) := by
  have hbody := h.hasAt.window_eq
  refine ⟨⟨src.window s a, src.window b (s + body.length), ?_⟩, ?_⟩
  · rw [Source.window_append ha hab, Source.window_append (by omega) hb, hbody]
  · rintro rfl
    exact ⟨src.window s a, by rw [Source.window_append ha hab, hbody]⟩

/-- **What is left of a line is a row of it.** -/
theorem Line.cut_isRow (hl : src.IsLine s body) (h : l.Inside src s body) {indent : Int}
    (hindent : -1 ≤ indent) (hquoted : indent < 0 → HasQuote src) (stop : Nat) :
    ∃ pos n, outdent src l indent stop l.first 0 = (pos, n) ∧ l.first ≤ pos ∧ pos ≤ l.start ∧
      IsRow src body (List.replicate (n - indent).toNat ' ' ++ src.window pos l.stop) ∧
      (l.stop = s + body.length →
        ReachesEnd body (List.replicate (n - indent).toNat ' ' ++ src.window pos l.stop)) := by
  have hfs : l.first ≤ l.start := Nat.le_add_right _ _
  obtain ⟨hge, hle, hn⟩ := outdent_spec h indent 0 stop hfs
  generalize outdent src l indent stop l.first 0 = o at hge hle hn
  obtain ⟨pos, n⟩ := o
  have hfirst := h.first
  have hstart := h.start
  have hstop := h.stop
  obtain ⟨hin, hsuf⟩ := infix_of_isLine hl (a := pos) (b := l.stop) (by omega) (by omega) hstop
  have hlen := src.length_window_le pos l.stop
  refine ⟨pos, n, rfl, hge, hle, ⟨_, _, rfl, hin, ?_⟩, fun he => ⟨_, _, rfl, hsuf he⟩⟩
  rcases hn with hn | hn | ⟨hlt, hn, htab⟩
  · have hn : n ≤ indent := hn
    exact ⟨by omega, .inl (by omega)⟩
  · obtain ⟨rfl, rfl⟩ := Prod.mk.inj hn
    refine ⟨by omega, ?_⟩
    by_cases hneg : indent < 0
    · exact .inr (.inr (hquoted hneg))
    · exact .inl (by omega)
  · have hlt : l.first < pos := hlt
    have hn : n ≤ indent + 3 := hn
    have htab : src[pos - 1]? = some '\t' := htab
    refine ⟨by omega, .inr (.inl ?_)⟩
    refine List.mem_of_getElem? (i := pos - 1 - s) ?_
    rw [← hl.hasAt.getElem? (by omega), Nat.add_sub_cancel' (by omega), htab]

namespace Region

theorem Sound.break_after {k : Nat} (h : Sound src r) (hk : k + 1 < r.height) :
    src[(r.line k).stop]? = some '\n' := by
  obtain ⟨s, body, hline, _, hstop⟩ := h.line k (Nat.lt_of_succ_lt hk)
  obtain ⟨t, body', hnext, _⟩ := h.inside hk
  rw [hstop hk]
  exact Anchor.break_of_next hline hnext

/-- The row that is left of a line, without its line break. -/
theorem Sound.row {k : Nat} (h : Sound src r) (hk : k < r.height) (stop : Nat) :
    ∃ pos n s body, Line.outdent src (r.line k) r.indent stop (r.line k).first 0 = (pos, n) ∧
      pos ≤ (r.line k).start ∧ (Anchor.lines src)[k]? = some (s, body) ∧
      IsRow src body
        (List.replicate (n - r.indent).toNat ' ' ++ src.window pos (r.line k).stop) ∧
      (k + 1 < r.height → ReachesEnd body
        (List.replicate (n - r.indent).toNat ' ' ++ src.window pos (r.line k).stop)) := by
  obtain ⟨s, body, hline, hin, hstop⟩ := h.line k hk
  obtain ⟨pos, n, ho, _, hpos, hrow, hreach⟩ :=
    Line.cut_isRow (Anchor.lines_isLine hline) hin h.indent h.quoted stop
  exact ⟨pos, n, s, body, ho, hpos, hline, hrow, fun hlt => hreach (hstop hlt)⟩

/-- A line with text leaves a row with something other than spaces. -/
theorem Sound.exists_text {k : Nat} (h : Sound src r) (hk : k < r.height)
    (he : r.isEmpty k = false) {pos : Nat} (hpos : pos ≤ (r.line k).start) :
    ∃ c ∈ src.window pos (r.line k).stop, Text.isSpace c = false := by
  obtain ⟨_, _, _, hin⟩ := h.inside hk
  have hlt : (r.line k).start < (r.line k).stop := by
    simpa [isEmpty, Line.isEmpty] using he
  have hsize := hin.le_size
  have hget : src[(r.line k).start]? = some src[(r.line k).start] :=
    Array.getElem?_eq_getElem (by omega)
  refine ⟨src[(r.line k).start], ?_, ?_⟩
  · refine List.mem_of_getElem? (i := (r.line k).start - pos) ?_
    rw [Source.getElem?_window, if_pos (by omega), Nat.add_sub_cancel' hpos, hget]
  · have := hin.text
    simpa [Source.test, hget] using this

/-- **The lines of a sound region, cut, are rows.** -/
theorem Sound.text_rows (h : Sound src r) {past : Nat} (hp : past ≤ r.height) (i : Nat)
    (hi : i < past) :
    ∃ rows, r.text i past r.indent false = Text.unlines rows ∧ rows.length = past - i ∧
      (∀ j row, rows[j]? = some row → ∃ s body, (Anchor.lines src)[i + j]? = some (s, body) ∧
        IsRow src body row ∧ (j + 1 < rows.length → ReachesEnd body row)) ∧
      (r.isEmpty i = false → ∃ row ∈ rows.head?, ∃ c ∈ row, Text.isSpace c = false) := by
  have hsrc := h.src_eq
  by_cases hnext : i + 1 < past
  · obtain ⟨rows, htext, hlen, hrows, _⟩ := h.text_rows hp (i + 1) hnext
    obtain ⟨pos, n, s, body, ho, hpos, hline, hrow, hreach⟩ :=
      h.row (Nat.lt_of_lt_of_le hi hp) ((r.line i).stop + 1)
    obtain ⟨_, _, _, hin⟩ := h.inside (Nat.lt_of_lt_of_le hi hp)
    have hstart := hin.start
    have hbreak : src.window pos ((r.line i).stop + 1) =
        src.window pos (r.line i).stop ++ ['\n'] := by
      rw [← Source.window_append (show pos ≤ (r.line i).stop by omega) (Nat.le_succ _),
        Source.window_cons _ (h.break_after (by omega)) (Nat.lt_succ_self _),
        Source.window_eq_nil_of_le _ (Nat.le_refl _)]
    have hne : rows ≠ [] := by
      rintro rfl
      rw [List.length_nil] at hlen
      omega
    refine ⟨(List.replicate (n - r.indent).toNat ' ' ++ src.window pos (r.line i).stop) :: rows,
      ?_, ?_, ?_, fun he => ⟨_, rfl, ?_⟩⟩
    · rw [text, if_pos hi, htext, Text.unlines_cons _ hne]
      simp [hnext, hsrc, Line.cut, ho, hbreak]
    · rw [List.length_cons]
      omega
    · intro j row hj
      cases j with
      | zero =>
        cases hj
        exact ⟨s, body, hline, hrow, fun _ => hreach (by omega)⟩
      | succ j =>
        obtain ⟨s', body', hline', hrow', hreach'⟩ := hrows j row hj
        refine ⟨s', body', by rw [← hline']; congr 1; omega, hrow', fun hlt => hreach' ?_⟩
        rw [List.length_cons] at hlt
        omega
    · obtain ⟨c, hc, hspace⟩ := h.exists_text (Nat.lt_of_lt_of_le hi hp) he hpos
      exact ⟨c, List.mem_append_right _ hc, hspace⟩
  · obtain ⟨pos, n, s, body, ho, hpos, hline, hrow, hreach⟩ :=
      h.row (Nat.lt_of_lt_of_le hi hp) (r.line i).stop
    refine ⟨[List.replicate (n - r.indent).toNat ' ' ++ src.window pos (r.line i).stop],
      ?_, ?_, ?_, fun he => ⟨_, rfl, ?_⟩⟩
    · rw [text, if_pos hi, text, if_neg hnext]
      simp [hnext, hsrc, Line.cut, ho, Text.unlines]
    · rw [List.length_singleton]
      omega
    · intro j row hj
      cases j with
      | zero =>
        cases hj
        exact ⟨s, body, hline, hrow, fun hlt => absurd hlt (Nat.lt_irrefl 1)⟩
      | succ j => cases hj
    · obtain ⟨c, hc, hspace⟩ := h.exists_text (Nat.lt_of_lt_of_le hi hp) he hpos
      exact ⟨c, List.mem_append_right _ hc, hspace⟩
termination_by past - i

/-- **The running text of lines is made of their rows.** -/
theorem Sound.running (h : Sound src r) {past : Nat} (hp : past ≤ r.height) (hi : i < past)
    (he : r.isEmpty i = false) : Running src (r.runningText i past).toList i := by
  obtain ⟨rows, htext, hlen, hrows, hfirst⟩ := h.text_rows hp i hi
  refine ⟨rows, by rw [runningText, htext, String.toList_ofList], ?_, hrows, fun _ => hfirst he⟩
  rintro rfl
  rw [List.length_nil] at hlen
  omega

end Region

theorem Heading.running_title (h : Region.Sound src r) (hi : i < r.height) (n : Nat) :
    Running src (Heading.title ((r.lineText i).drop n)) i := by
  have hsrc := h.src_eq
  subst hsrc
  obtain ⟨s, body, hline, hin⟩ := h.inside hi
  have hbody := (infix_of_isLine (Anchor.lines_isLine hline) (a := (r.line i).start)
    (b := (r.line i).stop) (Nat.le_trans hin.first (Nat.le_add_right _ _)) hin.start hin.stop).1
  obtain ⟨row, hrow, htitle⟩ : ∃ row, row <+: (r.lineText i).drop n ∧
      Heading.title ((r.lineText i).drop n) = Text.trim Text.isPadding row := by
    rw [title]
    split
    · exact ⟨_, (Text.trimEnd_isPrefix _ _).trans (Text.trimEnd_isPrefix _ _), rfl⟩
    · exact ⟨_, Text.trimEnd_isPrefix _ _, rfl⟩
  have hpiece : row <:+: body :=
    (hrow.isInfix.trans (List.drop_suffix n _).isInfix).trans hbody
  refine ⟨[row], htitle, by simp, ?_, fun hlt => absurd hlt (Nat.lt_irrefl 1)⟩
  intro j row' hj
  cases j with
  | zero =>
    cases hj
    have hlen := hpiece.length_le
    exact ⟨s, body, hline, ⟨0, row, rfl, hpiece, by omega, .inl rfl⟩,
      fun hlt => absurd hlt (Nat.lt_irrefl 1)⟩
  | succ j => cases hj

end Block

end MdxProse
