import MdxProse.Proofs.Anchoring

/-!
# Parts and rows

The parts of a running text are the rows it is made of, but for white space at both ends, as long
as trimming takes away no whole row at the front.

* `Source.EndsPlain`: no line ends in white space other than spaces and tabs.
* `Running.aligned`: **then each part is a piece of the row with its number.**
* `Anchor.OnLine.locate_le`: then offsets in order are located in order.
* `Anchor.OnLine.infix_line`: where there are no tabs and no quotes either, every part occurs on its
  line.
-/

namespace MdxProse

/-! ### Trimming -/

namespace Text

variable {p q : Char → Bool} {u w : List Char} {c : Char}

theorem isPadding_of_isSpace (h : isSpace c = true) : isPadding c = true := by
  simp only [isSpace, Bool.or_eq_true, beq_iff_eq] at h
  rcases h with rfl | rfl
  · decide
  · decide

theorem isBlank_of_isPadding (h : isPadding c = true) : isBlank c = true := by
  simp only [isPadding, isBlank, toggled, paddingToggles, blankToggles] at *
  generalize c.toNat = n at *
  grind [toggledFrom]

theorem trimEnd_append (p : Char → Bool) (w : List Char) :
    ∃ t, w = trimEnd p w ++ t ∧ ∀ c ∈ t, p c = true := by
  refine ⟨(w.reverse.takeWhile p).reverse, ?_, fun c hc => ?_⟩
  · rw [trimEnd, ← List.reverse_append, List.takeWhile_append_dropWhile, List.reverse_reverse]
  · exact List.all_eq_true.mp List.all_takeWhile c (List.mem_reverse.mp hc)

theorem getLast?_trimEnd (h : (trimEnd p w).getLast? = some c) : p c = false := by
  rw [trimEnd, List.getLast?_reverse] at h
  have := List.head?_dropWhile_not p w.reverse
  rw [h] at this
  simpa using this

theorem trimEnd_white (hu : ∀ c ∈ u, p c = true) : trimEnd p (w ++ u) = trimEnd p w := by
  rw [trimEnd, trimEnd, List.reverse_append,
    List.dropWhile_append_of_pos fun c hc => hu c (List.mem_reverse.mp hc)]

theorem prefix_trimEnd (hc : p c = false) : w ++ [c] <+: trimEnd p (w ++ c :: u) := by
  have hsplit : w ++ c :: u = w ++ [c] ++ u := by simp
  rw [hsplit, trimEnd, List.reverse_append, List.dropWhile_append]
  split
  · rw [List.reverse_append, List.reverse_singleton, List.singleton_append,
      List.dropWhile_cons_of_neg (by simp [hc])]
    simp
  · simp

theorem trimEnd_mono (hpq : ∀ c, p c = true → q c = true) (w : List Char) :
    trimEnd q w <+: trimEnd p w := by
  obtain ⟨t, ht, hp⟩ := trimEnd_append p w
  have hq : trimEnd q w = trimEnd q (trimEnd p w) := by
    conv => lhs; rw [ht]
    exact trimEnd_white fun c hc => hpq c (hp c hc)
  rw [hq]
  exact trimEnd_isPrefix q _

theorem infix_trimEnd (h : u <:+: w) (hu : ∀ c, u.getLast? = some c → p c = false) :
    u <:+: trimEnd p w := by
  obtain ⟨t, ht, hp⟩ := trimEnd_append p w
  obtain ⟨x, y, hxy⟩ := h
  rw [ht] at hxy
  rcases List.append_eq_append_iff.mp hxy with ⟨z, hz, -⟩ | ⟨z, hz, hzt⟩
  · exact ⟨x, z, hz.symm⟩
  · cases hlast : u.getLast? with
    | none =>
      rw [List.getLast?_eq_none_iff.mp hlast]
      exact List.nil_infix
    | some c =>
      -- the last character would be among those cut off
      cases hz' : z.getLast? with
      | none =>
        rw [List.getLast?_eq_none_iff.mp hz', List.append_nil] at hz
        exact ⟨x, [], by rw [List.append_nil, hz]⟩
      | some d =>
        have hd : (x ++ u).getLast? = some d := by
          rw [hz, List.getLast?_append, hz', Option.some_or]
        rw [List.getLast?_append, hlast, Option.some_or, Option.some.injEq] at hd
        have hmem : d ∈ t := by
          rw [hzt]
          exact List.mem_append_left _ (List.mem_of_getLast? hz')
        have := hu c hlast
        rw [hd, hp d hmem] at this
        cases this

end Text

/-! ### Splitting what rows are joined to -/

theorem Text.splitOn_prefix_single {w row part : List Char} (hrow : '\n' ∉ row) (hw : w <+: row)
    {j : Nat} (hpart : (splitOn '\n' w)[j]? = some part) : j = 0 ∧ part <+: row := by
  rw [splitOn_single fun hm => hrow (hw.subset hm)] at hpart
  cases j with
  | zero =>
    cases hpart
    exact ⟨rfl, hw⟩
  | succ j => cases hpart

/-- **The pieces of a front part of joined rows are front parts of the rows.** -/
theorem Text.splitOn_isPrefix {rows : List (List Char)} {w : List Char} (hne : rows ≠ [])
    (hbreak : ∀ row ∈ rows, '\n' ∉ row) (hw : w <+: unlines rows) {j : Nat} {part : List Char}
    (hpart : (splitOn '\n' w)[j]? = some part) : ∃ row, rows[j]? = some row ∧ part <+: row := by
  induction rows generalizing w j with
  | nil => exact absurd rfl hne
  | cons r rows ih =>
    obtain ⟨hr, hbreak⟩ := List.forall_mem_cons.mp hbreak
    by_cases hnil : rows = []
    · subst hnil
      obtain ⟨rfl, hpre⟩ := splitOn_prefix_single hr hw hpart
      exact ⟨r, rfl, hpre⟩
    · rw [unlines_cons _ hnil] at hw
      obtain ⟨y, hy⟩ := hw
      rcases List.append_eq_append_iff.mp hy with ⟨z, hz, -⟩ | ⟨z, hz, hzt⟩
      · obtain ⟨rfl, hpre⟩ := splitOn_prefix_single hr ⟨z, hz.symm⟩ hpart
        exact ⟨r, rfl, hpre⟩
      · cases z with
        | nil =>
          rw [List.append_nil] at hz
          obtain ⟨rfl, hpre⟩ := splitOn_prefix_single hr (hz ▸ List.prefix_refl _) hpart
          exact ⟨r, rfl, hpre⟩
        | cons c z =>
          rw [List.cons_append, List.cons.injEq] at hzt
          obtain ⟨rfl, hz'⟩ := hzt
          rw [hz, splitOn_first hr] at hpart
          cases j with
          | zero =>
            cases hpart
            exact ⟨_, rfl, List.prefix_refl _⟩
          | succ j => exact ih hnil hbreak ⟨y, hz'.symm⟩ hpart

theorem Text.dropWhile_unlines {p : Char → Bool} {row : List Char} {rows : List (List Char)}
    (h : rows ≠ [] → ∃ c ∈ row, p c = false) :
    (unlines (row :: rows)).dropWhile p = unlines (row.dropWhile p :: rows) := by
  by_cases hnil : rows = []
  · rw [hnil]
    rfl
  · obtain ⟨c, hc, hp⟩ := h hnil
    have hne : (row.dropWhile p).isEmpty = false := by
      rw [List.isEmpty_eq_false_iff]
      intro hempty
      rw [← @List.takeWhile_append_dropWhile _ p row, hempty, List.append_nil] at hc
      have := List.all_eq_true.mp List.all_takeWhile c hc
      rw [hp] at this
      cases this
    rw [unlines_cons _ hnil, unlines_cons _ hnil, List.dropWhile_append, hne]
    rfl

/-! ### Lines that end plainly -/

/-- No line ends in white space other than spaces and tabs. -/
def Source.EndsPlain (white : Char → Bool) (src : Source) : Prop :=
  ∀ l ∈ Anchor.lines src, Text.trimEnd white l.2 = Text.trimEnd Text.isSpace l.2

instance (white : Char → Bool) (src : Source) : Decidable (src.EndsPlain white) :=
  inferInstanceAs (Decidable (∀ l ∈ Anchor.lines src, _))

variable {src content : Source} {first : Nat}

theorem Source.EndsPlain.padding (h : src.EndsPlain Text.isBlank) :
    src.EndsPlain Text.isPadding := by
  intro l hl
  have hblank := Text.trimEnd_mono (fun c => @Text.isBlank_of_isPadding c) l.2
  have hspace := Text.trimEnd_mono (fun c => @Text.isPadding_of_isSpace c) l.2
  rw [h l hl] at hblank
  exact hspace.eq_of_length (Nat.le_antisymm hspace.length_le hblank.length_le)

/-- A row up to the end of a line that ends plainly is not all padding, unless it is all spaces and
tabs. -/
theorem ReachesEnd.exists_not_isPadding {body row : List Char} {c : Char} (h : ReachesEnd body row)
    (hends : Text.trimEnd Text.isPadding body = Text.trimEnd Text.isSpace body) (hc : c ∈ row)
    (hspace : Text.isSpace c = false) : ∃ d ∈ row, Text.isPadding d = false := by
  obtain ⟨n, u, rfl, x, rfl⟩ := h
  have hcu : c ∈ u := by
    rcases List.mem_append.mp hc with hc | hc
    · rw [List.eq_of_mem_replicate hc] at hspace
      cases hspace
    · exact hc
  apply Classical.byContradiction
  intro hno
  have hall : ∀ d ∈ u, Text.isPadding d = true := by
    intro d hd
    cases hp : Text.isPadding d with
    | true => rfl
    | false => exact absurd ⟨d, List.mem_append_right _ hd, hp⟩ hno
  obtain ⟨u₁, u₂, rfl⟩ := List.append_of_mem hcu
  have hlong := (Text.prefix_trimEnd (w := x ++ u₁) (u := u₂) hspace).length_le
  have hshort := (Text.trimEnd_isPrefix Text.isPadding x).length_le
  rw [List.append_assoc x u₁ (c :: u₂), ← hends, Text.trimEnd_white hall] at hlong
  simp only [List.length_append, List.length_singleton] at hlong
  omega

/-- **Each part of a running text is a piece of the row with its number**, if lines end plainly. -/
theorem Running.aligned (h : Running src content.toList first)
    (hends : src.EndsPlain Text.isPadding) {j inner : Nat} {part : List Char}
    (hpart : (Anchor.lines content)[j]? = some (inner, part)) :
    ∃ s body row, (Anchor.lines src)[first + j]? = some (s, body) ∧ IsRow src body row ∧
      part <:+: row := by
  obtain ⟨s, body, hline⟩ := h.exists_line (List.getElem?_eq_some_iff.mp hpart).1
  obtain ⟨rows, hcontent, hne, hrows, hfirst⟩ := h
  have hbreak := noBreak_of_rows hrows
  obtain ⟨row, rows, rfl⟩ := List.exists_cons_of_ne_nil hne
  have hpadding : rows ≠ [] → ∃ c ∈ row, Text.isPadding c = false := by
    intro hrest
    have hlt : 1 < (row :: rows).length := by
      have := List.length_pos_iff.mpr hrest
      rw [List.length_cons]
      omega
    obtain ⟨_, hr, c, hc, hspace⟩ := hfirst hlt
    cases hr
    obtain ⟨s, body, hline, -, hreach⟩ := hrows 0 row rfl
    exact (hreach hlt).exists_not_isPadding (hends _ (List.mem_of_getElem? hline)) hc hspace
  have hfront : content.toList <+: Text.unlines (row.dropWhile Text.isPadding :: rows) := by
    rw [hcontent, Text.trim, Text.dropWhile_unlines hpadding]
    exact Text.trimEnd_isPrefix _ _
  have hbreak' : ∀ r ∈ row.dropWhile Text.isPadding :: rows, '\n' ∉ r := by
    obtain ⟨hrow, hrest⟩ := List.forall_mem_cons.mp hbreak
    exact List.forall_mem_cons.mpr
      ⟨fun hm => hrow ((List.dropWhile_suffix _).subset hm), hrest⟩
  obtain ⟨row', hrow', hpre⟩ := Text.splitOn_isPrefix (List.cons_ne_nil _ _) hbreak' hfront
    (Anchor.getElem?_of_linesFrom hpart)
  cases j with
  | zero =>
    cases hrow'
    obtain ⟨s, body, hline, hrow, -⟩ := hrows 0 row rfl
    exact ⟨s, body, row, hline, hrow, hpre.isInfix.trans (List.dropWhile_suffix _).isInfix⟩
  | succ j =>
    obtain ⟨s, body, hline, hrow, -⟩ := hrows (j + 1) row' hrow'
    exact ⟨s, body, row', hline, hrow, hpre.isInfix⟩

theorem Running.getLast?_last (h : Running src content.toList first) {j inner : Nat}
    {part : List Char} {c : Char} (hpart : (Anchor.lines content)[j]? = some (inner, part))
    (hlast : j + 1 = (Text.splitOn '\n' content.toList).length) (hc : part.getLast? = some c) :
    Text.isPadding c = false := by
  obtain ⟨rows, hcontent, -⟩ := h
  obtain ⟨k, s, body, hk, hlen, hsize⟩ := Anchor.exists_last content
  rw [Anchor.lines, Anchor.length_linesFrom, ← hlast] at hlen
  cases Nat.succ.inj hlen
  rw [hk] at hpart
  cases hpart
  refine Text.getLast?_trimEnd (w := (Text.unlines rows).dropWhile Text.isPadding) ?_
  rw [← Text.trim, ← hcontent, List.getLast?_eq_getElem?, Array.length_toList]
  rw [List.getLast?_eq_getElem?] at hc
  have hpos := (List.getElem?_eq_some_iff.mp hc).1
  rw [← hc, ← (Anchor.lines_isLine hk).hasAt.getElem? hpos, Array.getElem?_toList]
  congr 1
  omega

/-! ### Places in order -/

namespace Anchor.OnLine

variable {o o' a a' start start' : Nat} {part part' line line' : List Char}

/-- Of two offsets in order, both are on one part, or the line of the first one ends before that of
the second one. -/
theorem same_or_before (ho : OnLine src content first o a part start line)
    (ho' : OnLine src content first o' a' part' start' line') (hle : o ≤ o') :
    (part' = part ∧ start' = start ∧ line' = line ∧ a ≤ a') ∨
      ∃ j inner body, (lines content)[j]? = some (inner, part) ∧
        (lines src)[first + j]? = some (start, body) ∧ line <+: body ∧
        start + body.length < start' := by
  obtain ⟨j, inner, body, hpart, rfl, ha, hline, rfl⟩ := ho
  obtain ⟨j', inner', body', hpart', rfl, ha', hline', rfl⟩ := ho'
  rcases Nat.lt_trichotomy j j' with hlt | rfl | hgt
  · exact .inr ⟨j, inner, body, hpart, hline, target_isPrefix _ _,
      lines_lt hline hline' (Nat.add_lt_add_left hlt first)⟩
  · rw [hpart] at hpart'
    cases hpart'
    rw [hline] at hline'
    cases hline'
    exact .inl ⟨rfl, rfl, rfl, Nat.le_of_add_le_add_left hle⟩
  · have := lines_lt hpart' hpart hgt
    omega

/-- **Offsets in order are located in order** if the part of the first one occurs on its line. -/
theorem locate_mono (ho : OnLine src content first o a part start line)
    (ho' : OnLine src content first o' a' part' start' line') (hle : o ≤ o')
    (hin : part <:+: line) :
    locate (ofText (lines src) content.toList first) o ≤
      locate (ofText (lines src) content.toList first) o' := by
  rw [ho.locate_eq, ho'.locate_eq]
  obtain ⟨rfl, rfl, rfl, ha⟩ | ⟨j, inner, body, -, -, hbody, hlt⟩ := ho.same_or_before ho' hle
  · exact Nat.add_le_add_left ha _
  · have hcol := column_add_le hin
    have hlen := hbody.length_le
    have ha := ho.le_length
    omega

/-- Offsets in order are located in order, but for a last character, if lines end plainly. -/
theorem locate_le (h : Running src content.toList first) (hends : src.EndsPlain Text.isPadding)
    (ho : OnLine src content first o a part start line)
    (ho' : OnLine src content first o' a' part' start' line') (hle : o ≤ o') :
    locate (ofText (lines src) content.toList first) o ≤
      locate (ofText (lines src) content.toList first) o' + 1 := by
  by_cases hin : part <:+: line
  · exact Nat.le_succ_of_le (ho.locate_mono ho' hle hin)
  rw [ho.locate_eq, ho'.locate_eq, column_of_not_isInfix hin]
  obtain ⟨rfl, rfl, rfl, ha⟩ | ⟨j, inner, body, hpart, hline, -, hlt⟩ := ho.same_or_before ho' hle
  · omega
  · -- the part is a piece of a row, and that is at most two longer than the line
    obtain ⟨s, body₀, row, hline₀, ⟨n, u, rfl, hu, hshort, -⟩, hrow⟩ := h.aligned hends hpart
    rw [hline] at hline₀
    cases hline₀
    have hlen := hrow.length_le
    rw [List.length_append, List.length_replicate] at hlen
    have ha := ho.le_length
    omega

/-- **Every part occurs on its line** where there are no tabs, no quotes and no odd white space at
the ends of lines. -/
theorem infix_line (h : Running src content.toList first) (hends : src.EndsPlain Text.isBlank)
    (htab : '\t' ∉ src.toList) (hquote : ¬ Block.HasQuote src)
    (ho : OnLine src content first o a part start line) : part <:+: line := by
  obtain ⟨j, inner, body, hpart, rfl, ha, hline, rfl⟩ := ho
  obtain ⟨s, body₀, row, hline₀, ⟨n, u, rfl, hu, -, hn⟩, hrow⟩ := h.aligned hends.padding hpart
  rw [hline] at hline₀
  cases hline₀
  have hbody : '\t' ∉ body := fun hm => htab (List.mem_of_mem_drop
    ((lines_isLine hline).hasAt.subset hm))
  have hn : n = 0 := by
    rcases hn with hn | hn | hn
    · exact hn
    · exact absurd hn hbody
    · exact absurd hn hquote
  subst hn
  have hin : part <:+: body := hrow.trans hu
  rw [target]
  split
  · next hlast =>
    rw [hends _ (List.mem_of_getElem? hline)]
    refine Text.infix_trimEnd hin fun c hc => ?_
    have hpad := h.getLast?_last hpart (of_decide_eq_true hlast) hc
    cases hspace : Text.isSpace c with
    | false => rfl
    | true =>
      rw [Text.isPadding_of_isSpace hspace] at hpad
      cases hpad
  · exact hin

end Anchor.OnLine

end MdxProse
