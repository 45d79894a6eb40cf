import MdxProse.Proofs.BlockElements

/-!
# Text between two lines of tags

`Word.wrap` puts a text between an opening tag and a closing tag that have their lines to
themselves.  A reader of blocks looks for the closing tag line by line.

* `Tag.Fixed.suffix_tail?`: a tag that starts before a tag at the end of the text does not take in
  part of it.  `Tag.Fixed.stop_le`: **a tag that starts before the last line ends before it.**
* `Line.tableFrom_append`: the lines of a text come before those of what is below it.
* `Wrapping.of_closingRun?`: **the closing tag is found on the last line, or before it, or not at
  all.**
* `Wrapping.readSource_eq`, `Wrapping.read_of_inside`: in the first case, **the text is read by
  itself**, as the content of one element.
-/

namespace MdxProse

/-! ### Tags before the last line -/

section Suffix

variable {α : Type} {s r w : List α} {c : α}

theorem suffix_of_cons_suffix (hs : s <:+ w) (hr : c :: r <:+ w) (hc : c ∉ s) : s <:+ r := by
  rcases List.suffix_or_suffix_of_suffix hs hr with h | h
  · rcases List.suffix_cons_iff.mp h with rfl | h
    · exact absurd List.mem_cons_self hc
    · exact h
  · exact absurd (h.subset List.mem_cons_self) hc

theorem suffix_of_suffix_cons (hs : s <:+ c :: w) (hc : s.head? ≠ some c) : s <:+ w := by
  rcases List.suffix_cons_iff.mp hs with rfl | h
  · exact absurd rfl hc
  · exact h

theorem suffix_dropWhile {p : α → Bool} (hs : s <:+ w) (hp : ∀ c ∈ s.head?, p c = false) :
    s <:+ w.dropWhile p := by
  induction w with
  | nil => exact hs
  | cons c w ih =>
    cases hc : p c with
    | false => rwa [List.dropWhile_cons_of_neg (by simp [hc])]
    | true =>
      rw [List.dropWhile_cons_of_pos hc]
      refine ih (suffix_of_suffix_cons hs fun h => ?_)
      rw [hp c h] at hc
      cases hc

end Suffix

theorem Attribute.suffix_quoted? {q : Char} {w r : List Char} (h : quoted? q w = some r) :
    q :: r <:+ w := by
  induction w with
  | nil => cases h
  | cons c w ih =>
    rw [quoted?] at h
    by_cases hc : (c == q) = true
    · rw [if_pos hc, Option.some.injEq] at h
      subst h
      obtain rfl := beq_iff_eq.mp hc
      exact List.suffix_refl _
    · rw [if_neg hc] at h
      exact (ih h).trans (List.suffix_cons c w)

theorem Expression.suffix_rest? {d : Int} {w r : List Char} (h : rest? d w = some r) :
    '}' :: r <:+ w := by
  have hlocal {f : List Char → Option (List Char)} (hf : Local f) {w r : List Char}
      (h : f w = some r) : r <:+ w := by
    obtain ⟨u, hu, -⟩ := hf w r h
    exact ⟨u, hu.symm⟩
  have hcons (c : Char) (w : List Char) : w <:+ c :: w := List.suffix_cons c w
  fun_induction rest? d w with
  | case1 | case3 | case6 => cases h
  | case2 d w w' hc ih =>
    exact ((ih h).trans (hlocal Comment.rest?_local hc)).trans ((hcons _ _).trans (hcons _ _))
  | case4 d w ih =>
    exact ((ih h).trans (List.dropWhile_suffix _)).trans ((hcons _ _).trans (hcons _ _))
  | case5 d c w _ _ _ w' hl ih =>
    exact ((ih h).trans (hlocal (Literal.rest?_local c) hl)).trans (hcons _ _)
  | case8 d c w _ _ _ _ hc _ =>
    cases h
    obtain rfl := beq_iff_eq.mp hc
    exact List.suffix_refl _
  | case7 _ _ _ _ _ _ _ ih | case9 _ _ _ _ _ _ _ _ _ ih | case10 _ _ _ _ _ _ _ _ ih =>
    exact (ih h).trans (hcons _ _)

/-- A text that starts with a bracket, and in which neither a string in quotes nor an expression
ends. -/
structure Tag.Fixed (s : List Char) : Prop where
  head : s.head? = some '<'
  plain : ∀ c ∈ s, c ≠ '"' ∧ c ≠ '\'' ∧ c ≠ '}'

theorem Sign.fixed (s : Sign) : Tag.Fixed s.spell := by
  refine ⟨by cases s <;> rfl, fun c hc => ?_⟩
  have := @Text.of_isPlain (fun c => c != '"' && c != '\'' && c != '}') (by decide +kernel) c
    (Sign.isPlain_of_mem hc)
  simpa [and_assoc] using this

namespace Tag.Fixed

variable {s w r : List Char}

theorem suffix_cons {c : Char} (h : Fixed s) (hs : s <:+ c :: w) (hc : c ≠ '<') : s <:+ w :=
  suffix_of_suffix_cons hs fun heq => hc (Option.some.inj (heq.symm.trans h.head))

theorem suffix_dropWhile {p : Char → Bool} (h : Fixed s) (hs : s <:+ w) (hp : p '<' = false) :
    s <:+ w.dropWhile p := by
  refine MdxProse.suffix_dropWhile hs fun c hc => ?_
  rw [h.head] at hc
  cases hc
  exact hp

theorem suffix_part? (h : Fixed s) (hs : s <:+ w) (hr : Name.part? w = some r) : s <:+ r := by
  cases w with
  | nil => cases hr
  | cons c w =>
    rw [Name.part?] at hr
    split at hr
    · next hc =>
      cases hr
      refine h.suffix_dropWhile (h.suffix_cons hs ?_) (by decide)
      rintro rfl
      cases hc
    · cases hr

theorem suffix_members (h : Fixed s) (hs : s <:+ w) : s <:+ Name.members w := by
  fun_induction Name.members w with
  | case1 | case3 | case4 => exact hs
  | case2 c w hc w' hp ih =>
    refine ih (h.suffix_part? (h.suffix_cons hs ?_) hp)
    rintro rfl
    cases hc

theorem suffix_name? (h : Fixed s) (hs : s <:+ w) (hr : Attribute.name? w = some r) :
    s <:+ r := by
  rw [Attribute.name?, Option.map_eq_some_iff] at hr
  obtain ⟨w', hw', rfl⟩ := hr
  have hs := h.suffix_part? hs hw'
  split
  · next w'' =>
    cases hp : Name.part? w'' with
    | none => exact hs
    | some r => exact h.suffix_part? (h.suffix_cons hs (by decide)) hp
  · exact hs

theorem suffix_expression (h : Fixed s) (hs : s <:+ w) {d : Int}
    (hr : Expression.rest? d w = some r) : s <:+ r :=
  suffix_of_cons_suffix hs (Expression.suffix_rest? hr) fun hc => (h.plain _ hc).2.2 rfl

theorem suffix_value? (h : Fixed s) (hs : s <:+ w) (hr : Attribute.value? w = some r) :
    s <:+ r := by
  cases w with
  | nil => cases hr
  | cons c w =>
    rw [Attribute.value?] at hr
    split at hr
    · next hc =>
      have hquote : c = '"' ∨ c = '\'' := by simpa using hc
      refine suffix_of_cons_suffix hs
        ((Attribute.suffix_quoted? hr).trans (List.suffix_cons c w)) fun hmem => ?_
      rcases hquote with rfl | rfl
      · exact (h.plain _ hmem).1 rfl
      · exact (h.plain _ hmem).2.1 rfl
    · split at hr
      · exact h.suffix_expression hs hr
      · cases hr

theorem suffix_attribute (h : Fixed s) (hs : s <:+ w) (hr : Attribute.rest? w = some r) :
    s <:+ r := by
  rw [Attribute.rest?] at hr
  split at hr
  · cases hr
  · next w' hn =>
    have hs : s <:+ w'.dropWhile Text.isGap :=
      h.suffix_dropWhile (h.suffix_name? hs hn) (by decide)
    split at hr
    · next w'' hd =>
      rw [hd] at hs
      exact h.suffix_value? (h.suffix_dropWhile (h.suffix_cons hs (by decide)) (by decide)) hr
    · cases hr
      exact hs

theorem suffix_tail? {closing bare : Bool} {f : TagForm} (h : Fixed s) (hs : s <:+ w)
    (hr : tail? closing bare w = some (f, r)) : s <:+ r := by
  have hgap {w : List Char} (hs : s <:+ w) : s <:+ w.dropWhile Text.isGap :=
    h.suffix_dropWhile hs (by decide)
  fun_induction tail? closing bare w with
  | case1 | case3 | case5 | case6 | case8 => cases hr
  | case2 w r' hd =>
    cases hr
    have hs := hgap hs
    rw [hd] at hs
    exact h.suffix_cons hs (by decide)
  | case4 w r' hd _ r'' hd' =>
    cases hr
    have hs := hgap hs
    rw [hd] at hs
    have hs := hgap (h.suffix_cons hs (by decide))
    rw [hd'] at hs
    exact h.suffix_cons hs (by decide)
  | case7 w c r' _ _ hd _ r'' h' ih =>
    have hs := hgap hs
    rw [hd] at hs
    refine ih ?_ hr
    split at h'
    · exact h.suffix_expression hs h'
    · exact h.suffix_attribute hs h'

theorem suffix_body? {closing : Bool} {n : Option String} {f : TagForm} (h : Fixed s)
    (hs : s <:+ w) (hr : body? closing w = some (n, f, r)) : s <:+ r := by
  have htail {bare : Bool} {w : List Char}
      {g : TagForm × List Char → Option String × TagForm × List Char} (hs : s <:+ w)
      (hg : ∀ x, (g x).2 = x) (hr : (tail? closing bare w).map g = some (n, f, r)) : s <:+ r := by
    obtain ⟨x, hx, he⟩ := Option.map_eq_some_iff.mp hr
    have hx' := hg x
    rw [he] at hx'
    subst hx'
    exact h.suffix_tail? hs hx
  unfold body? at hr
  cases hn : Name.rest? w with
  | some w' =>
    rw [hn] at hr
    rw [Name.rest?, Option.map_eq_some_iff] at hn
    obtain ⟨w'', hp, rfl⟩ := hn
    exact htail (h.suffix_members (h.suffix_part? hs hp)) (fun _ => rfl) hr
  | none =>
    rw [hn] at hr
    dsimp only at hr
    split at hr
    · exact htail hs (fun _ => rfl) hr
    · cases hr

theorem suffix_read? {n : Option String} {f : TagForm} (h : Fixed s) (hs : s <:+ w)
    (hr : read? ('<' :: w) = some (n, f, r)) : s <:+ r := by
  unfold read? at hr
  split at hr
  · next w' heq =>
    rw [(List.cons.inj heq).2] at hs
    exact h.suffix_body? (h.suffix_cons hs (by decide)) hr
  · next w' _ heq =>
    rw [(List.cons.inj heq).2] at hs
    exact h.suffix_body? hs hr
  · cases hr

/-- **A tag that starts before the last line ends before it**, if the last line is such a text. -/
theorem stop_le {src : Source} {pos limit : Nat} {t : Tag} (h : Fixed s)
    (hsrc : src.toList = w ++ '\n' :: s) (hpos : pos ≤ w.length)
    (ht : scan? src pos limit = some t) : t.span.stop ≤ w.length := by
  have hsize : src.size = w.length + 1 + s.length := by
    rw [← Array.length_toList, hsrc, List.length_append, List.length_cons]
    omega
  have hlt := has_lt_of_scan? ht
  have hgt := has_gt_of_scan? ht
  have hscan := scan?_size ht
  have hstart := (stop_of_scan? ht).1
  have hbreak : src[w.length]? = some '\n' := by
    rw [← Array.getElem?_toList, hsrc, List.getElem?_append_right (Nat.le_refl _), Nat.sub_self]
    rfl
  have hwindow : src.window pos src.size = '<' :: src.window (pos + 1) src.size :=
    Source.window_cons src hlt (by omega)
  have hsuffix : s <:+ src.window (pos + 1) src.size := by
    rw [Source.window_eq_take, List.take_of_length_le (by simp), hsrc]
    refine ⟨(w ++ ['\n']).drop (pos + 1), ?_⟩
    rw [← List.drop_append_of_le_length (by simp; omega)]
    simp
  simp only [scan?, Option.map_eq_some_iff, Prod.exists] at hscan
  obtain ⟨n, f, r, hr, rfl⟩ := hscan
  have hlen := src.length_window pos src.size
  rw [hwindow] at hr hlen hgt hstart ⊢
  have hsr := (h.suffix_read? hsuffix hr).length_le
  have hrlen := length_read?_lt hr
  dsimp only at hgt hstart ⊢
  -- what stands right before the last line is a line break, and no tag ends in that
  refine Nat.le_of_not_lt fun hgo => ?_
  have hend : pos + (('<' :: src.window (pos + 1) src.size).length - r.length) - 1 = w.length := by
    omega
  rw [hend, hbreak] at hgt
  cases hgt

theorem run_stop_le {src : Source} {pos limit stop : Nat} {ts : List Tag} (h : Fixed s)
    (hsrc : src.toList = w ++ '\n' :: s) (hpos : pos ≤ w.length)
    (hrun : run? src pos limit = some (ts, stop)) : stop ≤ w.length := by
  have hbreak : src.test Text.isSpace w.length = false := by
    rw [Source.test, ← Array.getElem?_toList, hsrc, List.getElem?_append_right (Nat.le_refl _),
      Nat.sub_self]
    rfl
  have hskip {p : Nat} (hp : p ≤ w.length) (hlimit : p ≤ limit) :
      src.skipWhile Text.isSpace p limit ≤ w.length := by
    by_cases hle : w.length ≤ limit
    · rw [Source.skipWhile_of_limit hp hle hbreak]
      exact Source.skipWhile_le hp
    · have := src.skipWhile_le hlimit (p := Text.isSpace)
      omega
  fun_induction run? src pos limit generalizing ts stop with
  | case1 | case4 => cases hrun
  | case2 pos t ht next =>
    cases hrun
    exact hskip (h.stop_le hsrc hpos ht) (stop_of_scan? ht).2
  | case3 pos t ht next =>
    rename_i ih
    obtain ⟨⟨us, stop'⟩, hus, he⟩ := Option.map_eq_some_iff.mp hrun
    cases he
    exact ih (hskip (h.stop_le hsrc hpos ht) (stop_of_scan? ht).2) hus

end Tag.Fixed

theorem Tag.InRow.of_mem {src : Source} {lo hi : Nat} {ts : List Tag} {t : Tag}
    (h : InRow src lo hi ts) (ht : t ∈ ts) :
    lo ≤ t.span.start ∧ scan? src t.span.start src.size = some t ∧ t.span.stop ≤ hi := by
  obtain ⟨before, after, rfl⟩ := List.append_of_mem ht
  obtain ⟨mid, hbefore, hmid, hscan, hafter⟩ := h.split
  have := hbefore.le
  have := hafter.le
  exact ⟨by omega, hscan, by omega⟩

/-! ### The lines of a wrapped text -/

theorem Anchor.linesFrom_append (w v : List Char) (pos : Nat) :
    linesFrom pos (Text.splitOn '\n' (w ++ '\n' :: v)) =
      linesFrom pos (Text.splitOn '\n' w) ++
        linesFrom (pos + w.length + 1) (Text.splitOn '\n' v) := by
  induction w using Text.split_induction '\n' generalizing pos with
  | single w hno =>
    rw [linesFrom_first hno, linesFrom_single hno]
    rfl
  | first u w hno ih =>
    have hpos : pos + (u ++ '\n' :: w).length + 1 = pos + u.length + 1 + w.length + 1 := by
      rw [List.length_append, List.length_cons]
      omega
    rw [List.append_assoc, List.cons_append, linesFrom_first hno, ih, linesFrom_first hno, hpos]
    rfl

namespace Block

/-- **The lines of a text come before those of what is below it.** -/
theorem Line.tableFrom_append (w v : List Char) (pos : Nat) : tableFrom pos (w ++ '\n' :: v) =
    (Anchor.linesFrom pos (Text.splitOn '\n' w)).map (fun l => ofBody l.1 l.2) ++
      tableFrom (pos + w.length + 1) v := by
  induction w using Text.split_induction '\n' generalizing pos with
  | single w hno =>
    rw [tableFrom_first hno, Anchor.linesFrom_single hno]
    rfl
  | first u w hno ih =>
    have hpos : pos + (u ++ '\n' :: w).length + 1 = pos + u.length + 1 + w.length + 1 := by
      rw [List.length_append, List.length_cons]
      omega
    rw [List.append_assoc, List.cons_append, tableFrom_first hno, ih, Anchor.linesFrom_first hno,
      List.map_cons, List.cons_append, hpos]

end Block

/-- The text between an opening and a closing tag, each with its line to itself. -/
def Word.wrap (n : Word) (w : List Char) : List Char :=
  (Sign.opening (some n)).spell ++ '\n' :: (w ++ '\n' :: (Sign.closing (some n)).spell)

namespace Block.Wrapping

/-- The document of a wrapped text. -/
def document (n : Word) (w : List Char) : Document :=
  .ofString (String.ofList (n.wrap w))

/-- The source of a wrapped text. -/
def source (n : Word) (w : List Char) : Source :=
  (n.wrap w).toArray

/-- The lines of a wrapped text. -/
def region (n : Word) (w : List Char) : Region :=
  .ofSource (source n w)

/-- Where the text starts that is wrapped. -/
def textStart (n : Word) : Nat :=
  (Sign.opening (some n)).spell.length + 1

/-- Where the last line starts. -/
def lastStart (n : Word) (w : List Char) : Nat :=
  textStart n + w.length + 1

/-- The number of the last line. -/
def last (w : List Char) : Nat :=
  w.count '\n' + 2

/-- The opening tag. -/
def opener (n : Word) : Tag :=
  (Sign.opening (some n)).tagAt 0

/-- The closing tag. -/
def closer (n : Word) (w : List Char) : Tag :=
  (Sign.closing (some n)).tagAt (lastStart n w)

variable {n : Word} {w : List Char}

theorem source_eq (n : Word) (w : List Char) : (source n w).toList =
    ((Sign.opening (some n)).spell ++ '\n' :: w) ++ '\n' :: (Sign.closing (some n)).spell := by
  simp [source, Word.wrap]

theorem size_source (n : Word) (w : List Char) :
    (source n w).size = lastStart n w + (Sign.closing (some n)).spell.length := by
  rw [← Array.length_toList, source_eq]
  simp only [List.length_append, List.length_cons, lastStart, textStart]
  omega

/-- **A text without carriage returns is wrapped as it is**, but for NULs. -/
theorem source_document (h : '\r' ∉ w) : (document n w).source = source n (replaceNul w) := by
  have hspell {s : Sign} {c : Char} (hc : Text.isPlain c = false) : c ∉ s.spell := fun hmem => by
    rw [Sign.isPlain_of_mem hmem] at hc
    cases hc
  have hbreak : '\r' ∉ n.wrap w := by
    have ho : '\r' ∉ (Sign.opening (some n)).spell := hspell (by decide)
    have hc : '\r' ∉ (Sign.closing (some n)).spell := hspell (by decide)
    simp [Word.wrap, h, ho, hc]
  have hwrap : replaceNul (n.wrap w) = n.wrap (replaceNul w) := by
    have hsign (s : Sign) : replaceNul s.spell = s.spell := replaceNul_eq (hspell (by decide))
    have happend (a b : List Char) : replaceNul (a ++ b) = replaceNul a ++ replaceNul b :=
      List.map_append
    have hcons (a : List Char) : replaceNul ('\n' :: a) = '\n' :: replaceNul a := rfl
    rw [Word.wrap, Word.wrap, happend, hcons, happend, hcons, hsign, hsign]
  rw [document, Document.source_replaceNul hbreak, hwrap, source]

theorem hasAt_text (n : Word) (w : List Char) : (source n w).HasAt (textStart n) w := by
  refine ⟨'\n' :: (Sign.closing (some n)).spell, ?_⟩
  rw [source, Word.wrap, textStart]
  simp

theorem lines_source (n : Word) (w : List Char) : Anchor.lines (source n w) =
    (0, (Sign.opening (some n)).spell) :: (Anchor.linesFrom (textStart n) (Text.splitOn '\n' w) ++
      [(lastStart n w, (Sign.closing (some n)).spell)]) := by
  have hno (s : Sign) : '\n' ∉ s.spell := Row.noBreak (.tag s)
  show Anchor.linesFrom 0 (Text.splitOn '\n' (n.wrap w)) = _
  rw [Word.wrap, Anchor.linesFrom_first (hno _), Anchor.linesFrom_append,
    Anchor.linesFrom_single (hno _), Nat.zero_add]
  rfl

/-- **The table lists all lines**: the opening tag, those of the text, and the closing tag. -/
theorem toList_lines (n : Word) (w : List Char) : (region n w).lines.toList =
    (Anchor.lines (source n w)).map fun l => Line.ofBody l.1 l.2 := by
  have hno (s : Sign) : '\n' ∉ s.spell := Row.noBreak (.tag s)
  have hlast : ((Sign.closing (some n)).spell.all Text.isSpace) = false := rfl
  rw [lines_source, List.map_cons, List.map_append]
  show Line.tableFrom 0 (n.wrap w) = _
  rw [Word.wrap, Line.tableFrom_first (hno _), Line.tableFrom_append,
    Line.tableFrom_single (hno _), hlast, if_neg Bool.false_ne_true, Nat.zero_add]
  rfl

theorem size_lines (n : Word) (w : List Char) : (region n w).lines.size = last w + 1 := by
  rw [← Array.length_toList, toList_lines, lines_source, List.length_map, List.length_cons,
    List.length_append, Anchor.length_linesFrom, Text.length_splitOn]
  rfl

theorem height (n : Word) (w : List Char) : (region n w).height = last w + 1 :=
  size_lines n w

theorem line_eq {k s : Nat} {body : List Char}
    (h : (Anchor.lines (source n w))[k]? = some (s, body)) :
    (region n w).line k = Line.ofBody s body := by
  rw [Region.line, ← Array.getElem?_toList, toList_lines, List.getElem?_map, h]
  rfl

theorem shows_tag {k s : Nat} {t : Sign}
    (h : (Anchor.lines (source n w))[k]? = some (s, t.spell)) :
    (region n w).Shows k s (.tag t) :=
  ⟨line_eq h, (Anchor.lines_isLine h).hasAt, (Anchor.lines_isLine h).stop⟩

theorem shows_first (n : Word) (w : List Char) :
    (region n w).Shows 0 0 (.tag (.opening (some n))) :=
  shows_tag (by rw [lines_source]; rfl)

theorem getElem?_last (n : Word) (w : List Char) : (Anchor.lines (source n w))[last w]? =
    some (lastStart n w, (Sign.closing (some n)).spell) := by
  have hlength : (Anchor.linesFrom (textStart n) (Text.splitOn '\n' w)).length =
      w.count '\n' + 1 := by
    rw [Anchor.length_linesFrom, Text.length_splitOn]
  rw [lines_source, last, List.getElem?_cons_succ,
    List.getElem?_append_right (Nat.le_of_eq hlength), hlength, Nat.sub_self]
  rfl

theorem shows_last (n : Word) (w : List Char) :
    (region n w).Shows (last w) (lastStart n w) (.tag (.closing (some n))) :=
  shows_tag (getElem?_last n w)

theorem getElem?_succ {k s : Nat} {body : List Char}
    (h : (Anchor.linesFrom (textStart n) (Text.splitOn '\n' w))[k]? = some (s, body)) :
    (Anchor.lines (source n w))[k + 1]? = some (s, body) := by
  rw [lines_source, List.getElem?_cons_succ,
    List.getElem?_append_left (List.getElem?_eq_some_iff.mp h).1, h]

/-- **Every line between is one of the text.** -/
theorem exists_line {i : Nat} (h₁ : 1 ≤ i) (h₂ : i < last w) : ∃ s body,
    (Anchor.linesFrom (textStart n) (Text.splitOn '\n' w))[i - 1]? = some (s, body) ∧
      (region n w).line i = Line.ofBody s body ∧ (source n w).IsLine s body := by
  have hlt : i - 1 < (Anchor.linesFrom (textStart n) (Text.splitOn '\n' w)).length := by
    rw [Anchor.length_linesFrom, Text.length_splitOn]
    rw [last] at h₂
    omega
  rcases hl : (Anchor.linesFrom (textStart n) (Text.splitOn '\n' w))[i - 1] with ⟨s, body⟩
  have hget := List.getElem?_eq_some_iff.mpr ⟨hlt, hl⟩
  have hline := getElem?_succ hget
  rw [Nat.sub_add_cancel h₁] at hline
  exact ⟨s, body, hget, line_eq hline, Anchor.lines_isLine hline⟩

theorem lineText_ofBody {r : Region} {i s : Nat} {body : List Char}
    (hline : r.line i = Line.ofBody s body) (hat : r.src.HasAt s body) :
    r.lineText i = body.dropWhile Text.isSpace := by
  have hlead := List.takeWhile_append_dropWhile (p := Text.isSpace) (l := body)
  rw [← hlead, Source.hasAt_append] at hat
  have hstart : (r.line i).start = s + (body.takeWhile Text.isSpace).length := by
    rw [hline]
    rfl
  have hstop : (r.line i).stop = s + (body.takeWhile Text.isSpace).length +
      (body.dropWhile Text.isSpace).length := by
    rw [hline, Nat.add_assoc, ← List.length_append, hlead]
    rfl
  rw [Region.lineText, hstart, hstop]
  exact hat.2.window_eq

theorem limit_eq (n : Word) (w : List Char) :
    (region n w).limit (last w + 1) = (source n w).size := by
  rw [size_source]
  exact (shows_last n w).line_stop

theorem stop_le {i : Nat} (h : i < last w) :
    ((region n w).line i).stop ≤ textStart n + w.length := by
  have hlt := (Region.sound_ofSource (source n w)).line_lt h
    (Nat.lt_of_lt_of_eq (Nat.lt_succ_self _) (height n w).symm)
  have hfirst : ((region n w).line (last w)).first = lastStart n w := by
    rw [(shows_last n w).line]
    rfl
  have hlt : ((region n w).line i).stop < ((region n w).line (last w)).first := hlt
  rw [hfirst, lastStart] at hlt
  omega

theorem stop_eq (n : Word) (w : List Char) :
    ((region n w).line (last w - 1)).stop = textStart n + w.length := by
  obtain ⟨s, body, hget, hline, -⟩ := exists_line (n := n) (w := w) (i := last w - 1)
    (Nat.succ_le_succ (Nat.zero_le _)) (Nat.lt_succ_self _)
  have hnext := getElem?_last n w
  have hlast := Anchor.lines_succ (getElem?_succ hget) hnext
  rw [hline]
  show s + body.length = _
  rw [lastStart] at hlast
  omega

theorem start_le {i : Nat} (h : i < last w) :
    ((region n w).line i).start ≤ textStart n + w.length := by
  obtain ⟨_, _, _, hin⟩ := (Region.sound_ofSource (source n w)).inside
    (Nat.lt_of_lt_of_eq (Nat.lt_succ_of_lt h) (height n w).symm)
  exact Nat.le_trans hin.start (stop_le h)

/-! ### The search for the closing tag -/

theorem run_stop_le {i stop : Nat} {ts : List Tag} (hi : i < last w)
    (h : Tag.run? (source n w) ((region n w).line i).start (source n w).size = some (ts, stop)) :
    stop ≤ textStart n + w.length := by
  have hlen : ((Sign.opening (some n)).spell ++ '\n' :: w).length = textStart n + w.length := by
    simp only [List.length_append, List.length_cons, textStart]
    omega
  have hfixed := (Sign.closing (some n)).fixed
  rw [← hlen]
  exact hfixed.run_stop_le (source_eq n w) (hlen ▸ start_le hi) h

/-- **A run of tags on a line before the last one** that holds a closing tag. -/
theorem of_closingRun? {inner i : Nat} {name : Option String} {fence : Option (Char × Nat)}
    {run : Element.ClosingRun}
    (h : Element.closingRun? (region n w) name (last w + 1) inner fence i = some run) :
    (run.line < last w ∧ run.closer.form = .closing ∧ run.closer.name = name ∧
      ((region n w).line run.line).start ≤ run.closer.span.start ∧
      Tag.scan? (source n w) run.closer.span.start (source n w).size = some run.closer ∧
      run.closer.span.stop ≤ textStart n + w.length) ∨
    run = ⟨last w, [], closer n w, [], (source n w).size⟩ := by
  obtain ⟨-, hlt, hrun, hform, hname, -⟩ := Element.closingRun?_spec h
  rw [limit_eq] at hrun
  rcases Nat.eq_or_lt_of_le (Nat.le_of_lt_succ hlt) with hlast | hlt
  · right
    have hown := (shows_last n w).run? (Nat.le_of_eq (size_source n w).symm) (Nat.le_refl _)
    rw [← size_source] at hown
    obtain ⟨line, before, c, after, stop⟩ := run
    dsimp only at hlast hrun
    subst hlast
    obtain ⟨hts, hstop⟩ := Prod.mk.inj (Option.some.inj (hrun.symm.trans hown))
    obtain ⟨rfl, rfl, rfl⟩ : before = [] ∧ c = closer n w ∧ after = [] := by
      cases before with
      | nil => exact ⟨rfl, List.cons.inj hts⟩
      | cons t before => simp at hts
    rw [hstop]
  · left
    obtain ⟨-, hrow, -, -⟩ := Tag.run?_spec hrun
    obtain ⟨hstart, hscan, hstop⟩ := hrow.of_mem
      (List.mem_append_right run.before List.mem_cons_self)
    exact ⟨hlt, hform, hname, hstart, hscan, Nat.le_trans hstop (run_stop_le hlt hrun)⟩

theorem closingRun?_last (n : Word) (w : List Char) :
    Element.closingRun? (region n w) (opener n).name (last w + 1) 0 none (last w) =
      some ⟨last w, [], closer n w, [], (source n w).size⟩ := by
  have hlimit := limit_eq n w
  rw [size_source n w]
  exact (shows_last n w).closingRun?_found (Nat.lt_succ_self _)
    (Nat.le_of_eq ((size_source n w).symm.trans hlimit.symm)) (Nat.le_of_eq hlimit)
    (by simp [Element.findIn, Sign.tagAt, Sign.name?, Sign.form, opener])

/-! ### Reading -/

/-- The closing tag that is looked for is found on the last line. -/
def Closes (n : Word) (w : List Char) : Prop :=
  Element.closingRun? (region n w) (opener n).name (last w + 1) 0 none 1 =
    some ⟨last w, [], closer n w, [], (source n w).size⟩

/-- The search goes on below the line as it came there, with nothing open. -/
def Passes (n : Word) (w : List Char) (i : Nat) : Prop :=
  (region n w).isEmpty i = true ∨
    Fence.mark? ((region n w).lineText i) = none ∧
      ∀ ts stop, Tag.run? (source n w) ((region n w).line i).start (source n w).size =
        some (ts, stop) → Element.findIn (opener n).name 0 ts = .inr 0

/-- **If all lines of the text are passed, the closing tag is found on the last line.** -/
theorem closes_of_passes (h : ∀ i, 1 ≤ i → i < last w → Passes n w i) : Closes n w := by
  suffices hfrom : ∀ i, 1 ≤ i → i ≤ last w →
      Element.closingRun? (region n w) (opener n).name (last w + 1) 0 none i =
        some ⟨last w, [], closer n w, [], (source n w).size⟩ from
    hfrom 1 (Nat.le_refl 1) (Nat.succ_le_succ (Nat.zero_le _))
  intro i h₁ hle
  -- on the lines that are left: a run of tags may take several of them
  induction hk : last w - i using Nat.strongRecOn generalizing i with
  | ind k ih =>
  rcases Nat.eq_or_lt_of_le hle with rfl | hlt
  · exact closingRun?_last n w
  have hgo {j : Nat} (hij : i < j) (hj : j ≤ last w) :
      Element.closingRun? (region n w) (opener n).name (last w + 1) 0 none j =
        some ⟨last w, [], closer n w, [], (source n w).size⟩ :=
    ih (last w - j) (by omega) j (by omega) hj rfl
  rw [Element.closingRun?, if_pos (Nat.lt_succ_of_lt hlt), limit_eq]
  rcases h i h₁ hlt with hempty | ⟨hmark, hfind⟩
  · rw [if_pos hempty]
    exact hgo (Nat.lt_succ_self i) hlt
  · split
    · exact hgo (Nat.lt_succ_self i) hlt
    · dsimp only
      rw [hmark]
      dsimp only
      cases hrun : Tag.run? (region n w).src ((region n w).line i).start (source n w).size with
      | none => exact hgo (Nat.lt_succ_self i) hlt
      | some found =>
        obtain ⟨ts, stop⟩ := found
        have hstop := run_stop_le hlt hrun
        rw [← stop_eq n w] at hstop
        obtain ⟨-, hreach, -⟩ := (region n w).lineReaching_spec (i := i) (j := last w - 1)
          (Nat.le_pred_of_lt hlt) (by rw [size_lines]; omega) hstop
        dsimp only
        rw [hfind ts stop hrun]
        exact hgo (by omega) (by omega)

theorem shape?_first (n : Word) (w : List Char) : Element.shape? (region n w) 0 (last w + 1) =
    some (.open_ (opener n) (opener n).span.stop) := by
  have hfirst := shows_first n w
  have hle : 0 + (Sign.opening (some n)).spell.length ≤ (region n w).limit (last w + 1) := by
    rw [limit_eq, size_source, lastStart, textStart]
    omega
  have hempty : ((region n w).line 0).isEmpty = false := hfirst.isEmpty
  rw [Element.shape?, hempty, hfirst.run? hle (Nat.le_of_eq (limit_eq n w))]
  rfl

theorem readBlock_first (n : Word) (w : List Char) (one two : Reader) :
    readBlock one two (region n w) 0 (last w + 1) =
      match Element.closingRun? (region n w) (opener n).name (last w + 1) 0 none 1 with
      | none => .error ⟨.unclosedTag ((source n w).cover (opener n).span), some 1⟩
      | some run => Element.readClosed one (region n w) (opener n) 0 1 run := by
  obtain ⟨u, hu, hholds⟩ := (shows_first n w).tag_holds
  have hdash : (region n w).src.has '-' 0 = false := hholds.has (by decide)
  have hreach : (region n w).lineReaching (opener n).span.stop 0 = 0 :=
    Region.lineReaching_self (Nat.le_of_eq (shows_first n w).line_stop.symm)
  rw [readBlock_tags hdash (shape?_first n w), Element.read, hreach]
  rfl

theorem readSource_source (n : Word) (w : List Char) : readSource (source n w) =
    (readBlocks (readBlock (read 19) (read 18)) (region n w) (last w + 1) false true 0).bind
      fun c => .ok c.toOutcome := by
  rw [← height n w]
  rfl

theorem skipEmpty_zero (n : Word) (w : List Char) : (region n w).skipEmpty 0 = 0 :=
  Region.skipEmpty_of_isEmpty_eq_false (shows_first n w).isEmpty

theorem indent_zero (n : Word) (w : List Char) :
    (region n w).indent ≤ ((region n w).line 0).indent := by
  obtain ⟨u, -, hholds⟩ := (shows_first n w).tag_holds
  exact Int.le_of_eq hholds.indent.symm

theorem readSource_error {e : SyntaxError}
    (h : readBlock (read 19) (read 18) (region n w) 0 (last w + 1) = .error e) :
    readSource (source n w) = .error e := by
  have hskip := skipEmpty_zero n w
  rw [readSource_source, readBlocks_error (by rw [hskip]; exact Nat.succ_pos _)
    (by rw [hskip]; exact indent_zero n w) (by rw [hskip]; exact h)]
  rfl

/-- After the block that starts on the first line, the lines below are read. -/
theorem readSource_ok {o : Outcome} (hnext : 0 < o.next)
    (h : readBlock (read 19) (read 18) (region n w) 0 (last w + 1) = .ok o) :
    ∃ blank tight, readSource (source n w) =
      (readBlocks (readBlock (read 19) (read 18)) (region n w) (last w + 1) blank tight
        (passEmpty (region n w) (last w + 1) o.next)).bind fun c =>
          .ok ⟨o.events ++ c.events, o.definitions ++ c.definitions, c.next⟩ := by
  rw [← height n w] at h ⊢
  exact readSource_first h (height n w ▸ Nat.succ_pos _) (shows_first n w).isEmpty hnext

theorem readSource_unclosed
    (h : Element.closingRun? (region n w) (opener n).name (last w + 1) 0 none 1 = none) :
    readSource (source n w) =
      .error ⟨.unclosedTag ((source n w).cover (opener n).span), some 1⟩ := by
  apply readSource_error
  rw [readBlock_first, h]

/-- **Where the closing tag is found on the last line, the text is read by itself**, as the content
of one element. -/
theorem readSource_eq (h : Closes n w) : readSource (source n w) =
    (readInside (read 19) (region n w) 1 (last w)).bind fun o => .ok ⟨Event.around
      (.flowElement (opener n).name ⟨0, (source n w).size⟩) (some ⟨0, last w + 1⟩) o.events,
      o.definitions, last w + 1⟩ := by
  have hend : ((region n w).line (last w)).stop = (source n w).size :=
    (shows_last n w).line_stop.trans (size_source n w).symm
  have hspan : (closer n w).span = ⟨lastStart n w, (source n w).size⟩ :=
    congrArg (Span.mk _) (size_source n w).symm
  have hblock := readBlock_first n w (read 19) (read 18)
  rw [h] at hblock
  dsimp only at hblock
  rw [readClosed_eq _ _ _ (by rw [hend, hspan, size_source]; exact Nat.le_add_right _ _)
    (Nat.le_of_eq hend.symm), hspan] at hblock
  cases hread : readInside (read 19) (region n w) 1 (last w) with
  | error e =>
    rw [hread] at hblock
    exact readSource_error hblock
  | ok o =>
    rw [hread] at hblock
    have hskip := skipEmpty_zero n w
    have hlt : (region n w).skipEmpty 0 < last w + 1 := by
      rw [hskip]
      exact Nat.succ_pos _
    obtain ⟨tight, honly⟩ := readBlocks_only hlt (by rw [hskip]; exact indent_zero n w)
      (by rw [hskip]; exact hblock) rfl false true
    rw [readSource_source, honly, List.append_nil]
    rfl

/-- **Where the closing tag is found on the last line**, the document is one element, which holds
what was read of the text. -/
theorem read_of_inside {d : Document} {o : Outcome} {es : List Event} {cs : List Node}
    (hd : d.source = source n w) (hcloses : Closes n w)
    (ho : readInside (read 19) (region n w) 1 (last w) = .ok o)
    (hes : o.events.mapM (Document.fill (Anchor.lines (source n w)) o.definitions) = .ok es)
    (hwalk : Walk es cs) : d.read = .ok (.mk .root none
      [.mk (.flowElement (opener n).name ⟨0, (source n w).size⟩) (some ⟨0, last w + 1⟩) cs]) := by
  have hread := (congrArg readSource hd).trans (readSource_eq hcloses)
  rw [ho] at hread
  have hevents : d.events = .ok (Event.around (.flowElement (opener n).name
      ⟨0, (source n w).size⟩) (some ⟨0, last w + 1⟩) es) := by
    rw [Document.events, hread, hd]
    exact Traces.fill_single hes
  exact Document.read_eq hevents hwalk.single

/-- **Where the closing tag is found before the last line, an element ends there.** -/
theorem exists_of_closes_early {run : Element.ClosingRun} {o : Outcome}
    (hrun : Element.closingRun? (region n w) (opener n).name (last w + 1) 0 none 1 = some run)
    (ho : readSource (source n w) = .ok o) : ∃ lines es,
      o.events = .enter (.flowElement (opener n).name ⟨0, run.closer.span.stop⟩) lines :: es := by
  have hblock := readBlock_first n w (read 19) (read 18)
  rw [hrun] at hblock
  dsimp only at hblock
  cases hread : Element.readClosed (read 19) (region n w) (opener n) 0 1 run with
  | error e =>
    rw [hread] at hblock
    cases (readSource_error hblock).symm.trans ho
  | ok b =>
    rw [hread] at hblock
    obtain ⟨children, -, hevents, hnext⟩ := Element.readClosed_inv hread
    obtain ⟨blank, tight, hsource⟩ := readSource_ok (hnext ▸ Nat.succ_pos _) hblock
    rw [hsource] at ho
    obtain ⟨c, -, hc⟩ := Except.bind_eq_ok.mp ho
    cases hc
    rw [hevents]
    exact ⟨_, _, rfl⟩

/-! ### The inside of the element -/

/-- The region inside the element, if the text is not indented. -/
def inside (n : Word) (w : List Char) : Region :=
  { region n w with height := last w, indent := 0, isTop := false }

theorem sound_inside (n : Word) (w : List Char) : (inside n w).Sound (source n w) :=
  (Region.sound_ofSource (source n w)).narrow
    (Nat.le_of_lt (Nat.lt_of_lt_of_eq (Nat.lt_succ_self _) (height n w).symm))
    (by decide : (-1 : Int) ≤ 0) fun h => absurd h (Int.lt_irrefl 0)

theorem readInside_eq (h : Element.leastIndent? (region n w) 1 (last w) = some 0) :
    readInside (read 19) (region n w) 1 (last w) =
      (readBlocks (readBlock (read 18) (read 17)) (inside n w) (last w) false true 1).bind
        fun c => .ok c.toOutcome := by
  rw [readInside, h]
  rfl

theorem indent_nonneg (n : Word) (w : List Char) {i : Nat} (hi : i ≤ last w) :
    0 ≤ ((region n w).line i).indent := by
  obtain ⟨s, body, -, hline⟩ := Region.line_ofSource (source n w) (k := i)
    (Nat.lt_of_lt_of_eq (Nat.lt_succ_of_le hi) (height n w).symm)
  have hline : (region n w).line i = Line.ofBody s body := hline
  rw [hline]
  exact Line.le_columns 0 0 _

theorem holds_text {c : Char} (hc : Text.isGap c = false) (n : Word) (w : List Char) :
    ∃ u, (region n (c :: w)).Holds 1 (textStart n) (c :: u) := by
  have hne : c ≠ '\n' := by
    rintro rfl
    cases hc
  have hspace : Text.isSpace c = false := by
    rw [Text.isGap, Bool.or_eq_false_iff] at hc
    exact hc.1
  obtain ⟨u, rest, hsplit⟩ := Text.exists_splitOn_cons hne w
  have hu : (Anchor.linesFrom (textStart n) (Text.splitOn '\n' (c :: w)))[0]? =
      some (textStart n, c :: u) := by
    rw [hsplit]
    rfl
  have hline := getElem?_succ hu
  exact ⟨u, (line_eq hline).trans (Line.ofBody_of_head hspace _ _),
    (Anchor.lines_isLine hline).hasAt⟩

end Block.Wrapping

namespace Block.Element

variable {r : Region} {i k past : Nat}

theorem nonneg_of_leastIndent? (hnonneg : ∀ j, i ≤ j → j < past → 0 ≤ (r.line j).indent) {m : Int}
    (h : leastIndent? r i past = some m) : 0 ≤ m := by
  fun_induction leastIndent? r i past generalizing m with
  | case1 =>
    rename_i ih
    exact ih (fun j hj => hnonneg j (Nat.le_of_succ_le hj)) h
  | case2 j hlt _ _ m' hm' =>
    rename_i ih
    cases h
    exact Int.le_min.mpr ⟨hnonneg j (Nat.le_refl j) hlt,
      ih (fun k hk => hnonneg k (Nat.le_of_succ_le hk)) hm'⟩
  | case3 j hlt =>
    cases h
    exact hnonneg j (Nat.le_refl j) hlt
  | case4 => cases h

/-- **A line of text without indentation is the least indented one**, if none is indented to the
left. -/
theorem leastIndent?_eq_zero (hnonneg : ∀ j, i ≤ j → j < past → 0 ≤ (r.line j).indent)
    (hik : i ≤ k) (hk : k < past) (htext : r.isEmpty k = false)
    (hindent : (r.line k).indent = 0) : leastIndent? r i past = some 0 := by
  induction hd : k - i generalizing i with
  | zero =>
    obtain rfl : i = k := by omega
    rw [leastIndent?, if_pos hk, htext, hindent]
    have hrest {m : Int} (h : leastIndent? r (i + 1) past = some m) : 0 ≤ m :=
      nonneg_of_leastIndent? (fun j hj => hnonneg j (Nat.le_of_succ_le hj)) h
    cases hm : leastIndent? r (i + 1) past with
    | none => rfl
    | some m =>
      show some (min 0 m) = some 0
      rw [Int.min_eq_left (hrest hm)]
  | succ d ih =>
    rw [leastIndent?, if_pos (by omega),
      ih (fun j hj => hnonneg j (Nat.le_of_succ_le hj)) (by omega) (by omega)]
    cases r.isEmpty i with
    | true => rfl
    | false =>
      show some (min (r.line i).indent 0) = some 0
      rw [Int.min_eq_right (hnonneg i (Nat.le_refl i) (by omega))]

end Block.Element

end MdxProse
