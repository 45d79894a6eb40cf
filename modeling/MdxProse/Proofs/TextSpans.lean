import MdxProse.Proofs.Alignment
import MdxProse.Proofs.DocumentTree

/-!
# The spans of code in running text

Code in running text is located in the document line by line, and its span is exact as far as the
lines of the running text occur on the lines of the document they are looked up on.

* `Anchor.Kept`: an offset of the running text is on a line that occurs in the document; if not,
  what is expected at its place has to hold there by chance.
* `Running.kept_of_plain`: **without tabs, quotes and odd white space at the ends of lines all lines
  do.**
* `span_exact_iff_kept`: **exactly then the span covers the expression**, or starts and ends with
  the tags of the element.
* `span_inexact_after_tab`: a tab that is cut in the middle makes a span inexact.
-/

namespace MdxProse

namespace Anchor

/-- The offset `o` of the running text `content` is on a part that occurs on the line of the
document it is looked up on; or `P` happens to hold as far from the start of that line as the offset
is from the start of the part. -/
def Kept (src content : Source) (first o : Nat) (P : Nat → Prop) : Prop :=
  ∃ a part start line, OnLine src content first o a part start line ∧
    (part <:+: line ∨ P (start + a))

end Anchor

variable {src content : Source} {first o : Nat} {w : List Char} {P : Nat → Prop}

/-- **What holds where a text of one line stands holds where it is located exactly if that is
kept.** -/
theorem Running.locate_iff_kept (h : Running src content.toList first) (ho : o ≤ content.size)
    (hw : content.HasAt o w) (hno : '\n' ∉ w) (hP : ∀ pos, src.HasAt pos w → P pos) :
    P (Anchor.locate (Anchor.ofText (Anchor.lines src) content.toList first) o) ↔
      Anchor.Kept src content first o P := by
  constructor
  · intro hat
    obtain ⟨a, part, start, line, hon⟩ := h.exists_onLine ho
    exact ⟨a, part, start, line, hon, (hon.locate_iff hw hno hP).mp hat⟩
  · rintro ⟨a, part, start, line, hon, hkept⟩
    exact (hon.locate_iff hw hno hP).mpr hkept

/-- **Everything is kept** where there are no tabs, no quotes and no odd white space at the ends of
lines. -/
theorem Running.kept_of_plain (h : Running src content.toList first)
    (hends : src.EndsPlain Text.isBlank) (htab : '\t' ∉ src.toList)
    (hquote : ¬ Block.HasQuote src) (ho : o ≤ content.size) (P : Nat → Prop) :
    Anchor.Kept src content first o P := by
  obtain ⟨a, part, start, line, hon⟩ := h.exists_onLine ho
  exact ⟨a, part, start, line, hon, .inl (hon.infix_line h hends htab hquote)⟩

theorem Running.locate_add (h : Running src content.toList first) {d : Nat} (ho : o ≤ content.size)
    (hw : content.HasAt o w) (hno : '\n' ∉ w) (hd : d ≤ w.length) :
    Anchor.locate (Anchor.ofText (Anchor.lines src) content.toList first) (o + d) =
      Anchor.locate (Anchor.ofText (Anchor.lines src) content.toList first) o + d := by
  obtain ⟨a, part, start, line, hon⟩ := h.exists_onLine ho
  have hlen := (hon.prefix_of_hasAt hw hno).length_le
  have hle := hon.le_length
  rw [List.length_drop] at hlen
  rw [hon.locate_eq, (hon.add (d := d) (by omega)).locate_eq]
  omega

/-- The opening tag of an element, and the bracket at its end. -/
theorem Kind.Embedded.element {n : Option String} {s : Span}
    (h : (Kind.textElement n s).Embedded content) :
    ∃ t, Tag.scan? content s.start content.size = some t ∧ t.name = n ∧ t.form ≠ .closing ∧
      content[s.stop - 1]? = some '>' := by
  cases h with
  | @single t h => exact ⟨t, h.scan, rfl, by simp [h.form], Tag.has_gt_of_scan? h.scan⟩
  | @pair o c h => exact ⟨o, h.opener, rfl, by simp [h.opening], Tag.has_gt_of_scan? h.closer⟩

theorem Source.cover_eq_iff {pos : Nat} :
    src.cover ⟨pos, pos + w.length⟩ = String.ofList w ↔ src.HasAt pos w := by
  rw [Source.hasAt_iff_window_eq, Source.cover, Source.slice, String.ofList_inj]

theorem Source.toList_cover (src : Source) (s : Span) :
    (src.cover s).toList = src.window s.start s.stop :=
  String.toList_ofList

theorem Running.locate_stop (h : Running src content.toList first) (hw : content.HasAt o w)
    (hno : '\n' ∉ w) (hne : w ≠ []) :
    Anchor.locate (Anchor.ofText (Anchor.lines src) content.toList first) (o + w.length - 1) + 1 =
      Anchor.locate (Anchor.ofText (Anchor.lines src) content.toList first) o + w.length := by
  have hpos := List.length_pos_iff.mpr hne
  have hsize := hw.le_size hne
  have := h.locate_add (d := w.length - 1) (by omega) hw hno (Nat.sub_le _ _)
  rw [show o + w.length - 1 = o + (w.length - 1) by omega, this]
  omega

/-- **The span of an expression on one line covers it exactly if it is kept.** -/
theorem Running.cover_eq_iff_kept (h : Running src content.toList first) {s : Span}
    (hstop : Expression.stop? content s.start content.size = some s.stop)
    (hno : '\n' ∉ (content.cover s).toList) :
    src.cover (Anchor.locateSpan (Anchor.ofText (Anchor.lines src) content.toList first) s) =
        content.cover s ↔
      Anchor.Kept src content first s.start fun pos => src.HasAt pos (content.cover s).toList := by
  have hlt := Expression.lt_of_stop? hstop
  have hsize := Expression.stop_le_size hstop
  rw [Source.toList_cover] at hno ⊢
  have hw := Source.hasAt_window content s.start s.stop
  have hlen : (content.window s.start s.stop).length = s.stop - s.start := by
    rw [Source.length_window]
    omega
  have hne : content.window s.start s.stop ≠ [] := by
    rw [← List.length_pos_iff]
    omega
  have hend := h.locate_stop hw hno hne
  rw [hlen, Nat.add_sub_cancel' (Nat.le_of_lt hlt), ← hlen] at hend
  rw [Anchor.locateSpan, hend]
  exact Source.cover_eq_iff.trans (h.locate_iff_kept (by omega) hw hno fun _ hat => hat)

/-- **A tag of the name of the opening tag is found where that is located exactly if it is
kept.** -/
theorem Running.scan?_iff_kept (h : Running src content.toList first) {t : Tag}
    (ht : Tag.scan? content o content.size = some t)
    (hno : '\n' ∉ (content.cover t.span).toList) :
    (∃ t', Tag.scan? src (Anchor.locate (Anchor.ofText (Anchor.lines src) content.toList first)
        o) src.size = some t' ∧ t'.name = t.name) ↔
      Anchor.Kept src content first o fun pos =>
        ∃ t', Tag.scan? src pos src.size = some t' ∧ t'.name = t.name := by
  obtain ⟨u, hu, hat, hle, hspan⟩ := Tag.scan?_eq_some_iff.mp ht
  rw [Source.toList_cover, hspan] at hno
  dsimp only at hno
  rw [hat.window_eq] at hno
  refine h.locate_iff_kept (by omega) hat hno (P := fun pos =>
    ∃ t', Tag.scan? src pos src.size = some t' ∧ t'.name = t.name) fun pos hdoc => ?_
  exact ⟨⟨t.name, ⟨pos, pos + u.length⟩, t.form⟩, Tag.scan?_eq_some_iff.mpr
    ⟨u, hu, hdoc, hdoc.le_size hu.ne_nil, rfl⟩, rfl⟩

theorem Running.getElem?_iff_kept (h : Running src content.toList first) {c : Char}
    (hc : content[o]? = some c) (hbreak : c ≠ '\n') :
    src[Anchor.locate (Anchor.ofText (Anchor.lines src) content.toList first) o]? = some c ↔
      Anchor.Kept src content first o fun pos => src[pos]? = some c := by
  have ho := (Array.getElem?_eq_some_iff.mp hc).1
  exact h.locate_iff_kept (Nat.le_of_lt ho) (Source.hasAt_singleton.mpr hc)
    (by simpa using hbreak.symm) fun _ hat => Source.hasAt_singleton.mp hat

/-- The node at the end of the path is in the running text `content`, which comes from the lines
from `first` on. -/
def Node.RunsIn (root : Node) (p : List Nat) (content : Source) (first : Nat) : Prop :=
  ∃ q text range cs, q <+: p ∧ root.at? q = some (.mk (.inline text) (some range) cs) ∧
    content = Source.ofString text ∧ first = range.first

/-- **The span of code in running text is exact as far as the running text is kept.**  The span of
an expression on one line covers it exactly if it is kept; so it is with an opening tag on one line,
and with the bracket at the end of an element.  Where there are no tabs, no quotes and no odd white
space at the ends of lines, everything is kept. -/
theorem span_exact_iff_kept (text : String) {root m : Node} {p : List Nat}
    (h : (Document.ofString text).read = .ok root) (hm : root.at? p = some m)
    (hcode : m.kind.isTextCode = true)
    (hno : ∀ q a, q <+: p → root.at? q = some a → a.kind.isImage = false) :
    ∃ content first, root.RunsIn p content first ∧
      (∀ c s, m.kind = .textExpression c s → ∃ s₀, c = content.cover s₀ ∧
        Expression.stop? content s₀.start content.size = some s₀.stop ∧
        ('\n' ∉ c.toList → ((Document.ofString text).source.cover s = c ↔
          Anchor.Kept (Document.ofString text).source content first s₀.start fun pos =>
            (Document.ofString text).source.HasAt pos c.toList))) ∧
      (∀ n s, m.kind = .textElement n s → ∃ s₀ t, (Kind.textElement n s₀).Embedded content ∧
        Tag.scan? content s₀.start content.size = some t ∧ t.form ≠ .closing ∧ t.name = n ∧
        content[s₀.stop - 1]? = some '>' ∧
        ('\n' ∉ (content.cover t.span).toList →
          ((∃ t', Tag.scan? (Document.ofString text).source s.start
              (Document.ofString text).source.size = some t' ∧ t'.name = n) ↔
            Anchor.Kept (Document.ofString text).source content first s₀.start fun pos =>
              ∃ t', Tag.scan? (Document.ofString text).source pos
                (Document.ofString text).source.size = some t' ∧ t'.name = n)) ∧
        ((Document.ofString text).source[s.stop - 1]? = some '>' ↔
          Anchor.Kept (Document.ofString text).source content first (s₀.stop - 1) fun pos =>
            (Document.ofString text).source[pos]? = some '>')) ∧
      ((Document.ofString text).source.EndsPlain Text.isBlank →
        '\t' ∉ (Document.ofString text).source.toList →
        ¬ Block.HasQuote (Document.ofString text).source →
        ∀ o P, o ≤ content.size →
          Anchor.Kept (Document.ofString text).source content first o P) := by
  obtain ⟨hproper, -⟩ := Document.read_spec h
  obtain ⟨q, content, range, cs, hq, hin, hrun, k₀, hinline, hk⟩ :=
    hproper.running_of_isTextCode hm hcode hno
  generalize (Document.ofString text).source = src at *
  have hembedded : k₀.Embedded (Source.ofString content) := by
    refine hinline ?_
    rwa [hk, Anchor.isTextCode_placeKind] at hcode
  have hrun : Running src (Source.ofString content).toList range.first := hrun
  refine ⟨Source.ofString content, range.first, ⟨q, content, range, cs, hq, hin, rfl, rfl⟩,
    ?_, ?_, fun hends htab hquote o P ho => hrun.kept_of_plain hends htab hquote ho P⟩
  · intro c s hms
    rw [hk] at hms
    cases hembedded with
    | @expression s₀ hstop =>
      cases hms
      exact ⟨s₀, rfl, hstop, fun hbreak => hrun.cover_eq_iff_kept hstop hbreak⟩
    | single => cases hms
    | pair => cases hms
  · intro n s hms
    rw [hk] at hms
    obtain ⟨s₀, rfl, hs⟩ : ∃ s₀, k₀ = .textElement n s₀ ∧
        s = Anchor.locateSpan (Anchor.ofText (Anchor.lines src) content.toList range.first) s₀ := by
      cases hembedded with
      | expression => cases hms
      | single | pair =>
        cases hms
        exact ⟨_, rfl, rfl⟩
    obtain ⟨t, ht, hname, hform, hgt⟩ := hembedded.element
    refine ⟨s₀, t, hembedded, ht, hform, hname, hgt, fun hbreak => ?_, ?_⟩
    · rw [hs, Anchor.locateSpan, ← hname]
      exact hrun.scan?_iff_kept ht hbreak
    · rw [hs, Anchor.locateSpan, Nat.add_sub_cancel]
      exact hrun.getElem?_iff_kept hgt (by decide)

/-- An expression on the second line of a list item. -/
theorem span_exact_iff_kept_item :
    ∃ (root m : Node) (content : Source) (first : Nat) (s₀ : Span),
      (Document.ofString "- a\n  b {x}").read = .ok root ∧
      root.at? [0, 0, 0, 0, 3] = some m ∧ root.RunsIn [0, 0, 0, 0, 3] content first ∧
      m.kind = .textExpression "{x}" ⟨8, 11⟩ ∧
      Expression.stop? content s₀.start content.size = some s₀.stop ∧
      Anchor.Kept (Document.ofString "- a\n  b {x}").source content first s₀.start (fun pos =>
        (Document.ofString "- a\n  b {x}").source.HasAt pos "{x}".toList) ∧
      (Document.ofString "- a\n  b {x}").source.cover ⟨8, 11⟩ = "{x}" := by
  have hm : (Document.ofString "- a\n  b {x}").kind? [0, 0, 0, 0, 3] =
      some (.textExpression "{x}" ⟨8, 11⟩) := by
    decide +kernel
  obtain ⟨root, m, hr, hm, hk⟩ := Document.exists_of_kind? hm
  have hno := Document.isImage_of_kind? (p := [0, 0, 0, 0, 3]) hr (by decide +kernel)
  obtain ⟨content, first, hruns, hexpression, -, hplain⟩ :=
    span_exact_iff_kept _ hr hm (by rw [hk]; rfl) hno
  obtain ⟨s₀, -, hstop, hiff⟩ := hexpression _ _ hk
  have hquote : ¬ Block.HasQuote (Document.ofString "- a\n  b {x}").source := by
    rintro ⟨i, hi, -⟩
    rw [← Array.getElem?_toList] at hi
    exact absurd (List.mem_of_getElem? hi) (by decide +kernel)
  have hlt := Expression.lt_of_stop? hstop
  have hsize := Expression.stop_le_size hstop
  have hkept := hplain (by decide +kernel) (by decide +kernel) hquote s₀.start
    (fun pos => (Document.ofString "- a\n  b {x}").source.HasAt pos "{x}".toList) (by omega)
  exact ⟨root, m, content, first, s₀, hr, hm, hruns, hk, hstop, hkept,
    (hiff (by decide +kernel)).mpr hkept⟩

/-- **A tab that is cut in the middle makes a span inexact**: it leaves spaces in front of the line,
which the document does not have. -/
theorem span_inexact_after_tab :
    ∃ root m, (Document.ofString "- a\n\tb {x}").read = .ok root ∧
      root.at? [0, 0, 0, 0, 3] = some m ∧ m.kind = .textExpression "{x}" ⟨8, 11⟩ ∧
      (Document.ofString "- a\n\tb {x}").source.cover ⟨8, 11⟩ ≠ "{x}" ∧
      (Document.ofString "- a\n\tb {x}").source.cover ⟨7, 10⟩ = "{x}" := by
  have hm : (Document.ofString "- a\n\tb {x}").kind? [0, 0, 0, 0, 3] =
      some (.textExpression "{x}" ⟨8, 11⟩) := by
    decide +kernel
  obtain ⟨root, m, hr, hm, hk⟩ := Document.exists_of_kind? hm
  exact ⟨root, m, hr, hm, hk, by decide +kernel, by decide +kernel⟩

end MdxProse
