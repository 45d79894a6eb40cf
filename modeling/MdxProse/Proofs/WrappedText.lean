import MdxProse.Proofs.ProseBlocks

/-!
# The text inside an element

The lines between an opening and a closing tag are those of a document, the text by itself.  So
what is known of reading a document further down is known of reading it in an element.

* `Wrapping.moved`: **inside the element, the lines of the text are those of its own document.**
* `readInside_moved`: paragraphs of which not all lines are indented are read there as they are by
  themselves.  Otherwise the region inside the element starts further right, and a line that only
  continued a paragraph may start a block.
* `read_closed`, `isOk_read_iff`: **if the closing tag is found, the document is one element**, and
  is read if and only if the text inside it is.
-/

namespace MdxProse

theorem Anchor.linesFrom_moved (pos d : Nat) (ls : List (List Char)) :
    linesFrom (pos + d) ls = (linesFrom pos ls).map fun (s, body) => (s + d, body) := by
  induction ls generalizing pos with
  | nil => rfl
  | cons l ls ih =>
    rw [linesFrom, linesFrom, List.map_cons, ← ih,
      show pos + d + l.length + 1 = pos + l.length + 1 + d by omega]

theorem exists_mapM_ok {α β ε : Type} {f : α → Except ε β} {xs : List α} :
    (∃ ys, xs.mapM f = .ok ys) ↔ ∀ x ∈ xs, ∃ y, f x = .ok y := by
  induction xs with
  | nil => exact ⟨fun _ => List.forall_mem_nil _, fun _ => ⟨[], rfl⟩⟩
  | cons x xs ih =>
    rw [List.forall_mem_cons, ← ih]
    simp only [List.mapM_cons, Except.bind_eq_ok]
    constructor
    · rintro ⟨ys, y, hy, zs, hzs, -⟩
      exact ⟨⟨y, hy⟩, zs, hzs⟩
    · rintro ⟨⟨y, hy⟩, ys, hys⟩
      exact ⟨y :: ys, y, hy, ys, hys, rfl⟩

theorem Document.exists_fill_moved {lines lines' : List (Nat × List Char)}
    {definitions : List Block.Definition} {e e' : Event} (h : fill lines definitions e = .ok e')
    (k : Nat) : ∃ e'', fill lines' definitions (e.moved k) = .ok e'' := by
  unfold fill at h
  split at h
  · obtain ⟨es, hes, -⟩ := Except.bind_eq_ok.mp h
    rw [Event.moved, Option.map_some, fill, hes]
    exact ⟨_, rfl⟩
  · next hne =>
    refine ⟨e.moved k, ?_⟩
    unfold fill
    split
    · next content range inner he =>
      cases e with
      | enter | leave => cases he
      | leaf kind l inner' =>
        cases l with
        | none => cases he
        | some l =>
          cases he
          exact absurd rfl (hne content l inner)
    · rfl

theorem Walk.moved {es : List Event} {ns : List Node} (h : Walk es ns) (k : Nat) : ∃ ns',
    Walk (es.map (Event.moved k)) ns' ∧ ns'.map Node.kind = ns.map Node.kind := by
  induction h with
  | nil => exact ⟨[], .nil, rfl⟩
  | leaf hi _ ih =>
    obtain ⟨ns', hwalk, hkinds⟩ := ih
    exact ⟨_, .leaf hi hwalk, congrArg (_ :: ·) hkinds⟩
  | around _ _ ihi ih =>
    obtain ⟨cs', hinside, -⟩ := ihi
    obtain ⟨ns', hwalk, hkinds⟩ := ih
    rw [List.map_append, Event.around, List.map_cons, List.map_append]
    exact ⟨_, hinside.around hwalk, congrArg (_ :: ·) hkinds⟩

namespace Block

namespace Region

variable {src : Source} {k s : Nat} {body : List Char}

/-- A line that is not in the table is the last one, and holds no text. -/
theorem blank_of_height_le (h : (Anchor.lines src)[k]? = some (s, body))
    (hk : (ofSource src).height ≤ k) :
    (Anchor.lines src).length = k + 1 ∧ body.all Text.isSpace = true :=
  (Line.lt_size_table h).resolve_left (Nat.not_lt.mpr hk)

theorem height_le (src : Source) : (ofSource src).height ≤ (Anchor.lines src).length := by
  refine Nat.le_of_not_lt fun hlt => ?_
  obtain ⟨s, body, hget, -⟩ := line_ofSource src hlt
  exact Nat.lt_irrefl _ (List.getElem?_eq_some_iff.mp hget).1

/-- **Only white space follows the lines that hold text.** -/
theorem trails_ofSource (src : Source) :
    src.Trails ((ofSource src).limit (ofSource src).height) := by
  have hsound := sound_ofSource src
  by_cases h0 : (ofSource src).height = 0
  · have hline : (ofSource src).lines[0]? = none :=
      Array.getElem?_eq_none_iff.mpr (Nat.le_of_eq h0)
    have hlimit : (ofSource src).limit (ofSource src).height = src.size := by
      rw [limit, h0, line, hline]
      rfl
    rw [hlimit]
    exact src.trails_size
  · have hlast : (ofSource src).height - 1 < (ofSource src).height := by omega
    obtain ⟨s, body, hget, hin⟩ := hsound.inside hlast
    refine ⟨hin.le_size, fun p c hp hc => ?_, hin.tail⟩
    obtain ⟨hlt, -⟩ := Array.getElem?_eq_some_iff.mp hc
    obtain ⟨j, t, body', hj, htp, hpt⟩ := Anchor.exists_line (Nat.le_of_lt hlt)
    have hline := Anchor.lines_isLine hj
    rcases Nat.eq_or_lt_of_le hpt with rfl | hpt
    · -- at the end of a line
      rcases hline.stop with hb | hs
      · rw [hc, Option.some.injEq] at hb
        rw [hb]
        rfl
      · omega
    · have hblank := blank_of_height_le hj (Nat.le_of_not_lt fun hlt => ?_)
      · obtain ⟨q, rfl⟩ := Nat.exists_eq_add_of_le htp
        rw [hline.hasAt.getElem? (Nat.lt_of_add_lt_add_left hpt)] at hc
        rw [Text.isGap, List.all_eq_true.mp hblank.2 c (List.mem_of_getElem? hc), Bool.true_or]
      · obtain ⟨t', body'', hj', hline'⟩ := line_ofSource src hlt
        cases hj.symm.trans hj'
        have hstop : ((ofSource src).line j).stop = t + body'.length := by
          rw [hline']
          rfl
        have hle := hsound.stop_le (Nat.le_sub_one_of_lt hlt) hlast
        rw [limit] at hp
        omega

end Region

theorem Element.leastIndent?_eq_none {r : Region} {i past : Nat}
    (h : ∀ j, i ≤ j → j < past → r.isEmpty j = true) : leastIndent? r i past = none := by
  fun_induction leastIndent? r i past with
  | case1 i hlt rest hempty ih => exact ih fun j hj => h j (Nat.le_of_succ_le hj)
  | case2 i hlt rest hempty | case3 i hlt rest hempty =>
    exact absurd (h i (Nat.le_refl i) hlt) hempty
  | case4 => rfl

namespace Wrapping

variable {n : Word} {w : List Char}

/-- The document of the text by itself. -/
def plain (w : List Char) : Region :=
  .ofSource w.toArray

theorem getElem?_moved {k s : Nat} {body : List Char}
    (h : (Anchor.lines w.toArray)[k]? = some (s, body)) :
    (Anchor.linesFrom (textStart n) (Text.splitOn '\n' w))[k]? = some (s + textStart n, body) := by
  have hmoved := Anchor.linesFrom_moved 0 (textStart n) (Text.splitOn '\n' w)
  rw [Nat.zero_add] at hmoved
  rw [hmoved, List.getElem?_map]
  exact congrArg (Option.map _) h

/-- **Inside the element, the lines of the text are those of its own document**, moved on. -/
theorem moved (n : Word) (w : List Char) : (plain w).Moved (inside n w) (textStart n) 1 where
  ready := ⟨Region.sound_ofSource _, Nat.le_refl _, fun _ => ⟨rfl, rfl⟩⟩
  hasAt := hasAt_text n w
  after := by
    have hlen : ((Sign.opening (some n)).spell ++ '\n' :: w).length = w.length + textStart n := by
      rw [List.length_append, List.length_cons, textStart]
      omega
    show (source n w)[w.length + textStart n]? = some '\n'
    rw [← Array.getElem?_toList, source_eq, ← hlen,
      List.getElem?_append_right (Nat.le_refl _), Nat.sub_self]
    rfl
  line i hi := by
    obtain ⟨s, body, hget, hline⟩ := Region.line_ofSource w.toArray hi
    have hline : (plain w).line i = Line.ofBody s body := hline
    have hline' : (inside n w).line (i + 1) = Line.ofBody (s + textStart n) body :=
      line_eq (getElem?_succ (getElem?_moved hget))
    rw [hline, hline', Line.moved, Line.ofBody, Line.ofBody]
    dsimp only
    congr 1
    omega
  height := by
    have hlen : (Anchor.lines w.toArray).length = w.count '\n' + 1 := by
      rw [Anchor.lines, Anchor.length_linesFrom, Text.length_splitOn]
    have hle := Region.height_le w.toArray
    rcases Nat.eq_or_lt_of_le hle with heq | hlt
    · left
      show w.count '\n' + 2 = (Region.ofSource w.toArray).height + 1
      omega
    · right
      obtain ⟨s, body, hget⟩ : ∃ s body,
          (Anchor.lines w.toArray)[(Region.ofSource w.toArray).height]? = some (s, body) :=
        ⟨_, _, List.getElem?_eq_getElem hlt⟩
      obtain ⟨hlast, hblank⟩ := Region.blank_of_height_le hget (Nat.le_refl _)
      have hline : (inside n w).line ((Region.ofSource w.toArray).height + 1) =
          Line.ofBody (s + textStart n) body := line_eq (getElem?_succ (getElem?_moved hget))
      refine ⟨?_, ?_⟩
      · show w.count '\n' + 2 = (Region.ofSource w.toArray).height + 1 + 1
        omega
      · show ((inside n w).line ((Region.ofSource w.toArray).height + 1)).isEmpty = true
        rw [hline]
        exact (Line.isEmpty_ofBody _ _).mpr hblank
  limit := by
    rw [Nat.add_comm]
    exact stop_eq n w
  trails := Region.trails_ofSource _
  indent := ⟨rfl, rfl⟩
  listIndent := ⟨rfl, rfl⟩
  nonneg i hi := by
    obtain ⟨s, body, -, hline⟩ := Region.line_ofSource w.toArray hi
    have hline : (plain w).line i = Line.ofBody s body := hline
    rw [hline]
    exact Line.le_columns 0 0 _
  isTop := ⟨Nat.one_pos, rfl⟩

/-- Some line is not indented, if any holds text. -/
def IsFlush (w : List Char) : Prop :=
  (∀ line ∈ Text.splitOn '\n' w, line.all Text.isSpace = true) ∨
    ∃ line ∈ Text.splitOn '\n' w, (line.head?.any fun c => !Text.isSpace c) = true

instance (w : List Char) : Decidable (IsFlush w) :=
  inferInstanceAs (Decidable (_ ∨ _))

theorem readSource_blank (h : ∀ line ∈ Text.splitOn '\n' w, line.all Text.isSpace = true) :
    ∃ next, readSource w.toArray = .ok ⟨[], [], next⟩ := by
  have hskip : (plain w).height ≤ (plain w).skipEmpty 0 := by
    refine Nat.le_of_not_lt fun hlt => ?_
    have htext := ((plain w).skipEmpty_spec 0).2 hlt
    obtain ⟨s, body, hget, hline⟩ := Region.line_ofSource w.toArray hlt
    have hline : (plain w).line _ = Line.ofBody s body := hline
    have hblank := h body (List.mem_of_getElem? (Anchor.getElem?_of_linesFrom hget))
    rw [Region.isEmpty, hline, (Line.isEmpty_ofBody s body).mpr hblank] at htext
    cases htext
  obtain ⟨next, hread⟩ : ∃ next, readBlocks (readBlock (read 19) (read 18)) (plain w)
      (plain w).height false true 0 = .ok ⟨⟨[], [], next⟩, true⟩ :=
    readBlocks_done (fun _ => hskip) false true
  exact ⟨next, (readSource_blocks _).trans (congrArg (Except.bind · _) hread)⟩

/-- **A text without indentation is read in the element as it is by itself.** -/
theorem readInside_moved (hflush : IsFlush w) {o : Outcome} {ns : List Node}
    (ho : readSource w.toArray = .ok o) (hwalk : Walk o.events ns)
    (hprose : ∀ n ∈ ns, n.type = .paragraph) (n : Word) : ∃ next,
      readInside (read 19) (region n w) 1 (last w) =
        .ok ⟨o.events.map (Event.moved 1), o.definitions, next⟩ := by
  rcases hflush with hblank | ⟨line, hline, hhead⟩
  · obtain ⟨next, hread⟩ := readSource_blank hblank
    cases ho.symm.trans hread
    have hempty : ∀ j, 1 ≤ j → j < last w → (region n w).isEmpty j = true := by
      intro j h₁ h₂
      obtain ⟨s, body, hget, hline, -⟩ := exists_line (n := n) h₁ h₂
      have := hblank body (List.mem_of_getElem? (Anchor.getElem?_of_linesFrom hget))
      rw [Region.isEmpty, hline, Line.isEmpty_ofBody, this]
    exact ⟨last w, by rw [readInside, Element.leastIndent?_eq_none hempty]; rfl⟩
  · have hleast : Element.leastIndent? (region n w) 1 (last w) = some 0 := by
      obtain ⟨k, hk⟩ := List.getElem?_of_mem hline
      have hlt : k < (Text.splitOn '\n' w).length := (List.getElem?_eq_some_iff.mp hk).1
      rw [Text.length_splitOn] at hlt
      obtain ⟨s, body, hget, hbody, hisLine⟩ :=
        exists_line (n := n) (Nat.le_add_left 1 k) (Nat.succ_lt_succ hlt)
      cases hk.symm.trans (Anchor.getElem?_of_linesFrom hget)
      cases line with
      | nil => cases hhead
      | cons c u =>
        have hspace : Text.isSpace c = false := by simpa using hhead
        have hholds : (region n w).Holds (k + 1) s (c :: u) :=
          ⟨hbody.trans (Line.ofBody_of_head hspace s u), hisLine.hasAt⟩
        exact Element.leastIndent?_eq_zero (fun j _ hj => indent_nonneg n w (Nat.le_of_lt hj))
          (Nat.le_add_left 1 k) (Nat.succ_lt_succ hlt) hholds.isEmpty hholds.indent
    obtain ⟨c, hc, hout⟩ := Except.bind_eq_ok.mp ((readSource_blocks _).symm.trans ho)
    cases hout
    obtain ⟨next, tight, hread⟩ := (moved n w).readBlocks (read_correct _ 19) (read_correct _ 18)
      hc hwalk hprose (read 18) (read 17) false true
    rw [Nat.zero_add] at hread
    refine ⟨next, ?_⟩
    rw [readInside_eq hleast]
    exact congrArg (Except.bind · fun c => .ok c.toOutcome) hread

/-! ### The tree -/

/-- A document that is one element. -/
def elementTree (n : Word) (w : List Char) (cs : List Node) : Node :=
  .mk .root none
    [.mk (.flowElement (opener n).name ⟨0, (source n w).size⟩) (some ⟨0, last w + 1⟩) cs]

/-- The text can be read inside the element. -/
def ReadsInside (n : Word) (w : List Char) : Prop :=
  ∃ o es, readInside (read 19) (region n w) 1 (last w) = .ok o ∧
    o.events.mapM (Document.fill (Anchor.lines (source n w)) o.definitions) = .ok es

theorem readInside_walk {o : Outcome}
    (h : readInside (read 19) (region n w) 1 (last w) = .ok o) :
    (∀ e ∈ o.events, IsPlain (source n w) e) ∧ ∃ ns, Walk o.events ns := by
  rw [readInside] at h
  split at h
  · cases h
    exact ⟨List.forall_mem_nil _, [], .nil⟩
  · next m hm =>
    obtain ⟨c, hc, ho⟩ := Except.bind_eq_ok.mp h
    cases ho
    have hsound : (region n w).Sound (source n w) := Region.sound_ofSource _
    have hle : last w ≤ (region n w).height :=
      Nat.le_of_lt (Nat.lt_of_lt_of_eq (Nat.lt_succ_self _) (height n w).symm)
    obtain ⟨hm, hquote⟩ := Element.leastIndent?_spec hsound hle hm
    have hready : ({ region n w with height := last w, indent := m, isTop := false } :
        Region).Ready (source n w) (last w) :=
      ⟨hsound.narrow hle hm hquote, Nat.le_refl _, fun h => absurd h Bool.false_ne_true⟩
    have hreads := read_correct (source n w) 19 _ _ _ c hready hc
    obtain ⟨ns, hwalk, -⟩ := hreads.walk
    exact ⟨hreads.plain, ns, hwalk⟩

/-- **Where the closing tag is found on the last line, and the text can be read, the document is
one element** that holds nodes of the kinds that were read. -/
theorem read_closed {d : Document} {o : Outcome} {es : List Event} {ns : List Node}
    (hd : d.source = source n w) (hcloses : Closes n w)
    (ho : readInside (read 19) (region n w) 1 (last w) = .ok o)
    (hes : o.events.mapM (Document.fill (Anchor.lines (source n w)) o.definitions) = .ok es)
    (hwalk : Walk o.events ns) : ∃ cs, d.read = .ok (elementTree n w cs) ∧
      cs.map Node.kind = ns.map Node.kind := by
  obtain ⟨cs, hinside, hkinds, -, -⟩ := hwalk.fill (readInside_walk ho).1 hes
  exact ⟨cs, read_of_inside hd hcloses ho hes hinside, hkinds⟩

theorem isOk_read_iff {d : Document} (hd : d.source = source n w) (hcloses : Closes n w) :
    (∃ root, d.read = .ok root) ↔ ReadsInside n w := by
  constructor
  · rintro ⟨root, hroot⟩
    obtain ⟨es, hes, -⟩ := Except.bind_eq_ok.mp hroot
    obtain ⟨whole, hwhole, hfill⟩ := Except.bind_eq_ok.mp hes
    rw [hd, readSource_eq hcloses] at hwhole
    obtain ⟨o, ho, hout⟩ := Except.bind_eq_ok.mp hwhole
    cases hout
    have hall := exists_mapM_ok.mp ⟨es, hfill⟩
    obtain ⟨es', hes'⟩ := exists_mapM_ok.mpr fun e he =>
      hall e (List.mem_cons_of_mem _ (List.mem_append_left _ he))
    exact ⟨o, es', ho, hd ▸ hes'⟩
  · rintro ⟨o, es, ho, hes⟩
    obtain ⟨-, ns, hwalk⟩ := readInside_walk ho
    obtain ⟨cs, hread, -⟩ := read_closed hd hcloses ho hes hwalk
    exact ⟨_, hread⟩

end Wrapping

end Block

end MdxProse
