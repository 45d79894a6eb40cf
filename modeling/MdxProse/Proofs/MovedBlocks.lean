import Mathlib.Data.Nat.Init
import MdxProse.Proofs.BlockElements
import MdxProse.Proofs.DefinitionText
import MdxProse.Proofs.MovedText

/-!
# Blocks further down

A document may stand inside a longer one, some lines further down.  The readers of blocks see the
same lines there, so that each of them answers as it does in the document.

* `Region.Moved`: the region shows the lines of a document, moved on.
* `Region.Moved.fence`, `.quote`, `.marker` and so on: **what starts on a line starts there in both
  regions.**  `Region.Moved.interrupts`: so does what ends a paragraph.
* `Region.Moved.paragraph_stop`, `.definition_stop`, `.underline_find?`: a paragraph and a
  definition have the same lines.  `Region.Moved.runningText`: the running text is the same.
* `Region.Moved.definition`: a definition at the end of the document gets a line break that it does
  not have there, but is read alike.
-/

namespace MdxProse.Block

/-- The line further on. -/
def Line.moved (d : Nat) (l : Line) : Line :=
  { l with first := l.first + d, stop := l.stop + d }

/-- The region `r'` shows the lines of the whole document of `r` as they are, `d` characters and `k`
lines further on.  An empty line may follow them. -/
structure Region.Moved (r r' : Region) (d k : Nat) : Prop where
  ready : r.Ready r.src r.height
  hasAt : r'.src.HasAt d r.src.toList
  after : r'.src[r.src.size + d]? = some '\n'
  line : ∀ i, i < r.height → r'.line (i + k) = (r.line i).moved d
  height : r'.height = r.height + k ∨
    r'.height = r.height + k + 1 ∧ r'.isEmpty (r.height + k) = true
  limit : r'.limit r'.height = r.src.size + d
  trails : r.src.Trails (r.limit r.height)
  indent : r.indent = 0 ∧ r'.indent = 0
  listIndent : r.listIndent = -1 ∧ r'.listIndent = -1
  nonneg : ∀ i, i < r.height → 0 ≤ (r.line i).indent
  /-- The lines are not the first ones of a document any more. -/
  isTop : 0 < k ∧ r'.isTop = false

theorem Definition.stop_le {r : Region} {i : Nat} (hi : i ≤ r.height) : stop r i ≤ r.height := by
  fun_induction stop r i with
  | case1 | case3 | case4 => exact hi
  | case2 i hlt l he hint ih => exact ih hlt

theorem MathBlock.isSome_ending? (r : Region) (i past : Nat) : (ending? r i past).isSome =
    (decide (3 < (Text.trim Text.isBlank (r.lineText i)).length) && (lineEnd? r i).isSome ||
      !closesEarly (r.lineText i) && (closing? r past (i + 1)).isSome) := by
  rw [ending?]
  by_cases hlong : 3 < (Text.trim Text.isBlank (r.lineText i)).length
  · rw [if_pos hlong, decide_eq_true hlong]
    cases lineEnd? r i with
    | some found => rfl
    | none => cases closesEarly (r.lineText i) <;> rfl
  · rw [if_neg hlong, decide_eq_false hlong]
    cases closesEarly (r.lineText i) <;> rfl

theorem Element.Shape.isSome_ofRun?_moved (d : Nat) (ts : List Tag) (stop : Nat) :
    (ofRun? (ts.map (Tag.moved d), stop + d)).isSome = (ofRun? (ts, stop)).isSome := by
  have hbalanced : Tag.balanced (ts.map (Tag.moved d)) = Tag.balanced ts :=
    Tag.balancedFrom_map (Tag.moved d) (fun _ => rfl) (fun _ => rfl) ts []
  match ts with
  | [] => rfl
  | [t] =>
    obtain ⟨name, span, form⟩ := t
    cases form <;> rfl
  | t :: u :: ts =>
    show (if Tag.balanced ((t :: u :: ts).map (Tag.moved d)) then some _ else none).isSome =
      (if Tag.balanced (t :: u :: ts) then some _ else none).isSome
    rw [hbalanced]
    split <;> rfl

namespace Region.Moved

variable {r r' : Region} {d k i j : Nat} {host : Host}

theorem lt (h : r.Moved r' d k) (hi : i < r.height) : i + k < r'.height := by
  rcases h.height with h | ⟨h, -⟩ <;> omega

theorem isEmpty (h : r.Moved r' d k) (hi : i < r.height) : r'.isEmpty (i + k) = r.isEmpty i := by
  rw [Region.isEmpty, Region.isEmpty, h.line i hi, Line.isEmpty, Line.isEmpty, Line.start,
    Line.start, Line.moved]
  apply decide_eq_decide.mpr
  dsimp only
  omega

theorem below (h : r.Moved r' d k) (hi : i + k < r'.height) (hle : r.height ≤ i) :
    i = r.height ∧ r'.isEmpty (i + k) = true := by
  rcases h.height with heq | ⟨heq, hempty⟩
  · omega
  · have : i = r.height := by omega
    exact ⟨this, this ▸ hempty⟩

theorem start (h : r.Moved r' d k) (hi : i < r.height) :
    (r'.line (i + k)).start = (r.line i).start + d := by
  rw [h.line i hi, Line.start, Line.start, Line.moved]
  dsimp only
  omega

theorem stop (h : r.Moved r' d k) (hi : i < r.height) :
    (r'.line (i + k)).stop = (r.line i).stop + d := by
  rw [h.line i hi]
  rfl

theorem line_indent (h : r.Moved r' d k) (hi : i < r.height) :
    (r'.line (i + k)).indent = (r.line i).indent := by
  rw [h.line i hi]
  rfl

theorem stop_le (h : r.Moved r' d k) (hi : i < r.height) : (r.line i).stop ≤ r.src.size := by
  obtain ⟨_, _, _, hin⟩ := h.ready.sound.inside hi
  exact hin.le_size

theorem lineText (h : r.Moved r' d k) (hi : i < r.height) :
    r'.lineText (i + k) = r.lineText i := by
  rw [Region.lineText, Region.lineText, h.start hi, h.stop hi, h.hasAt.window_moved (h.stop_le hi)]

/-! ### What starts on a line -/

theorem flowExpression (h : r.Moved r' d k) (hi : i < r.height) :
    FlowExpression.stop? r' (i + k) r'.height =
      (FlowExpression.stop? r i r.height).map (· + d) := by
  have hempty : (r'.line (i + k)).isEmpty = (r.line i).isEmpty := h.isEmpty hi
  rw [FlowExpression.stop?, FlowExpression.stop?, hempty, h.start hi, h.limit]
  cases he : (r.line i).isEmpty with
  | true => rfl
  | false =>
    have hlt : (r.line i).start < (r.line i).stop := Nat.lt_of_not_le (of_decide_eq_false he)
    have hhas : r'.src.has '\x7b' ((r.line i).start + d) = r.src.has '\x7b' (r.line i).start :=
      h.hasAt.test_moved (Nat.lt_of_lt_of_le hlt (h.stop_le hi)) _
    rw [hhas]
    split
    · dsimp only
      rw [Expression.stop?_moved h.hasAt (Nat.le_refl _), ← Expression.stop?_trails h.trails]
      cases hstop : Expression.stop? r.src (r.line i).start (r.limit r.height) with
      | none => rfl
      | some stop =>
        have hle := Expression.stop_le_limit hstop
        dsimp only [Option.map_some]
        rw [h.hasAt.skipWhile_moved (Nat.le_refl _), h.trails.skipWhile_eq hle,
          h.hasAt.ends_moved, ← h.trails.ends_iff (Source.skipWhile_le hle)]
        split <;> rfl
    · rfl

theorem element (h : r.Moved r' d k) (hi : i < r.height) :
    Element.starts r' (i + k) r'.height = Element.starts r i r.height := by
  have hempty : (r'.line (i + k)).isEmpty = (r.line i).isEmpty := h.isEmpty hi
  rw [Element.starts, Element.starts, Element.shape?, Element.shape?, hempty, h.start hi, h.limit,
    Tag.run?_moved h.hasAt, ← Tag.run?_trails h.trails]
  split
  · rfl
  · cases Tag.run? r.src (r.line i).start (r.limit r.height) with
    | none => rfl
    | some found => exact Element.Shape.isSome_ofRun?_moved d found.1 found.2

theorem fence (h : r.Moved r' d k) (hi : i < r.height) :
    Fence.opening? r' (i + k) = Fence.opening? r i := by
  rw [Fence.opening?, Fence.opening?, h.lineText hi]

theorem quote (h : r.Moved r' d k) (hi : i < r.height) :
    Quote.starts r' (i + k) = Quote.starts r i := by
  rw [Quote.starts, Quote.starts, h.lineText hi]

theorem thematicBreak (h : r.Moved r' d k) (hi : i < r.height) :
    ThematicBreak.starts r' (i + k) = ThematicBreak.starts r i := by
  rw [ThematicBreak.starts, ThematicBreak.starts, h.lineText hi]

theorem marker (h : r.Moved r' d k) (hi : i < r.height) :
    Marker.ofLine? r' (i + k) = Marker.ofLine? r i := by
  rw [Marker.ofLine?, Marker.ofLine?, h.lineText hi, h.listIndent.1, h.listIndent.2]
  rfl

theorem heading (h : r.Moved r' d k) (hi : i < r.height) :
    Heading.starts r' (i + k) = Heading.starts r i := by
  rw [Heading.starts, Heading.starts, h.lineText hi]

/-- **A line interrupts further down what it interrupts in the document.** -/
theorem interrupts (h : r.Moved r' d k) (hi : i < r.height) :
    interrupts r' host (i + k) r'.height = interrupts r host i r.height := by
  have hmarker (host : Host) : Marker.interrupts r' host (i + k) = Marker.interrupts r host i := by
    rw [Marker.interrupts, Marker.interrupts, h.marker hi, h.lineText hi, h.line_indent hi,
      h.indent.1, h.indent.2]
  have hexpression : FlowExpression.starts r' (i + k) r'.height =
      FlowExpression.starts r i r.height := by
    rw [FlowExpression.starts, FlowExpression.starts, h.flowExpression hi, Option.isSome_map]
  rw [Block.interrupts.eq_def r', Block.interrupts.eq_def r, hexpression, h.element hi, h.fence hi,
    h.quote hi, h.thematicBreak hi, h.heading hi]
  simp only [hmarker]

/-! ### Running text -/

theorem paragraph_stop (h : r.Moved r' d k) (hi : i ≤ r.height) :
    Paragraph.stop r' (i + k) = Paragraph.stop r i + k := by
  induction hi using Nat.decreasingInduction with
  | self =>
    rw [Paragraph.stop, Paragraph.stop.eq_def r, if_neg (Nat.lt_irrefl _)]
    split
    · next hlt =>
      have hempty : (r'.line (r.height + k)).isEmpty = true := (h.below hlt (Nat.le_refl _)).2
      rw [if_pos hempty]
    · rfl
  | of_succ i hlt ih =>
    have hempty : (r'.line (i + k)).isEmpty = (r.line i).isEmpty := h.isEmpty hlt
    rw [Paragraph.stop, Paragraph.stop.eq_def r, if_pos (h.lt hlt), if_pos hlt]
    dsimp only
    rw [hempty, h.line_indent hlt, h.indent.1, h.indent.2, h.interrupts hlt, Nat.add_right_comm, ih,
      apply_ite (· + k), apply_ite (· + k), apply_ite (· + k)]

theorem definition_stop (h : r.Moved r' d k) (hi : i ≤ r.height) :
    Definition.stop r' (i + k) = Definition.stop r i + k := by
  induction hi using Nat.decreasingInduction with
  | self =>
    rw [Definition.stop, Definition.stop.eq_def r, if_neg (Nat.lt_irrefl _)]
    split
    · next hlt =>
      have hempty : (r'.line (r.height + k)).isEmpty = true := (h.below hlt (Nat.le_refl _)).2
      rw [if_pos hempty]
    · rfl
  | of_succ i hlt ih =>
    have hempty : (r'.line (i + k)).isEmpty = (r.line i).isEmpty := h.isEmpty hlt
    rw [Definition.stop, Definition.stop.eq_def r, if_pos (h.lt hlt), if_pos hlt]
    dsimp only
    rw [hempty, h.line_indent hlt, h.interrupts hlt, Nat.add_right_comm, ih,
      apply_ite (· + k), apply_ite (· + k)]

theorem underline_find? (h : r.Moved r' d k) (hi : i ≤ r.height) :
    Underline.find? r' r'.height (i + k) =
      (Underline.find? r r.height i).map fun (line, n) => (line + k, n) := by
  induction hi using Nat.decreasingInduction with
  | self =>
    rw [Underline.find?, Underline.find?.eq_def r, if_neg (Nat.lt_irrefl _)]
    split
    · next hlt =>
      have hempty : (r'.line (r.height + k)).isEmpty = true := (h.below hlt (Nat.le_refl _)).2
      rw [if_pos hempty]
      rfl
    · rfl
  | of_succ i hlt ih =>
    have hempty : (r'.line (i + k)).isEmpty = (r.line i).isEmpty := h.isEmpty hlt
    have hlevel : Underline.level? r' (i + k) = Underline.level? r i := by
      rw [Underline.level?, Underline.level?, h.lineText hlt]
    rw [Underline.find?, Underline.find?.eq_def r, if_pos (h.lt hlt), if_pos hlt]
    dsimp only
    rw [hempty, h.line_indent hlt, h.indent.1, h.indent.2, h.interrupts hlt, hlevel,
      Nat.add_right_comm, ih]
    split
    · rfl
    · split
      · rfl
      · cases (if 0 ≤ (r.line i).indent then Underline.level? r i else none) with
        | some n => rfl
        | none =>
          dsimp only
          split
          · rfl
          · split <;> rfl

theorem stop_lt (h : r.Moved r' d k) (hi : i + 1 < r.height) : (r.line i).stop < r.src.size := by
  have hlt : _ < (r.line (i + 1)).first := h.ready.sound.line_lt (Nat.lt_succ_self i) hi
  have hle := h.ready.sound.first_le_stop hi
  have := h.stop_le hi
  omega

theorem text (h : r.Moved r' d k) (hi : i ≤ j) (hj : j ≤ r.height) :
    r'.text (i + k) (j + k) 0 false = r.text i j 0 false := by
  induction hi using Nat.decreasingInduction with
  | self =>
    rw [Region.text.eq_def r', Region.text.eq_def r, if_neg (Nat.lt_irrefl _),
      if_neg (Nat.lt_irrefl _)]
  | of_succ i hlt ih =>
    have hheight := Nat.lt_of_lt_of_le hlt hj
    rw [Region.text.eq_def r', Region.text.eq_def r, if_pos (Nat.add_lt_add_right hlt k),
      if_pos hlt]
    dsimp only
    rw [h.line i hheight, Line.cut_zero, Line.cut_zero, Line.moved, Nat.add_right_comm i k 1, ih]
    dsimp only
    congr 1
    by_cases hnext : i + 1 < j
    · have hlt := h.stop_lt (Nat.lt_of_lt_of_le hnext hj)
      rw [if_pos (by simpa using hnext), if_pos (by simpa using hnext), Nat.add_right_comm,
        h.hasAt.window_moved hlt]
    · rw [if_neg (by simpa using hnext), if_neg (by simpa using hnext),
        h.hasAt.window_moved (h.stop_le hheight)]

theorem runningText (h : r.Moved r' d k) (hi : i ≤ j) (hj : j ≤ r.height) :
    r'.runningText (i + k) (j + k) = r.runningText i j := by
  rw [Region.runningText, Region.runningText, h.indent.1, h.indent.2, h.text hi hj]

/-- The lines of a definition are those of the document, but a last one without a line break gets
one. -/
theorem definition_text (h : r.Moved r' d k) (hi : i ≤ j) (hj : j ≤ r.height) :
    Definition.text r' (i + k) (j + k) = Definition.text r i j ∨
      Definition.text r' (i + k) (j + k) = Definition.text r i j ++ ['\n'] := by
  have hcons {r : Region} {i j : Nat} (hlt : i < j) : Definition.text r i j =
      r.src.window (r.line i).start ((r.line i).stop + 1) ++ Definition.text r (i + 1) j := by
    rw [Definition.text, Definition.text, show j - i = j - (i + 1) + 1 by omega, List.range'_succ,
      List.flatMap_cons]
  have hnil (r : Region) (i : Nat) : Definition.text r i i = [] := by
    rw [Definition.text, Nat.sub_self]
    rfl
  induction hi using Nat.decreasingInduction with
  | self => exact .inl (by rw [hnil, hnil])
  | of_succ i hlt ih =>
    have hheight := Nat.lt_of_lt_of_le hlt hj
    rw [hcons hlt, hcons (Nat.add_lt_add_right hlt k), h.start hheight, h.stop hheight,
      Nat.add_right_comm i k 1, Nat.add_right_comm _ d 1]
    by_cases hstop : (r.line i).stop < r.src.size
    · rw [h.hasAt.window_moved hstop]
      rcases ih with ih | ih
      · exact .inl (by rw [ih])
      · exact .inr (by rw [ih, List.append_assoc])
    · right
      have hlast : i + 1 = j := by
        refine Nat.le_antisymm hlt (Nat.le_of_not_lt fun hnext => hstop (h.stop_lt ?_))
        exact Nat.lt_of_lt_of_le hnext hj
      have hsize : (r.line i).stop = r.src.size :=
        Nat.le_antisymm (h.stop_le hheight) (Nat.le_of_not_lt hstop)
      have hlong : r.src.window (r.line i).start (r.src.size + 1) =
          r.src.window (r.line i).start r.src.size := by
        simp [Source.window]
      have hbreak : r'.src.window (r.src.size + d) (r.src.size + 1 + d) = ['\n'] := by
        rw [Source.window_cons _ h.after (by omega), Source.window_eq_nil_of_le _ (by omega)]
      have hstart : (r.line i).start ≤ r.src.size := by
        obtain ⟨_, _, _, hin⟩ := h.ready.sound.inside hheight
        exact Nat.le_trans hin.start hin.le_size
      subst hlast
      rw [hnil, hnil, hsize, hlong, List.append_nil, List.append_nil,
        ← Source.window_append (Nat.add_le_add_right hstart d)
          (Nat.add_le_add_right (Nat.le_succ r.src.size) d),
        h.hasAt.window_moved (Nat.le_refl _), hbreak]

theorem definition (h : r.Moved r' d k) (hi : i < r.height) :
    Definition.ofLine? r' (i + k) =
      (Definition.ofLine? r i).map fun o => { o with next := o.next + k } := by
  have hle : i ≤ Definition.stop r (i + 1) := Nat.le_of_succ_le (Definition.le_stop r (i + 1))
  rw [Definition.ofLine?, Definition.ofLine?, Nat.add_right_comm, h.definition_stop hi]
  dsimp only
  rcases h.definition_text hle (Definition.stop_le hi) with htext | htext
  · rw [htext]
    cases Definition.read? (Definition.text r i (Definition.stop r (i + 1))) with
    | none => rfl
    | some found =>
      dsimp only [Option.map_some]
      congr 2
      omega
  · rw [htext, Definition.read?_append]
    cases Definition.read? (Definition.text r i (Definition.stop r (i + 1))) with
    | none => rfl
    | some found =>
      dsimp only [Option.map_some]
      rw [Link.before_append]
      congr 2
      omega

/-! ### Mathematics -/

theorem math_lineEnd? (h : r.Moved r' d k) (hi : i < r.height) :
    (MathBlock.lineEnd? r' (i + k)).isSome = (MathBlock.lineEnd? r i).isSome := by
  rw [MathBlock.lineEnd?, MathBlock.lineEnd?, h.lineText hi]
  split
  · rfl
  · rw [Option.isSome_map, Option.isSome_map]

theorem math_closing? (h : r.Moved r' d k) (hi : i ≤ r.height) :
    (MathBlock.closing? r' r'.height (i + k)).isSome =
      (MathBlock.closing? r r.height i).isSome := by
  induction hi using Nat.decreasingInduction with
  | self =>
    rw [MathBlock.closing?, MathBlock.closing?.eq_def r, if_neg (Nat.lt_irrefl _)]
    split
    · next hlt =>
      have hempty : (r'.line (r.height + k)).stop ≤ (r'.line (r.height + k)).start :=
        of_decide_eq_true (h.below hlt (Nat.le_refl _)).2
      have htext : r'.lineText (r.height + k) = [] := Source.window_eq_nil_of_le _ hempty
      have hend : MathBlock.lineEnd? r' (r.height + k) = none := by
        rw [MathBlock.lineEnd?, htext]
        rfl
      have hlast : ¬ r.height + k + 1 < r'.height := by
        rcases h.height with h | ⟨h, -⟩ <;> omega
      rw [hend]
      dsimp only
      rw [MathBlock.closing?, if_neg hlast]
    · rfl
  | of_succ i hlt ih =>
    have hend := h.math_lineEnd? hlt
    rw [MathBlock.closing?, MathBlock.closing?.eq_def r, if_pos (h.lt hlt), if_pos hlt,
      Nat.add_right_comm]
    cases hl : MathBlock.lineEnd? r i with
    | none =>
      rw [hl, Option.isSome_none, Option.isSome_eq_false_iff, Option.isNone_iff_eq_none] at hend
      rw [hend]
      exact ih
    | some found =>
      rw [hl, Option.isSome_some, Option.isSome_iff_exists] at hend
      obtain ⟨found', hend⟩ := hend
      rw [hend]
      rfl

theorem mathBlock (h : r.Moved r' d k) (hi : i < r.height) :
    (MathBlock.read? r' (i + k) r'.height).isSome = (MathBlock.read? r i r.height).isSome := by
  have hclosing := h.math_closing? hi
  rw [MathBlock.read?, MathBlock.read?, h.lineText hi]
  split
  · rw [Option.isSome_map, Option.isSome_map, MathBlock.isSome_ending?, MathBlock.isSome_ending?,
      h.lineText hi, h.math_lineEnd? hi, Nat.add_right_comm, hclosing]
  · rfl

/-! ### Empty lines -/

theorem skipEmpty (h : r.Moved r' d k) (hi : i ≤ r.height) : r'.skipEmpty (i + k) =
    if r.skipEmpty i < r.height then r.skipEmpty i + k else r'.height := by
  induction hi using Nat.decreasingInduction with
  | self =>
    have hend : r.skipEmpty r.height = r.height := by
      rw [Region.skipEmpty, if_neg (Nat.lt_irrefl _)]
    rw [hend, if_neg (Nat.lt_irrefl _)]
    rcases h.height with heq | ⟨heq, hempty⟩
    · rw [← heq, Region.skipEmpty, if_neg (Nat.lt_irrefl _)]
    · rw [Region.skipEmpty, if_pos (by omega), hempty, if_pos rfl, ← heq, Region.skipEmpty,
        if_neg (Nat.lt_irrefl _)]
  | of_succ i hlt ih =>
    rw [Region.skipEmpty, Region.skipEmpty.eq_def r, if_pos (h.lt hlt), if_pos hlt, h.isEmpty hlt,
      Nat.add_right_comm]
    split
    · exact ih
    · rfl

theorem passEmpty (h : r.Moved r' d k) (hi : i < r.height) :
    passEmpty r' r'.height (i + k) = passEmpty r r.height i + k := by
  rw [Block.passEmpty, Block.passEmpty, h.isEmpty hi, decide_eq_true hi, decide_eq_true (h.lt hi)]
  split
  · exact Nat.add_right_comm _ _ _
  · rfl

theorem passEmpty_end (h : r.Moved r' d k) (hi : r.height ≤ i) :
    r'.height ≤ Block.passEmpty r' r'.height (i + k) := by
  rw [Block.passEmpty]
  split
  · next hlt =>
    rw [Bool.and_eq_true, decide_eq_true_iff] at hlt
    rcases h.height with heq | ⟨heq, -⟩ <;> omega
  · next hge =>
    refine Nat.le_of_not_lt fun hlt => hge ?_
    rw [decide_eq_true hlt, (h.below hlt hi).2]
    rfl

end Region.Moved

end MdxProse.Block
