import Mathlib.Data.List.Basic
import MdxProse.Proofs.CarriedText
import MdxProse.Proofs.MovedBlocks

/-!
# Regions with the same lines

Two regions are alike if the lines of the second one are those of the first one, carried to another
text and all indented by the same number of columns more.  What starts on a line is then the same in
both, and so is the text that runs on from it.

* `Region.Alike`: the two regions.  `Region.Alike.start`, `.lineText`: a line starts and ends where
  it is carried to, and has the same text.
* `Line.cut_eq`: what is left of a line without tabs when indentation is cut off.
  `Region.Alike.text`: **cutting off as many columns more leaves the same text.**
* `Region.EndsAlike`: reading ends at the same place.  `Region.Alike.flowExpression`, `.shape?`,
  `.interrupts`: **then the same blocks start on a line.**
* `Region.Alike.paragraph_stop`, `.definition`, `.underline_find?`: the text that runs on from a
  line is the same.
-/

namespace MdxProse.Block

theorem Region.Sound.ne_break {src : Source} {r : Region} {i p : Nat} (h : r.Sound src)
    (hi : i < r.height) (hp : (r.line i).first ≤ p) (hlt : p < (r.line i).stop) :
    src[p]? ≠ some '\n' := by
  obtain ⟨s, body, hline, hin⟩ := h.inside hi
  have hisLine := Anchor.lines_isLine hline
  have hfirst := hin.first
  have hstop := hin.stop
  obtain ⟨q, rfl⟩ := Nat.exists_eq_add_of_le (Nat.le_trans hfirst hp)
  rw [hisLine.hasAt.getElem? (by omega)]
  exact fun hb => hisLine.noBreak (List.mem_of_getElem? hb)

/-! ### Cutting off indentation -/

section Cut

variable {src : Source} {l : Line} {n : Int} {stop : Nat}

theorem Line.outdent_eq (hno : ∀ p : Nat, src[p]? ≠ some '\t') (hstop : l.start ≤ stop)
    (hsize : l.start ≤ src.size) (htext : src.test Text.isSpace l.start = false) {a : Nat}
    (ha : a ≤ l.shift) : outdent src l n stop (l.first + a) a =
      (l.first + max a (min n.toNat l.shift), ((max a (min n.toNat l.shift) : Nat) : Int)) := by
  have hstart : l.start = l.first + l.shift := rfl
  induction ha using Nat.decreasingInduction with
  | self =>
    have hmax : max l.shift (min n.toNat l.shift) = l.shift :=
      Nat.max_eq_left (Nat.min_le_right _ _)
    rw [hmax, outdent]
    split
    · rw [← hstart]
      cases hc : src[l.start]? with
      | none => rfl
      | some c =>
        have hspace : ¬ Text.isSpace c = true := by
          simpa [Source.test, hc] using htext
        dsimp only
        rw [if_neg hspace, if_neg (by omega)]
    · rfl
  | of_succ a hlt ih =>
    rw [outdent]
    split
    · next hcond =>
      have hmax : max (a + 1) (min n.toNat l.shift) = max a (min n.toNat l.shift) := by
        omega
      have hnext : outdent src l n stop (l.first + a + 1) (a + 1) =
          (l.first + max a (min n.toNat l.shift),
            ((max a (min n.toNat l.shift) : Nat) : Int)) := by
        rw [← hmax, Nat.add_assoc]
        exact ih
      cases hc : src[l.first + a]? with
      | none =>
        have := Array.getElem?_eq_none_iff.mp hc
        omega
      | some c =>
        dsimp only
        split
        · have htab : ¬ (c == '\t') = true := by
            rw [beq_iff_eq]
            rintro rfl
            exact hno _ hc
          rw [advance, if_neg htab]
          exact hnext
        · rw [if_pos (by omega)]
          exact hnext
    · have hmax : max a (min n.toNat l.shift) = a := by omega
      rw [hmax]

/-- **What is left of a line without tabs** starts as many characters further on as columns are cut
off, but not after its indentation. -/
theorem Line.cut_eq (hno : ∀ p : Nat, src[p]? ≠ some '\t') (hstop : l.start ≤ stop)
    (hsize : l.start ≤ src.size) (htext : src.test Text.isSpace l.start = false) :
    l.cut src n stop =
      List.replicate (((min n.toNat l.shift : Nat) : Int) - n).toNat ' ' ++
        src.window (l.first + min n.toNat l.shift) stop := by
  have h := outdent_eq (n := n) hno hstop hsize htext (Nat.zero_le l.shift)
  rw [Nat.zero_max, Nat.add_zero, Int.natCast_zero] at h
  rw [cut, h]

end Cut

/-! ### Tags and runs that are carried -/

namespace Element

/-- The shape of a line of tags, carried to another text. -/
def Shape.carried (f : Nat → Nat) : Shape → Shape
  | .stray t => .stray (t.carried f)
  | .open_ t stop => .open_ (t.carried f) (f stop)
  | .run ts stop => .run (ts.map (Tag.carried f)) (f stop)

/-- The run that holds a closing tag, carried to another text. -/
def ClosingRun.carried (f : Nat → Nat) (run : ClosingRun) : ClosingRun :=
  ⟨run.line, run.before.map (Tag.carried f), run.closer.carried f,
    run.after.map (Tag.carried f), f run.stop⟩

variable (f : Nat → Nat)

theorem Shape.ofRun?_carried (ts : List Tag) (stop : Nat) :
    ofRun? (ts.map (Tag.carried f), f stop) = (ofRun? (ts, stop)).map (carried f) := by
  match ts with
  | [] => rfl
  | [t] =>
    obtain ⟨name, span, form⟩ := t
    cases form <;> rfl
  | t :: u :: ts =>
    show (if Tag.balanced ((t :: u :: ts).map (Tag.carried f)) then some _ else none) =
      (if Tag.balanced (t :: u :: ts) then some _ else none).map (carried f)
    rw [Tag.balanced_carried]
    split <;> rfl

theorem findIn_carried (name : Option String) (inner : Nat) (ts : List Tag) :
    findIn name inner (ts.map (Tag.carried f)) = (findIn name inner ts).map
      (fun (before, closer, after) => (before.map (Tag.carried f), closer.carried f,
        after.map (Tag.carried f))) id := by
  induction ts generalizing inner with
  | nil => rfl
  | cons t ts ih =>
    obtain ⟨tname, span, form⟩ := t
    cases form with
    | opening =>
      simp only [List.map_cons, Tag.carried, findIn, ih]
      split
      · cases findIn name (inner + 1) ts <;> rfl
      · cases findIn name inner ts <;> rfl
    | selfClosing =>
      simp only [List.map_cons, Tag.carried, findIn, ih]
      split <;> cases findIn name inner ts <;> rfl
    | closing =>
      cases inner with
      | zero =>
        simp only [List.map_cons, Tag.carried, findIn, ih]
        split
        · rfl
        · cases findIn name 0 ts <;> rfl
      | succ n =>
        simp only [List.map_cons, Tag.carried, findIn, ih]
        split
        · cases findIn name n ts <;> rfl
        · cases findIn name (n + 1) ts <;> rfl

end Element

/-! ### Regions that are alike -/

/-- A column that is further right by as much as all lines are. -/
def Deeper (m : Carrying) (a b : Int) : Prop :=
  b = a + m.columns ∧ (m.columns = 0 ∨ 0 ≤ a)

/-- **The line `l` of a text, carried to another one.** -/
structure Line.Alike (m : Carrying) (l l' : Line) : Prop where
  lo : m.lo ≤ l.first
  hi : l.stop ≤ m.hi
  first : l'.first + m.columns = m.carry l.first
  stop : l'.stop = m.carry l.stop
  shift : l'.shift = l.shift + m.columns
  indent : Deeper m l.indent l'.indent
  marked : m.src.Marked l.start
  /-- The line ends at a line break, at the end of the text, or at a tag. -/
  ends : m.src[l.stop]? = none ∨ m.src[l.stop]? = some '\n' ∨ m.src[l.stop]? = some '<'

/-- **The region `r'` shows the lines of `r`**, each of them carried to another text.  More lines
may follow in it. -/
structure Region.Alike (m : Carrying) (r r' : Region) : Prop where
  sound : r.Sound m.src
  src : r'.src = m.dst
  height : r.height ≤ r'.height
  size : r'.height ≤ r'.lines.size
  line : ∀ i, m.first ≤ i → i < r.height → (r.line i).Alike m (r'.line i)
  indent : Deeper m r.indent r'.indent
  listIndent : Deeper m r.listIndent r'.listIndent ∨ r.listIndent = -1 ∧ r'.listIndent = -1
  /-- Lines that are not carried are as empty as they were. -/
  isEmpty_off : ∀ i, i < m.first ∨ r.height ≤ i → r'.isEmpty i = r.isEmpty i

/-- **Reading ends at the same place in both regions**, but in the first one the limit may stand
before white space that is in the limit of the second one, with lines of its own. -/
structure Region.EndsAlike (m : Carrying) (r r' : Region) (past past' : Nat) : Prop where
  limit : ∃ limit, limit ≤ m.hi ∧ r'.limit past' = m.carry limit ∧
    (r.limit past = limit ∨ m.src.Trails (r.limit past) ∧ limit = m.src.size)
  le : past ≤ past'
  below : ∀ i, past ≤ i → i < past' → r'.isEmpty i = true

/-! ### Lines -/

namespace Region.Alike

variable {m : Carrying} {r r' : Region} {i past past' : Nat} {host : Host}

theorem src_eq (h : r.Alike m r') : r.src = m.src :=
  h.sound.src_eq

section Line

variable (h : r.Alike m r') (hi : m.first ≤ i) (hlt : i < r.height)

include h hi hlt

theorem first_le : m.lo ≤ (r.line i).start ∧ (r.line i).first ≤ (r.line i).start ∧
    (r.line i).start ≤ (r.line i).stop ∧ (r.line i).stop ≤ m.hi := by
  obtain ⟨_, _, _, hin⟩ := h.sound.inside hlt
  have hline := h.line i hi hlt
  have hfirst : (r.line i).first ≤ (r.line i).start := Nat.le_add_right _ _
  exact ⟨Nat.le_trans hline.lo hfirst, hfirst, hin.start, hline.hi⟩

theorem carry_add {p n : Nat} (hp : (r.line i).first ≤ p) (hn : p + n ≤ (r.line i).stop) :
    m.carry (p + n) = m.carry p + n := by
  have hline := h.line i hi hlt
  exact Carrying.carry_add (Nat.le_trans hline.lo hp) (Nat.le_trans hn hline.hi)
    fun q hq hqn => h.sound.ne_break hlt (Nat.le_trans hp hq) (Nat.lt_of_lt_of_le hqn hn)

theorem start : (r'.line i).start = m.carry (r.line i).start := by
  obtain ⟨-, -, hstart, -⟩ := h.first_le hi hlt
  have hline := h.line i hi hlt
  have hto := h.carry_add hi hlt (Nat.le_refl _) hstart
  have hfirst := hline.first
  rw [Line.start, Line.start, hto, hline.shift]
  omega

theorem isEmpty : r'.isEmpty i = r.isEmpty i := by
  rw [Region.isEmpty, Region.isEmpty, Line.isEmpty, Line.isEmpty, h.start hi hlt,
    (h.line i hi hlt).stop, decide_eq_decide.mpr m.carry_le_carry]

theorem lineText : r'.lineText i = r.lineText i := by
  obtain ⟨hlo, hfirst, hstart, hhi⟩ := h.first_le hi hlt
  rw [Region.lineText, Region.lineText, h.start hi hlt, (h.line i hi hlt).stop, h.src, h.src_eq]
  exact Carrying.window hlo hstart hhi fun p hp hps =>
    h.sound.ne_break hlt (Nat.le_trans hfirst hp) hps

theorem test {p : Nat} (hp : (r.line i).first ≤ p) (hps : p ≤ (r.line i).stop) (f : Char → Bool) :
    r'.src.test f (m.carry p) = r.src.test f p := by
  have hline := h.line i hi hlt
  rw [h.src, h.src_eq]
  exact Carrying.test (Nat.le_trans hline.lo hp) (Nat.le_trans hps hline.hi) f

omit hi in
theorem not_space : m.src.test Text.isSpace (r.line i).start = false ∧
    m.src.test Text.isSpace (r.line i).stop = false := by
  obtain ⟨_, _, _, hin⟩ := h.sound.inside hlt
  exact ⟨hin.text, hin.tail⟩

/-- A block of tags or an expression starts where the map is known to take it. -/
theorem code {c : Char} (hc : m.src[(r.line i).start]? = some c) (hcode : c = '<' ∨ c = '\x7b')
    (he : (r.line i).start < (r.line i).stop) : m.code (r.line i).start := by
  obtain ⟨hlo, -, -, hhi⟩ := h.first_le hi hlt
  refine m.code_of_marked _ hlo (Nat.lt_of_lt_of_le he hhi) (h.line i hi hlt).marked ?_
  rcases hcode with rfl | rfl
  · exact .inl hc
  · exact .inr hc

/-! ### What starts on a line -/

theorem fence : Fence.opening? r' i = Fence.opening? r i := by
  rw [Fence.opening?, Fence.opening?, h.lineText hi hlt]

theorem quote : Quote.starts r' i = Quote.starts r i := by
  rw [Quote.starts, Quote.starts, h.lineText hi hlt]

theorem thematicBreak : ThematicBreak.starts r' i = ThematicBreak.starts r i := by
  rw [ThematicBreak.starts, ThematicBreak.starts, h.lineText hi hlt]

theorem heading : Heading.starts r' i = Heading.starts r i := by
  rw [Heading.starts, Heading.starts, h.lineText hi hlt]

theorem underline_level? : Underline.level? r' i = Underline.level? r i := by
  rw [Underline.level?, Underline.level?, h.lineText hi hlt]

/-- A line is indented as much more than its container in both regions. -/
theorem line_indent : (r'.line i).indent - r'.indent = (r.line i).indent - r.indent ∧
    ((r'.line i).indent < r'.indent ↔ (r.line i).indent < r.indent) ∧
    ((r'.line i).indent < 0 ↔ (r.line i).indent < 0) := by
  obtain ⟨hline, hcase⟩ := (h.line i hi hlt).indent
  obtain ⟨hr, -⟩ := h.indent
  omega

theorem marker : Marker.ofLine? r' i = Marker.ofLine? r i := by
  obtain ⟨hline, -⟩ := (h.line i hi hlt).indent
  obtain ⟨hr, -⟩ := h.indent
  have hdeep : (0 ≤ r'.listIndent ∧ 4 ≤ (r'.line i).indent - r'.listIndent ∧
      (r'.line i).indent < r'.indent) ↔ (0 ≤ r.listIndent ∧ 4 ≤ (r.line i).indent - r.listIndent ∧
      (r.line i).indent < r.indent) := by
    rcases h.listIndent with ⟨hl, hcase⟩ | ⟨hl, hl'⟩ <;> omega
  rw [Marker.ofLine?, Marker.ofLine?, h.lineText hi hlt]
  simp only [Bool.and_eq_true, decide_eq_true_eq, and_assoc, hdeep]

theorem marker_interrupts : Marker.interrupts r' host i = Marker.interrupts r host i := by
  obtain ⟨-, hindent, -⟩ := h.line_indent hi hlt
  have hle : r'.indent ≤ (r'.line i).indent ↔ r.indent ≤ (r.line i).indent := by omega
  rw [Marker.interrupts, Marker.interrupts, h.marker hi hlt, h.lineText hi hlt,
    decide_eq_decide.mpr hle]

end Line

theorem isEmpty_all (h : r.Alike m r') (i : Nat) : r'.isEmpty i = r.isEmpty i := by
  by_cases hi : i < m.first
  · exact h.isEmpty_off i (.inl hi)
  · by_cases hlt : i < r.height
    · exact h.isEmpty (Nat.le_of_not_lt hi) hlt
    · exact h.isEmpty_off i (.inr (Nat.le_of_not_lt hlt))

/-! ### Limits -/

theorem endsAlike (h : r.Alike m r') (hfirst : m.first < past) (hpast : past ≤ r.height) :
    r.EndsAlike m r' past past := by
  have hline := h.line (past - 1) (by omega) (by omega)
  exact ⟨⟨r.limit past, hline.hi, hline.stop, .inl rfl⟩, Nat.le_refl _, fun i _ _ => by omega⟩

section Ends

variable {limit limit' : Nat}

/-- A limit that white space follows is as good as the end. -/
theorem run?_limit {src : Source} {p : Nat}
    (hl : limit' = limit ∨ src.Trails limit' ∧ limit = src.size) :
    Tag.run? src p limit' = Tag.run? src p limit := by
  rcases hl with rfl | ⟨htrails, rfl⟩
  · rfl
  · exact Tag.run?_trails htrails

theorem expression_limit {src : Source} {p : Nat}
    (hl : limit' = limit ∨ src.Trails limit' ∧ limit = src.size) :
    Expression.stop? src p limit' = Expression.stop? src p limit := by
  rcases hl with rfl | ⟨htrails, rfl⟩
  · rfl
  · exact Expression.stop?_trails htrails

theorem ends_limit {src : Source} {p : Nat}
    (hl : limit' = limit ∨ src.Trails limit' ∧ limit = src.size) (hp : p ≤ limit') :
    (decide (limit' ≤ src.skipWhile Text.isSpace p limit') ||
        src.has '\n' (src.skipWhile Text.isSpace p limit')) =
      (decide (limit ≤ src.skipWhile Text.isSpace p limit) ||
        src.has '\n' (src.skipWhile Text.isSpace p limit)) := by
  rcases hl with rfl | ⟨htrails, rfl⟩
  · rfl
  · rw [htrails.skipWhile_eq hp, htrails.ends_iff (Source.skipWhile_le hp)]

end Ends

section Starts

variable (h : r.Alike m r') (hends : r.EndsAlike m r' past past') (hi : m.first ≤ i)
  (hlt : i < r.height)

include h hends hi hlt

/-- **A run of tags is found on the line in both regions.** -/
theorem run? (he : r.isEmpty i = false) : Tag.run? r'.src (r'.line i).start (r'.limit past') =
    (Tag.run? r.src (r.line i).start (r.limit past)).map fun (ts, stop) =>
      (ts.map (Tag.carried m.carry), m.carry stop) := by
  obtain ⟨limit, hhi, hlimit, hl⟩ := hends.limit
  have hlt' : (r.line i).start < (r.line i).stop := by
    simpa [Region.isEmpty, Line.isEmpty] using he
  rw [h.start hi hlt, hlimit, h.src, h.src_eq, run?_limit hl]
  by_cases hc : m.src[(r.line i).start]? = some '<'
  · exact Carrying.run? (h.code hi hlt hc (.inl rfl) hlt') hhi
  · -- no tag starts there
    obtain ⟨hlo, -, -, hle⟩ := h.first_le hi hlt
    have hc' : m.dst[m.carry (r.line i).start]? ≠ some '<' := by
      rwa [m.char _ hlo (by omega)]
    have hnone {src : Source} {p limit : Nat} (hc : src[p]? ≠ some '<') :
        Tag.run? src p limit = none := by
      rw [Tag.run?_eq]
      cases ht : Tag.scan? src p limit with
      | none => rfl
      | some t => exact absurd (Tag.has_lt_of_scan? ht) hc
    rw [hnone hc, hnone hc']
    rfl

/-- **An expression stands alone on the line in both regions.** -/
theorem flowExpression : FlowExpression.stop? r' i past' =
    (FlowExpression.stop? r i past).map m.carry := by
  obtain ⟨limit, hhi, hlimit, hl⟩ := hends.limit
  obtain ⟨hlo, hfirst, hstart, hle⟩ := h.first_le hi hlt
  have hempty : (r'.line i).isEmpty = (r.line i).isEmpty := h.isEmpty hi hlt
  have hhas : r'.src.has '\x7b' (r'.line i).start = r.src.has '\x7b' (r.line i).start := by
    rw [h.start hi hlt]
    exact h.test hi hlt hfirst hstart _
  rw [FlowExpression.stop?, FlowExpression.stop?, hempty, hhas, hlimit]
  split
  · next hcond =>
    rw [Bool.and_eq_true, Bool.not_eq_true', Line.isEmpty, decide_eq_false_iff_not,
      h.src_eq] at hcond
    obtain ⟨c, hc, hbrace⟩ := Source.test_iff.mp hcond.2
    obtain rfl := beq_iff_eq.mp hbrace
    have hcode := h.code hi hlt hc (.inr rfl) (Nat.lt_of_not_le hcond.1)
    dsimp only
    rw [h.start hi hlt, h.src, h.src_eq, Carrying.expression_limit hcode, ← expression_limit hl]
    cases hstop : Expression.stop? m.src (r.line i).start (r.limit past) with
    | none => rfl
    | some stop =>
      have hstop' := hstop
      rw [expression_limit hl] at hstop'
      have hlt := Expression.lt_of_stop? hstop'
      have hle' := Expression.stop_le_limit hstop'
      have hskip := m.src.le_skipWhile Text.isSpace stop limit
      have hskip' := m.src.skipWhile_le hle' (p := Text.isSpace)
      dsimp only [Option.map_some]
      rw [ends_limit hl (Expression.stop_le_limit hstop),
        Carrying.skipWhile rfl (by omega) hle' hhi, Carrying.ends (by omega) (by omega)]
      split <;> rfl
  · rfl

/-- **The line is a line of tags in both regions.** -/
theorem shape? : Element.shape? r' i past' =
    (Element.shape? r i past).map (Element.Shape.carried m.carry) := by
  have hempty : (r'.line i).isEmpty = (r.line i).isEmpty := h.isEmpty hi hlt
  rw [Element.shape?, Element.shape?, hempty]
  cases he : (r.line i).isEmpty with
  | true => rfl
  | false =>
    rw [if_neg Bool.false_ne_true, if_neg Bool.false_ne_true, h.run? hends hi hlt he]
    cases Tag.run? r.src (r.line i).start (r.limit past) with
    | none => rfl
    | some found => exact Element.Shape.ofRun?_carried m.carry found.1 found.2

/-- **A line interrupts the same in both regions.** -/
theorem interrupts : interrupts r' host i past' = interrupts r host i past := by
  have hexpression : FlowExpression.starts r' i past' = FlowExpression.starts r i past := by
    rw [FlowExpression.starts, FlowExpression.starts, h.flowExpression hends hi hlt,
      Option.isSome_map]
  have helement : Element.starts r' i past' = Element.starts r i past := by
    rw [Element.starts, Element.starts, h.shape? hends hi hlt, Option.isSome_map]
  rw [Block.interrupts.eq_def r', Block.interrupts.eq_def r, hexpression, helement, h.fence hi hlt,
    h.quote hi hlt, h.thematicBreak hi hlt, h.heading hi hlt]
  simp only [h.marker_interrupts hi hlt]

end Starts

/-! ### Finding lines -/

/-- **An offset is on the same line in both regions.** -/
theorem lineReaching (h : r.Alike m r') {j offset : Nat} (hi : m.first ≤ i) (hij : i ≤ j)
    (hj : j < r.height) (hs : offset ≤ (r.line j).stop) :
    r'.lineReaching (m.carry offset) i = r.lineReaching offset i := by
  have hstop {k : Nat} (hik : i ≤ k) (hk : k ≤ j) : (r'.line k).stop = m.carry (r.line k).stop :=
    (h.line k (Nat.le_trans hi hik) (Nat.lt_of_le_of_lt hk hj)).stop
  obtain ⟨hge, hle, hreach, hbefore⟩ :=
    r.lineReaching_spec hij (Nat.lt_of_lt_of_le hj h.sound.height) hs
  have hs' : m.carry offset ≤ (r'.line j).stop := by
    rw [hstop hij (Nat.le_refl j)]
    exact m.carry_le_carry.mpr hs
  obtain ⟨hge', hle', hreach', hbefore'⟩ := r'.lineReaching_spec hij
    (Nat.lt_of_lt_of_le hj (Nat.le_trans h.height h.size)) hs'
  generalize r.lineReaching offset i = k at *
  generalize r'.lineReaching (m.carry offset) i = k' at *
  rcases Nat.lt_trichotomy k k' with hlt | heq | hlt
  · have := hbefore' k hge hlt
    rw [hstop hge hle, m.carry_lt_carry] at this
    omega
  · exact heq.symm
  · have := hbefore k' hge' hlt
    rw [hstop hge' hle', m.carry_le_carry] at hreach'
    omega

theorem skipEmpty (h : r.Alike m r') (hh : r'.height = r.height) (hi : m.first ≤ i) :
    r'.skipEmpty i = r.skipEmpty i := by
  fun_induction Region.skipEmpty r i with
  | case1 i hlt hempty ih =>
    rw [Region.skipEmpty, if_pos (hh ▸ hlt), h.isEmpty hi hlt, if_pos hempty]
    exact ih (Nat.le_succ_of_le hi)
  | case2 i hlt hempty =>
    rw [Region.skipEmpty, if_pos (hh ▸ hlt), h.isEmpty hi hlt, if_neg hempty]
  | case3 i hlt => rw [Region.skipEmpty, if_neg (hh ▸ hlt)]

theorem passEmpty (h : r.Alike m r') :
    Block.passEmpty r' past i = Block.passEmpty r past i := by
  rw [Block.passEmpty, Block.passEmpty, h.isEmpty_all]

/-! ### Text -/

section Text

variable {a b : Int}

/-- **As many columns more cut off a line leave the same text.** -/
theorem cut (h : r.Alike m r') (hi : m.first ≤ i) (hlt : i < r.height) (hd : Deeper m a b) :
    (r'.line i).cut r'.src b (r'.line i).stop = (r.line i).cut r.src a (r.line i).stop ∧
      (r'.line i).cut r'.src b ((r'.line i).stop + 1) =
        (r.line i).cut r.src a ((r.line i).stop + 1) := by
  obtain ⟨hlo, hfirst, hstart, hhi⟩ := h.first_le hi hlt
  obtain ⟨hspace, -⟩ := h.not_space hlt
  have hline := h.line i hi hlt
  have hto := m.carry_le_carry.mpr hhi
  have hsize := m.le_size
  have hsize' := m.carry_le
  have hspace' : m.dst.test Text.isSpace (m.carry (r.line i).start) = false := by
    rw [Carrying.test hlo (Nat.le_trans hstart hhi)]
    exact hspace
  have hstart' := m.carry_le_carry.mpr hstart
  -- the indentation that is cut off is as much wider as all lines are indented more
  obtain ⟨hb, hcase⟩ := hd
  have hmin : min b.toNat (r'.line i).shift = min a.toNat (r.line i).shift + m.columns := by
    rw [hline.shift]
    omega
  have hpad : ((min b.toNat (r'.line i).shift : Nat) : Int) - b =
      (min a.toNat (r.line i).shift : Nat) - a := by
    rw [hmin]
    omega
  have hshift : (r.line i).start = (r.line i).first + (r.line i).shift := rfl
  have hfrom : (r'.line i).first + min b.toNat (r'.line i).shift =
      m.carry ((r.line i).first + min a.toNat (r.line i).shift) := by
    have := hline.first
    rw [h.carry_add hi hlt (Nat.le_refl _) (by omega), hmin]
    omega
  have hlo' : m.lo ≤ (r.line i).first + min a.toNat (r.line i).shift := by
    have := hline.lo
    omega
  have hrow : ∀ p, (r.line i).first + min a.toNat (r.line i).shift ≤ p → p < (r.line i).stop →
      m.src[p]? ≠ some '\n' :=
    fun p hp hps => h.sound.ne_break hlt (by omega) hps
  have hnoTab := fun p => (m.noTab p).1
  have hnoTab' := fun p => (m.noTab p).2
  rw [h.src, h.src_eq, hline.stop]
  constructor
  · rw [Line.cut_eq hnoTab' (by rw [h.start hi hlt]; exact hstart')
      (by rw [h.start hi hlt]; omega) (by rw [h.start hi hlt]; exact hspace'),
      Line.cut_eq hnoTab hstart (by omega) hspace, hpad, hfrom,
      Carrying.window hlo' (by omega) hhi hrow]
  · rw [Line.cut_eq hnoTab' (by rw [h.start hi hlt]; omega)
      (by rw [h.start hi hlt]; omega) (by rw [h.start hi hlt]; exact hspace'),
      Line.cut_eq hnoTab (by omega) (by omega) hspace, hpad, hfrom,
      Carrying.window_succ hlo' (by omega) hhi hrow]

theorem text (h : r.Alike m r') {j : Nat} (hi : m.first ≤ i) (hj : j ≤ r.height)
    (hd : Deeper m a b) (keepBreak : Bool) :
    r'.text i j b keepBreak = r.text i j a keepBreak := by
  fun_induction Region.text r i j a keepBreak with
  | case1 i hlt l stop ih =>
    have hcut := h.cut hi (Nat.lt_of_lt_of_le hlt hj) hd
    rw [Region.text, if_pos hlt, ih (Nat.le_succ_of_le hi)]
    dsimp only [l, stop]
    congr 1
    split
    · exact hcut.2
    · exact hcut.1
  | case2 i hlt => rw [Region.text, if_neg hlt]

theorem runningText (h : r.Alike m r') {j : Nat} (hi : m.first ≤ i) (hj : j ≤ r.height) :
    r'.runningText i j = r.runningText i j := by
  rw [Region.runningText, Region.runningText, h.text hi hj h.indent]

end Text

/-! ### Paragraphs and definitions -/

section Running

variable (h : r.Alike m r') (hends : r.EndsAlike m r' r.height r'.height)

include h hends

theorem paragraph_stop (hi : m.first ≤ i) (hle : i ≤ r.height) :
    Paragraph.stop r' i = Paragraph.stop r i := by
  induction hle using Nat.decreasingInduction with
  | self =>
    rw [Paragraph.stop, Paragraph.stop.eq_def r, if_neg (Nat.lt_irrefl _)]
    split
    · next hlt =>
      have hempty : (r'.line r.height).isEmpty = true := hends.below _ (Nat.le_refl _) hlt
      rw [if_pos hempty]
    · rfl
  | of_succ i hlt ih =>
    obtain ⟨hindent, -, hneg⟩ := h.line_indent hi hlt
    have hempty : (r'.line i).isEmpty = (r.line i).isEmpty := h.isEmpty hi hlt
    rw [Paragraph.stop, Paragraph.stop.eq_def r, if_pos (Nat.lt_of_lt_of_le hlt h.height),
      if_pos hlt]
    dsimp only
    simp only [hempty, hindent, hneg, h.interrupts hends hi hlt, ih (Nat.le_succ_of_le hi)]

theorem definition_stop (hi : m.first ≤ i) (hle : i ≤ r.height) :
    Definition.stop r' i = Definition.stop r i := by
  induction hle using Nat.decreasingInduction with
  | self =>
    rw [Definition.stop, Definition.stop.eq_def r, if_neg (Nat.lt_irrefl _)]
    split
    · next hlt =>
      have hempty : (r'.line r.height).isEmpty = true := hends.below _ (Nat.le_refl _) hlt
      rw [if_pos hempty]
    · rfl
  | of_succ i hlt ih =>
    obtain ⟨-, -, hneg⟩ := h.line_indent hi hlt
    have hempty : (r'.line i).isEmpty = (r.line i).isEmpty := h.isEmpty hi hlt
    rw [Definition.stop, Definition.stop.eq_def r, if_pos (Nat.lt_of_lt_of_le hlt h.height),
      if_pos hlt]
    dsimp only
    simp only [hempty, hneg, h.interrupts hends hi hlt, ih (Nat.le_succ_of_le hi)]

end Running

theorem underline_find? (h : r.Alike m r') (hpast : past ≤ r.height) (hi : m.first ≤ i) :
    Underline.find? r' past i = Underline.find? r past i := by
  by_cases hle : i ≤ past
  · induction hle using Nat.decreasingInduction with
    | self =>
      rw [Underline.find?, Underline.find?.eq_def r, if_neg (Nat.lt_irrefl _),
        if_neg (Nat.lt_irrefl _)]
    | of_succ i hlt ih =>
      have hheight := Nat.lt_of_lt_of_le hlt hpast
      obtain ⟨hindent, hless, hneg⟩ := h.line_indent hi hheight
      have hle : r'.indent ≤ (r'.line i).indent ↔ r.indent ≤ (r.line i).indent := by omega
      have hempty : (r'.line i).isEmpty = (r.line i).isEmpty := h.isEmpty hi hheight
      have hends := h.endsAlike (Nat.lt_of_le_of_lt hi hlt) hpast
      rw [Underline.find?, Underline.find?.eq_def r, if_pos hlt, if_pos hlt]
      dsimp only
      simp only [hempty, hindent, hle, hneg, h.underline_level? hi hheight,
        h.interrupts hends hi hheight, ih (Nat.le_succ_of_le hi)]
  · rw [Underline.find?, Underline.find?.eq_def r, if_neg (by omega), if_neg (by omega)]

theorem definition_text (h : r.Alike m r') (hi : m.first ≤ i) {j : Nat} (hj : j ≤ r.height) :
    Definition.text r' i j = Definition.text r i j := by
  rw [Definition.text, Definition.text]
  refine List.flatMap_congr fun k hk => ?_
  rw [List.mem_range'_1] at hk
  have hik := Nat.le_trans hi hk.1
  have hlt : k < r.height := by omega
  obtain ⟨hlo, hfirst, hstart, hhi⟩ := h.first_le hik hlt
  rw [h.start hik hlt, (h.line k hik hlt).stop, h.src, h.src_eq]
  exact Carrying.window_succ hlo hstart hhi fun p hp hps =>
    h.sound.ne_break hlt (Nat.le_trans hfirst hp) hps

/-- **The same definition starts on the line.** -/
theorem definition (h : r.Alike m r') (hends : r.EndsAlike m r' r.height r'.height)
    (hi : m.first ≤ i) (hlt : i < r.height) : Definition.ofLine? r' i = Definition.ofLine? r i := by
  rw [Definition.ofLine?, Definition.ofLine?, h.definition_stop hends (Nat.le_succ_of_le hi) hlt,
    h.definition_text hi (Definition.stop_le hlt)]

end Region.Alike

end MdxProse.Block
