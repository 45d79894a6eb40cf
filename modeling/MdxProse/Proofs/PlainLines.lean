import MdxProse.Proofs.Blocks
import MdxProse.Proofs.PlainTags

/-!
# Lines that start no block of their own

The first character of a line without indentation tells which blocks can start on it.

* `Region.Holds`: what an unindented line holds.
* `Region.Holds.readBlock_letter`: **a line that starts with a letter starts a paragraph**, unless
  it is a module statement or has an underline.
* `readBlock_tags`: a line of tags starts an element.
* `Region.Holds.interrupts_letter`: a line that starts with a letter interrupts nothing.
* `readBlocks_end`, `readBlocks_error`, `readBlocks_block`: what reading blocks comes to, by its
  first step.  `exists_rest`: **what was read is the first block and a row of others.**
-/

namespace MdxProse

theorem Text.ne_of_isAlpha {c d : Char} (hc : c.isAlpha = true) (hd : d.isAlpha = false) :
    c ≠ d := by
  rintro rfl
  rw [hc] at hd
  cases hd

theorem unifyBreaks_cons {c : Char} (hc : c ≠ '\r') (w : List Char) :
    unifyBreaks (c :: w) = c :: unifyBreaks w := by
  rw [unifyBreaks]
  · exact fun _ heq _ => hc heq
  · exact hc

theorem unifyBreaks_eq {w : List Char} (h : '\r' ∉ w) : unifyBreaks w = w := by
  induction w with
  | nil => rfl
  | cons c w ih =>
    rw [List.mem_cons, not_or] at h
    rw [unifyBreaks_cons (Ne.symm h.1), ih h.2]

theorem replaceNul_eq {w : List Char} (h : '\x00' ∉ w) : replaceNul w = w := by
  rw [replaceNul, ← List.map_id w, List.map_map]
  apply List.map_congr_left
  intro c hc
  have hne : c ≠ '\x00' := fun heq => h (heq ▸ hc)
  simp [hne]

/-- A text without carriage returns is read as it is, but for NULs. -/
theorem Document.source_replaceNul {w : List Char} (h : '\r' ∉ w) :
    (Document.ofString (String.ofList w)).source = (replaceNul w).toArray := by
  show (normalize (String.ofList w).toList).toArray = _
  rw [String.toList_ofList, normalize, unifyBreaks_eq h]

theorem Document.source_ofList {w : List Char} (hbreak : '\r' ∉ w) (hnul : '\x00' ∉ w) :
    (Document.ofString (String.ofList w)).source = w.toArray := by
  rw [source_replaceNul hbreak, replaceNul_eq hnul]

theorem Document.source_ofString {w : List Char} (h : ∀ c ∈ w, Text.isPlain c = true) :
    (Document.ofString (String.ofList w)).source.toList = w := by
  have hplain {c : Char} (hc : Text.isPlain c = false) : c ∉ w := fun hmem => by
    rw [h c hmem] at hc
    cases hc
  rw [source_ofList (hplain (by decide)) (hplain (by decide))]

namespace Block

/-! ### What a line holds -/

theorem Line.ofBody_of_head {c : Char} (hc : Text.isSpace c = false) (s : Nat) (w : List Char) :
    ofBody s (c :: w) = ⟨s, s + (c :: w).length, 0, 0, 0⟩ := by
  rw [ofBody, List.takeWhile_cons_of_neg (by simp [hc])]
  rfl

theorem Line.cut_zero (src : Source) (l : Line) (stop : Nat) :
    l.cut src 0 stop = src.window l.first stop := by
  rw [cut, outdent, if_neg (by simp)]
  rfl

/-- Line `i` of the region holds the text `w`, which stands at `pos`, and has no indentation. -/
structure Region.Holds (r : Region) (i pos : Nat) (w : List Char) : Prop where
  line : r.line i = ⟨pos, pos + w.length, 0, 0, 0⟩
  hasAt : r.src.HasAt pos w

namespace Region.Holds

variable {r : Region} {i pos : Nat} {c : Char} {w : List Char}

theorem start (h : r.Holds i pos w) : (r.line i).start = pos := by
  rw [h.line]
  rfl

theorem stop (h : r.Holds i pos w) : (r.line i).stop = pos + w.length := by
  rw [h.line]

theorem indent (h : r.Holds i pos w) : (r.line i).indent = 0 := by
  rw [h.line]

theorem lineText (h : r.Holds i pos w) : r.lineText i = w := by
  rw [Region.lineText, h.start, h.stop]
  exact h.hasAt.window_eq

theorem isEmpty (h : r.Holds i pos (c :: w)) : r.isEmpty i = false := by
  rw [Region.isEmpty, Line.isEmpty, h.start, h.stop, List.length_cons, decide_eq_false_iff_not]
  omega

theorem cut (h : r.Holds i pos w) (stop : Nat) :
    (r.line i).cut r.src 0 stop = r.src.window pos stop := by
  rw [Line.cut_zero, h.line]

theorem runningText (h : r.Holds i pos w) (hr : r.indent = 0) :
    r.runningText i (i + 1) = String.ofList (Text.trim Text.isPadding w) := by
  have htext : r.text i (i + 1) 0 false = w := by
    rw [Region.text, if_pos (Nat.lt_succ_self i), Region.text, if_neg (Nat.lt_irrefl _),
      List.append_nil]
    simp only [Nat.lt_irrefl, decide_false, Bool.or_self, Bool.false_eq_true, if_false]
    rw [h.cut, h.stop]
    exact h.hasAt.window_eq
  rw [Region.runningText, hr, htext]

theorem getElem? (h : r.Holds i pos (c :: w)) : r.src[pos]? = some c :=
  h.hasAt.getElem? (Nat.zero_lt_succ _)

theorem has (h : r.Holds i pos (c :: w)) {d : Char} (hd : c ≠ d) : r.src.has d pos = false := by
  simp [Source.has, Source.test, h.getElem?, hd]

/-! ### What cannot start on a line -/

theorem mathBlock (h : r.Holds i pos (c :: w)) (hc : c ≠ '$') (past : Nat) :
    MathBlock.read? r i past = none := by
  rw [MathBlock.read?, h.lineText, if_neg]
  simp [hc.symm]

theorem flowExpression (h : r.Holds i pos (c :: w)) (hc : c ≠ '\x7b') (past : Nat) :
    FlowExpression.stop? r i past = none := by
  rw [FlowExpression.stop?, h.start, h.has hc]
  simp

theorem run? (h : r.Holds i pos (c :: w)) (hc : c ≠ '<') (limit : Nat) :
    Tag.run? r.src (r.line i).start limit = none := by
  rw [h.start, Tag.run?]
  split
  · rfl
  · next t ht =>
    have hlt := Tag.has_lt_of_scan? ht
    rw [h.getElem?] at hlt
    exact absurd (Option.some.inj hlt) hc

theorem shape? (h : r.Holds i pos (c :: w)) (hc : c ≠ '<') (past : Nat) :
    Element.shape? r i past = none := by
  rw [Element.shape?, h.run? hc, Option.bind_none, ite_self]

theorem mark? (h : r.Holds i pos (c :: w)) (hc : c ≠ '\x60') (hc' : c ≠ '~') :
    Fence.mark? (r.lineText i) = none := by
  simp [h.lineText, Fence.mark?, hc, hc']

theorem fence (h : r.Holds i pos (c :: w)) (hc : c ≠ '\x60') (hc' : c ≠ '~') :
    Fence.opening? r i = none := by
  rw [Fence.opening?, h.mark? hc hc']

theorem quote (h : r.Holds i pos (c :: w)) (hc : c ≠ '>') : Quote.starts r i = false := by
  simp [Quote.starts, h.lineText, hc]

theorem thematicBreak (h : r.Holds i pos (c :: w)) (h₁ : c ≠ '*') (h₂ : c ≠ '-') (h₃ : c ≠ '_') :
    ThematicBreak.starts r i = false := by
  simp [ThematicBreak.starts, h.lineText, ThematicBreak.isMarks, h₁, h₂, h₃]

theorem marker (h : r.Holds i pos (c :: w)) (h₁ : c ≠ '*') (h₂ : c ≠ '-') (h₃ : c ≠ '+')
    (h₄ : c.isDigit = false) : Marker.ofLine? r i = none := by
  have hread : Marker.read? (c :: w) = none := by
    simp [Marker.read?, h₁, h₂, h₃, h₄]
  rw [Marker.ofLine?, h.lineText, hread]
  simp

theorem starts_heading (h : r.Holds i pos (c :: w)) (hc : c ≠ '#') :
    Heading.starts r i = false := by
  simp [Heading.starts, Heading.level?, h.lineText, hc]

theorem heading (h : r.Holds i pos (c :: w)) (hc : c ≠ '#') : Heading.read? r i = none := by
  simp [Heading.read?, Heading.level?, h.lineText, hc]

theorem underline (h : r.Holds i pos (c :: w)) (h₁ : c ≠ '=') (h₂ : c ≠ '-') :
    Underline.level? r i = none := by
  simp [Underline.level?, h.lineText, h₁, h₂]

end Region.Holds

theorem Definition.le_stop (r : Region) (i : Nat) : i ≤ Definition.stop r i := by
  fun_induction Definition.stop r i <;> omega

theorem Definition.ofLine?_eq_none {r : Region} {i : Nat} {c : Char}
    (h : r.src[(r.line i).start]? = some c) (hle : (r.line i).start ≤ (r.line i).stop)
    (hc : c ≠ '[') : Definition.ofLine? r i = none := by
  obtain ⟨k, hk⟩ := Nat.exists_eq_add_of_le (Definition.le_stop r (i + 1))
  have htext : ∃ u, Definition.text r i (Definition.stop r (i + 1)) = c :: u := by
    rw [Definition.text, hk, show i + 1 + k - i = k + 1 by omega, List.range'_succ,
      List.flatMap_cons, Source.window_cons _ h (Nat.lt_succ_of_le hle)]
    exact ⟨_, rfl⟩
  obtain ⟨u, hu⟩ := htext
  have hread : Definition.read? (c :: u) = none := by
    unfold Definition.read?
    split
    · next heq => exact absurd (List.cons.inj heq).1 hc
    · rfl
  rw [Definition.ofLine?]
  rw [hu, hread]
  rfl

theorem Region.Holds.definition {r : Region} {i pos : Nat} {c : Char} {w : List Char}
    (h : r.Holds i pos (c :: w)) (hc : c ≠ '[') : Definition.ofLine? r i = none := by
  refine Definition.ofLine?_eq_none (c := c) ?_ ?_ hc
  · rw [h.start]
    exact h.getElem?
  · rw [h.start, h.stop]
    exact Nat.le_add_right _ _

/-! ### Module statements -/

theorem Esm.word_of_isStatement {text : List Char} (h : isStatement text = true) :
    text.takeWhile Char.isAlpha = "import".toList ∨
      text.takeWhile Char.isAlpha = "export".toList := by
  simp only [isStatement, Bool.and_eq_true, Bool.or_eq_true, beq_iff_eq] at h
  obtain ⟨hword, hnext⟩ := h
  have hsplit := List.take_append_drop 6 text
  have hword' {word : List Char} (hw : text.take 6 = word) (hall : word.all Char.isAlpha = true) :
      text.takeWhile Char.isAlpha = word := by
    rw [← hsplit, hw, List.takeWhile_append_of_pos (List.all_eq_true.mp hall)]
    cases hd : text.drop 6 with
    | nil => simp
    | cons c rest =>
      rw [hd] at hnext
      have hc : c.isAlpha = false := by
        cases hc : c.isAlpha with
        | false => rfl
        | true =>
          have := @Text.of_isAlpha (fun c => !(Text.isBlank c || c == '\x7b' || c == '*'))
            (by decide +kernel) c hc
          simp_all
      rw [List.takeWhile_cons_of_neg (by simp [hc]), List.append_nil]
  rcases hword with hw | hw
  · exact .inl (hword' hw (by decide))
  · exact .inr (hword' hw (by decide))

/-! ### Lines that start with a letter -/

theorem interrupts_paragraph (r : Region) (i past : Nat) : interrupts r .paragraph i past =
    (FlowExpression.starts r i past || Element.starts r i past || (Fence.opening? r i).isSome ||
      Quote.starts r i || ThematicBreak.starts r i || Marker.interrupts r .paragraph i ||
      Heading.starts r i) :=
  rfl

namespace Region.Holds

variable {r : Region} {i pos past : Nat} {c : Char} {w : List Char}

/-- **A line that starts with a letter interrupts nothing.** -/
theorem interrupts_letter (h : r.Holds i pos (c :: w)) (hc : c.isAlpha = true) (past : Nat) :
    interrupts r .paragraph i past = false := by
  have hne {d : Char} (hd : d.isAlpha = false) : c ≠ d := Text.ne_of_isAlpha hc hd
  have hdigit : c.isDigit = false := by
    simpa using @Text.of_isAlpha (!Char.isDigit ·) (by decide +kernel) c hc
  have hmarker : Marker.ofLine? r i = none :=
    h.marker (hne (by decide)) (hne (by decide)) (hne (by decide)) hdigit
  simp [interrupts_paragraph, FlowExpression.starts, h.flowExpression (hne (by decide)),
    Element.starts, h.shape? (hne (by decide)), h.fence (hne (by decide)) (hne (by decide)),
    h.quote (hne (by decide)),
    h.thematicBreak (hne (by decide)) (hne (by decide)) (hne (by decide)), Marker.interrupts,
    hmarker, h.starts_heading (hne (by decide))]

/-- **A line that starts with a letter starts a paragraph**, unless it is a module statement or has
an underline. -/
theorem readBlock_letter (h : r.Holds i pos (c :: w)) (hc : c.isAlpha = true)
    (hdash : r.src.has '-' 0 = false) (hesm : Esm.isStatement (c :: w) = false)
    (hunder : Underline.find? r past (i + 1) = none) (one two : Reader) :
    readBlock one two r i past = .ok (Paragraph.read r i) := by
  have hne {d : Char} (hd : d.isAlpha = false) : c ≠ d := Text.ne_of_isAlpha hc hd
  have hdigit : c.isDigit = false := by
    simpa using @Text.of_isAlpha (!Char.isDigit ·) (by decide +kernel) c hc
  have hmarker : Marker.ofLine? r i = none :=
    h.marker (hne (by decide)) (hne (by decide)) (hne (by decide)) hdigit
  simp [readBlock, FrontMatter.read?, hdash, h.mathBlock (hne (by decide)), Esm.read?, Esm.starts,
    h.lineText, hesm, FlowExpression.read?, h.flowExpression (hne (by decide)),
    h.shape? (hne (by decide)), Fence.read?, h.fence (hne (by decide)) (hne (by decide)),
    h.quote (hne (by decide)), ThematicBreak.read?,
    h.thematicBreak (hne (by decide)) (hne (by decide)) (hne (by decide)), hmarker,
    h.definition (hne (by decide)), h.heading (hne (by decide)), Underline.read?, hunder]

end Region.Holds

/-- **A line of tags starts an element**, and nothing else. -/
theorem readBlock_tags {r : Region} {i past : Nat} (hdash : r.src.has '-' 0 = false)
    {shape : Element.Shape} (hshape : Element.shape? r i past = some shape) (one two : Reader) :
    readBlock one two r i past = Element.read one r i past shape := by
  obtain ⟨ts, stop, hrun, -⟩ := Element.shape?_spec hshape
  obtain ⟨⟨t, ts, rfl, hstart⟩, ⟨-, hscan, -⟩, -, -⟩ := Tag.run?_spec hrun
  have hc : r.src[(r.line i).start]? = some '<' := hstart ▸ Tag.has_lt_of_scan? hscan
  have hlt : (r.line i).start < (r.line i).stop := by
    rw [Element.shape?, Option.ite_none_left_eq_some, Line.isEmpty, decide_eq_true_iff] at hshape
    exact Nat.lt_of_not_le hshape.1
  have htext : r.lineText i = '<' :: r.src.window ((r.line i).start + 1) (r.line i).stop :=
    r.src.window_cons hc hlt
  have hmath : MathBlock.read? r i past = none := by
    rw [MathBlock.read?, htext, if_neg (by simp)]
  have hesm : Esm.isStatement (r.lineText i) = false := by
    rw [htext]
    simp [Esm.isStatement]
  have hexpression : FlowExpression.stop? r i past = none := by
    simp [FlowExpression.stop?, Source.has, Source.test, hc]
  simp [readBlock, FrontMatter.read?, hdash, hmath, Esm.read?, Esm.starts, hesm,
    FlowExpression.read?, hexpression, hshape]

/-! ### Blocks one after the other -/

section Blocks

variable {block : Region → Nat → Nat → Except SyntaxError Outcome} {r : Region} {past i : Nat}

/-- Where no text is left, no block is read, and reading goes to the end. -/
theorem readBlocks_end (h : i < past → past ≤ r.skipEmpty i) (blank tight : Bool) :
    ∃ next, past ≤ next ∧ readBlocks block r past blank tight i = .ok ⟨⟨[], [], next⟩, tight⟩ := by
  rw [readBlocks]
  split
  · next hi =>
    rw [if_pos (by simp [h hi])]
    exact ⟨_, h hi, rfl⟩
  · next hi => exact ⟨_, Nat.le_of_not_lt hi, rfl⟩

theorem readBlocks_done (h : i < past → past ≤ r.skipEmpty i) (blank tight : Bool) :
    ∃ next, readBlocks block r past blank tight i = .ok ⟨⟨[], [], next⟩, tight⟩ :=
  (readBlocks_end h blank tight).imp fun _ => And.right

section Start

variable (hlt : r.skipEmpty i < past) (hindent : r.indent ≤ (r.line (r.skipEmpty i)).indent)

include hlt hindent

theorem readBlocks_error {e : SyntaxError} (h : block r (r.skipEmpty i) past = .error e)
    (blank tight : Bool) : readBlocks block r past blank tight i = .error e := by
  have hle := (r.skipEmpty_spec i).1
  rw [readBlocks, if_pos (by omega)]
  simp only
  rw [if_neg (by simp; omega), h]
  rfl

theorem readBlocks_block {o : Outcome} (h : block r (r.skipEmpty i) past = .ok o)
    (hnext : r.skipEmpty i < o.next) (blank tight : Bool) :
    ∃ blank' tight', readBlocks block r past blank tight i =
      (readBlocks block r past blank' tight' (passEmpty r past o.next)).bind fun c =>
        .ok ⟨⟨o.events ++ c.events, o.definitions ++ c.definitions, c.next⟩, c.tight⟩ := by
  have hle := (r.skipEmpty_spec i).1
  have hpass := le_passEmpty r past o.next
  rw [readBlocks, if_pos (by omega)]
  simp only
  rw [if_neg (by simp; omega), h]
  refine ⟨blank || decide (o.next - 1 < past) && r.isEmpty (o.next - 1) ||
    decide (o.next < passEmpty r past o.next), !blank, ?_⟩
  show (if _h : i < passEmpty r past o.next then _ else _) = _
  rw [dif_pos (by omega)]
  rfl

theorem exists_block {blank tight : Bool} {c : Content}
    (hread : readBlocks block r past blank tight i = .ok c) :
    ∃ o rest, block r (r.skipEmpty i) past = .ok o ∧ c.events = o.events ++ rest := by
  have hle := (r.skipEmpty_spec i).1
  rw [readBlocks, if_pos (by omega)] at hread
  dsimp only at hread
  rw [if_neg (by simp; omega), Except.bind_eq_ok] at hread
  obtain ⟨o, ho, hread⟩ := hread
  split at hread
  · obtain ⟨c', -, hc⟩ := Except.bind_eq_ok.mp hread
    cases hc
    exact ⟨o, c'.events, ho, rfl⟩
  · cases hread
    exact ⟨o, [], ho, (List.append_nil _).symm⟩

/-- **A row of blocks is its first block and the row of those after it**, and so are the nodes that
it walks through. -/
theorem exists_rest {src : Source} {one two : Reader} (hone : one.Correct src)
    (htwo : two.Correct src) (hr : r.Ready src past) {o : Outcome}
    (ho : readBlock one two r (r.skipEmpty i) past = .ok o) (hnext : r.skipEmpty i < o.next)
    {blank tight : Bool} {c : Content} {ns : List Node}
    (hread : readBlocks (readBlock one two) r past blank tight i = .ok c)
    (hwalk : Walk c.events ns) : ∃ blank' tight' c' ns₁ ns₂,
      readBlocks (readBlock one two) r past blank' tight' (passEmpty r past o.next) = .ok c' ∧
      c = ⟨⟨o.events ++ c'.events, o.definitions ++ c'.definitions, c'.next⟩, c'.tight⟩ ∧
      Walk o.events ns₁ ∧ Walk c'.events ns₂ ∧ ns = ns₁ ++ ns₂ := by
  obtain ⟨blank', tight', hfirst⟩ := readBlocks_block hlt hindent ho hnext blank tight
  obtain ⟨c', hc', hc⟩ := Except.bind_eq_ok.mp (hfirst.symm.trans hread)
  cases hc
  obtain ⟨ns₁, hwalk₁, -⟩ :=
    (readBlock_reads hone htwo hr hlt ((r.skipEmpty_spec i).2 (Nat.lt_of_lt_of_le hlt hr.past_le))
      ho).walk
  obtain ⟨ns₂, hwalk₂, -⟩ := (readBlocks_reads hone htwo hr hc').walk
  exact ⟨blank', tight', c', ns₁, ns₂, hc', rfl, hwalk₁, hwalk₂,
    hwalk.unique (hwalk₁.append hwalk₂)⟩

theorem readBlocks_only {o : Outcome} (h : block r (r.skipEmpty i) past = .ok o)
    (hnext : o.next = past) (blank tight : Bool) :
    ∃ tight', readBlocks block r past blank tight i = .ok ⟨o, tight'⟩ := by
  obtain ⟨blank', tight', hread⟩ := readBlocks_block hlt hindent h (hnext ▸ hlt) blank tight
  have hpass : passEmpty r past past = past := by
    simp [passEmpty]
  refine ⟨tight', ?_⟩
  rw [hread, hnext, hpass, readBlocks, if_neg (Nat.lt_irrefl _)]
  simp [Except.bind, pure, Except.pure, ← hnext]

end Start

end Blocks

/-! ### Documents -/

section Source

variable {src : Source}

theorem readSource_blocks (src : Source) : readSource src =
    (readBlocks (readBlock (read 19) (read 18)) (.ofSource src) (Region.ofSource src).height false
      true 0).bind fun c => .ok c.toOutcome :=
  rfl

theorem Region.indent_ofSource_le {k : Nat} (hk : k < (ofSource src).height) :
    (ofSource src).indent ≤ ((ofSource src).line k).indent := by
  obtain ⟨s, body, -, hline⟩ := line_ofSource src hk
  rw [hline]
  exact Line.le_columns 0 0 _

theorem Region.exists_first {c : Char} {w : List Char} (hsrc : src.toList = c :: w)
    (hc : Text.isGap c = false) :
    ∃ u, (ofSource src).Holds 0 0 (c :: u) ∧ 0 < (ofSource src).height := by
  have hne : c ≠ '\n' := by
    rintro rfl
    cases hc
  have hspace : Text.isSpace c = false := by
    rw [Text.isGap, Bool.or_eq_false_iff] at hc
    exact hc.1
  obtain ⟨u, rest, hsplit⟩ := Text.exists_splitOn_cons hne w
  have hget : (Anchor.lines src)[0]? = some (0, c :: u) := by
    rw [Anchor.lines, hsrc, hsplit]
    rfl
  have hlt : 0 < (ofSource src).height := by
    apply (Line.lt_size_table hget).resolve_right
    rintro ⟨-, hblank⟩
    rw [List.all_cons, hspace] at hblank
    cases hblank
  obtain ⟨s, body, hget', hline⟩ := line_ofSource src hlt
  cases hget.symm.trans hget'
  exact ⟨u, ⟨hline.trans (Line.ofBody_of_head hspace 0 u), (Anchor.lines_isLine hget).hasAt⟩, hlt⟩

theorem readSource_first {o : Outcome}
    (h : readBlock (read 19) (read 18) (.ofSource src) 0 (Region.ofSource src).height = .ok o)
    (hpos : 0 < (Region.ofSource src).height) (hempty : (Region.ofSource src).isEmpty 0 = false)
    (hnext : 0 < o.next) : ∃ blank tight, readSource src =
      (readBlocks (readBlock (read 19) (read 18)) (.ofSource src) (Region.ofSource src).height blank
        tight (passEmpty (.ofSource src) (Region.ofSource src).height o.next)).bind fun c =>
          .ok ⟨o.events ++ c.events, o.definitions ++ c.definitions, c.next⟩ := by
  have hskip := Region.skipEmpty_of_isEmpty_eq_false hempty
  rw [← hskip] at h
  obtain ⟨blank, tight, hread⟩ := readBlocks_block (hskip.symm ▸ hpos)
    (hskip.symm ▸ Region.indent_ofSource_le hpos) h (hskip.symm ▸ hnext) false true
  refine ⟨blank, tight, ?_⟩
  rw [readSource_blocks, hread]
  cases readBlocks (readBlock (read 19) (read 18)) (.ofSource src) (Region.ofSource src).height
    blank tight (passEmpty (.ofSource src) (Region.ofSource src).height o.next) <;> rfl

end Source

end Block

end MdxProse
