import MdxProse.Proofs.Matching
import MdxProse.Proofs.PlainLines
import MdxProse.Proofs.RunningText

/-!
# Documents of plain rows

A plain row is a line without indentation that is blank, a tag without attributes, or text that
starts with a letter.  What the readers of blocks find on such rows is told by the kinds of the rows
alone.

* `Region.Shows`, `Region.Rows`: a line of a region is a row; its lines from one on are rows.
* `Region.Rows.findsPartner`: **the run that holds a closing tag is the row of the partner by
  name.**
* `Region.Rows.leastIndent?`, `Region.Rows.find?`: rows are not indented and underline nothing.
* `Region.Rows.stop`: **a paragraph goes on over rows of text**, and nothing else.
* `Region.Rows.skipEmpty`, `Region.Rows.passEmpty`: blank rows are passed over.
* `Region.exists_rows`: **the lines of a text are the rows it is made of.**
-/

namespace MdxProse.Block

/-- A line of text: letters and spaces, a letter first, and no module statement. -/
structure Prose where
  chars : List Char
  letters : ∀ c ∈ chars, c.isAlpha = true ∨ c = ' '
  first : ∃ c ∈ chars.head?, c.isAlpha = true
  word : chars.takeWhile Char.isAlpha ∉ ["import".toList, "export".toList]

/-- A line without indentation. -/
inductive Row
  | blank (w : List Char) (h : w.all Text.isSpace = true)
  | tag (s : Sign)
  | text (p : Prose)

theorem Prose.exists_cons (p : Prose) : ∃ c w, p.chars = c :: w ∧ c.isAlpha = true ∧
    Esm.isStatement (c :: w) = false := by
  obtain ⟨c, hc, hletter⟩ := p.first
  obtain ⟨w, hw⟩ := List.head?_eq_some_iff.mp hc
  refine ⟨c, w, hw, hletter, Bool.eq_false_iff.mpr fun h => ?_⟩
  apply p.word
  rw [hw]
  rcases Esm.word_of_isStatement h with h | h <;> simp [h]

namespace Row

/-- How the row is written. -/
def spell : Row → List Char
  | blank w _ => w
  | tag s => s.spell
  | text p => p.chars

/-- Is there nothing on the row? -/
def isBlank : Row → Bool
  | blank _ _ => true
  | _ => false

/-- Is the row text? -/
def isText : Row → Bool
  | text _ => true
  | _ => false

/-- How many characters the rows and the line breaks after them have. -/
def width : List Row → Nat
  | [] => 0
  | row :: rows => row.spell.length + 1 + width rows

/-- The tags and lines of text among the rows, which stand at `pos` from line `i` on. -/
def items (i pos : Nat) : List Row → List Item
  | [] => []
  | .blank w _ :: rows => items (i + 1) (pos + w.length + 1) rows
  | .tag s :: rows => .tag (s.tagAt pos) :: items (i + 1) (pos + s.spell.length + 1) rows
  | .text p :: rows => .line i :: items (i + 1) (pos + p.chars.length + 1) rows

variable {rows rows' : List Row} {i pos : Nat}

theorem all_isSpace (row : Row) : row.spell.all Text.isSpace = row.isBlank := by
  cases row with
  | blank w hw => exact hw
  | tag s => cases s <;> rfl
  | text p =>
    obtain ⟨c, w, hw, hc, -⟩ := p.exists_cons
    have hspace : Text.isSpace c = false := by
      simpa using @Text.of_isAlpha (!Text.isSpace ·) (by decide +kernel) c hc
    rw [spell, hw, List.all_cons, hspace]
    rfl

theorem items_append (i pos : Nat) (rows rows' : List Row) : items i pos (rows ++ rows') =
    items i pos rows ++ items (i + rows.length) (pos + width rows) rows' := by
  induction rows generalizing i pos with
  | nil => rfl
  | cons row rows ih =>
    have hnext : i + (row :: rows).length = i + 1 + rows.length := by
      rw [List.length_cons]
      omega
    have hpos : pos + width (row :: rows) = pos + row.spell.length + 1 + width rows := by
      rw [width]
      omega
    rw [hnext, hpos]
    cases row with
    | blank w h => exact ih _ _
    | tag s => exact congrArg _ (ih _ _)
    | text p => exact congrArg _ (ih _ _)

theorem items_cons (i pos : Nat) (row : Row) (rows : List Row) : items i pos (row :: rows) =
    items i pos [row] ++ items (i + 1) (pos + row.spell.length + 1) rows := by
  cases row <;> rfl

theorem items_cons_blank {row : Row} (h : row.isBlank = true) : items i pos (row :: rows) =
    items (i + 1) (pos + row.spell.length + 1) rows := by
  cases row with
  | blank => rfl
  | tag => cases h
  | text => cases h

theorem isEmpty_items {row : Row} (h : row.isBlank = false) :
    (items i pos (row :: rows)).isEmpty = false := by
  cases row with
  | blank => cases h
  | tag => rfl
  | text => rfl

theorem items_blank (h : ∀ row ∈ rows, row.isBlank = true) : items i pos rows = [] := by
  induction rows generalizing i pos with
  | nil => rfl
  | cons row rows ih =>
    obtain ⟨hrow, hrows⟩ := List.forall_mem_cons.mp h
    rw [items_cons_blank hrow, ih hrows]

theorem items_text (h : ∀ row ∈ rows, row.isText = true) :
    items i pos rows = (List.range' i rows.length).map .line := by
  induction rows generalizing i pos with
  | nil => rfl
  | cons row rows ih =>
    obtain ⟨hrow, hrows⟩ := List.forall_mem_cons.mp h
    cases row with
    | blank => cases hrow
    | tag => cases hrow
    | text p =>
      rw [items, ih hrows, List.length_cons, List.range'_succ, List.map_cons]

theorem noBreak (row : Row) : '\n' ∉ row.spell := by
  intro h
  cases row with
  | blank w hw => exact absurd (List.all_eq_true.mp hw _ h) (by decide)
  | tag s => exact absurd (s.of_mem_spell h) (by decide)
  | text p => exact absurd (p.letters _ h) (by decide)

end Row

/-! ### Rows of a region -/

/-- Line `i` of the region is the row, which stands at `pos`. -/
structure Region.Shows (r : Region) (i pos : Nat) (row : Row) : Prop where
  line : r.line i = .ofBody pos row.spell
  hasAt : r.src.HasAt pos row.spell
  stop : r.src[pos + row.spell.length]? = some '\n' ∨ pos + row.spell.length = r.src.size

/-- The lines of the region from line `i` on are the rows, which stand at `pos`. -/
def Region.Rows (r : Region) (i pos : Nat) : List Row → Prop
  | [] => True
  | row :: rows => r.Shows i pos row ∧ r.Rows (i + 1) (pos + row.spell.length + 1) rows

namespace Region

variable {r : Region} {i pos past : Nat} {rows rows' : List Row} {s : Sign} {p : Prose}

theorem Rows.split (h : r.Rows i pos (rows ++ rows')) : r.Rows i pos rows ∧
    r.Rows (i + rows.length) (pos + Row.width rows) rows' := by
  induction rows generalizing i pos with
  | nil => exact ⟨trivial, h⟩
  | cons row rows ih =>
    obtain ⟨hrow, h⟩ := h
    obtain ⟨h₁, h₂⟩ := ih h
    refine ⟨⟨hrow, h₁⟩, ?_⟩
    have hnext : i + (row :: rows).length = i + 1 + rows.length := by
      rw [List.length_cons]
      omega
    have hpos : pos + Row.width (row :: rows) = pos + row.spell.length + 1 + Row.width rows := by
      rw [Row.width]
      omega
    rwa [hnext, hpos]

theorem Rows.of_eq {r' : Region} (h : r.Rows i pos rows) (hsrc : r'.src = r.src)
    (hlines : r'.lines = r.lines) : r'.Rows i pos rows := by
  induction rows generalizing i pos with
  | nil => trivial
  | cons row rows ih =>
    refine ⟨⟨?_, hsrc ▸ h.1.hasAt, hsrc ▸ h.1.stop⟩, ih h.2⟩
    rw [Region.line, hlines, hsrc]
    exact h.1.line

namespace Shows

theorem tag_holds (h : r.Shows i pos (.tag s)) : ∃ u, s.spell = '<' :: u ∧
    r.Holds i pos ('<' :: u) := by
  obtain ⟨u, hu⟩ : ∃ u, s.spell = '<' :: u := by
    cases s <;> exact ⟨_, rfl⟩
  have hline := h.line
  rw [Row.spell, hu, Line.ofBody_of_head (by decide)] at hline
  exact ⟨u, hu, hline, hu ▸ h.hasAt⟩

theorem text_holds (h : r.Shows i pos (.text p)) : ∃ c w, p.chars = c :: w ∧
    c.isAlpha = true ∧ Esm.isStatement (c :: w) = false ∧ r.Holds i pos (c :: w) := by
  obtain ⟨c, w, hw, hc, hesm⟩ := p.exists_cons
  have hspace : Text.isSpace c = false := by
    simpa using @Text.of_isAlpha (!Text.isSpace ·) (by decide +kernel) c hc
  have hline := h.line
  rw [Row.spell, hw, Line.ofBody_of_head hspace] at hline
  exact ⟨c, w, hw, hc, hesm, hline, hw ▸ h.hasAt⟩

theorem exists_holds {row : Row} (h : r.Shows i pos row) (hrow : row.isBlank = false) :
    ∃ c w, r.Holds i pos (c :: w) ∧ (c.isAlpha = true ∨ c = '<') := by
  cases row with
  | blank => cases hrow
  | tag s =>
    obtain ⟨u, -, hholds⟩ := h.tag_holds
    exact ⟨'<', u, hholds, .inr rfl⟩
  | text p =>
    obtain ⟨c, w, -, hc, -, hholds⟩ := h.text_holds
    exact ⟨c, w, hholds, .inl hc⟩

theorem isEmpty {row : Row} (h : r.Shows i pos row) : r.isEmpty i = row.isBlank := by
  rw [Region.isEmpty, h.line, ← row.all_isSpace, Bool.eq_iff_iff]
  exact Line.isEmpty_ofBody pos row.spell

end Shows

theorem Shows.line_stop {row : Row} (h : r.Shows i pos row) :
    (r.line i).stop = pos + row.spell.length := by
  rw [h.line]
  rfl

theorem lineReaching_self {offset : Nat} (h : offset ≤ (r.line i).stop) :
    r.lineReaching offset i = i := by
  rw [lineReaching, if_neg (Nat.not_lt.mpr h), ite_self]

/-- The first row ends before the end of the last one, which is in the source. -/
theorem Rows.limit_spec {row : Row} (h : r.Rows i pos (row :: rows)) :
    pos + row.spell.length ≤ r.limit (i + (row :: rows).length) ∧
      r.limit (i + (row :: rows).length) ≤ r.src.size := by
  -- on the rows after it, as the limit is where the last of them ends
  induction rows generalizing i pos row with
  | nil =>
    have hstop : r.limit (i + [row].length) = pos + row.spell.length := h.1.line_stop
    rw [hstop]
    refine ⟨Nat.le_refl _, ?_⟩
    rcases h.1.stop with hb | hs
    · exact Nat.le_of_lt (Array.getElem?_eq_some_iff.mp hb).1
    · exact Nat.le_of_eq hs
  | cons row' rows ih =>
    obtain ⟨hle, hsize⟩ := ih h.2
    have hlen : i + 1 + (row' :: rows).length = i + (row :: row' :: rows).length := by
      simp only [List.length_cons]
      omega
    rw [hlen] at hle hsize
    exact ⟨by omega, hsize⟩

theorem Shows.run? (h : r.Shows i pos (.tag s)) {limit : Nat}
    (hlimit : pos + s.spell.length ≤ limit) (hsize : limit ≤ r.src.size) :
    Tag.run? r.src (r.line i).start limit = some ([s.tagAt pos], pos + s.spell.length) := by
  obtain ⟨u, -, hholds⟩ := h.tag_holds
  have hscan : Tag.scan? r.src pos limit = some (s.tagAt pos) := s.scan?_eq h.hasAt hlimit
  have hstop : r.src[pos + s.spell.length]? = some '\n' ∨ pos + s.spell.length = r.src.size :=
    h.stop
  have hnext : r.src.skipWhile Text.isSpace (s.tagAt pos).span.stop limit =
      pos + s.spell.length := by
    apply Source.skipWhile_of_not_test
    show r.src.test Text.isSpace (pos + s.spell.length) = false
    rcases hstop with hb | hs
    · simp [Source.test, hb, Text.isSpace]
    · simp [Source.test, hs]
  rw [hholds.start, Tag.run?]
  split
  · next hnone =>
    rw [hscan] at hnone
    cases hnone
  · next t ht =>
    rw [hscan] at ht
    cases ht
    rw [hnext, if_pos]
    rcases hstop with hb | hs
    · simp [Source.has, Source.test, hb]
    · simp [hs, hsize]

theorem Rows.shape? (h : r.Rows i pos (.tag s :: rows))
    (hpast : i + (.tag s :: rows).length = past) : Element.shape? r i past =
      Element.Shape.ofRun? ([s.tagAt pos], pos + s.spell.length) := by
  obtain ⟨hle, hsize⟩ := h.limit_spec
  rw [hpast] at hle hsize
  obtain ⟨u, -, hholds⟩ := h.1.tag_holds
  have hempty : (r.line i).isEmpty = false := hholds.isEmpty
  rw [Element.shape?, hempty, h.1.run? hle hsize]
  rfl

/-! ### The closing tag -/

/-- The run that holds a closing tag is looked for among the rows with the same result as the
partner of that name is among the items. -/
def FindsPartner (r : Region) (name : Option String) (past inner i pos : Nat) (rows : List Row) :
    Prop :=
  (Item.partner? name inner (Row.items i pos rows) = none ∧
    Element.closingRun? r name past inner none i = none) ∨
  ∃ rows₁ s rows₂, rows = rows₁ ++ .tag s :: rows₂ ∧
    Item.partner? name inner (Row.items i pos rows) = some (Row.items i pos rows₁,
      s.tagAt (pos + Row.width rows₁), Row.items (i + rows₁.length + 1)
        (pos + Row.width rows₁ + s.spell.length + 1) rows₂) ∧
    Element.closingRun? r name past inner none i = some ⟨i + rows₁.length, [],
      s.tagAt (pos + Row.width rows₁), [], pos + Row.width rows₁ + s.spell.length⟩

/-- A row that is passed over goes before what is found. -/
theorem FindsPartner.cons {name : Option String} {inner inner' : Nat} {row : Row}
    (h : r.FindsPartner name past inner' (i + 1) (pos + row.spell.length + 1) rows)
    (hc : Element.closingRun? r name past inner none i =
      Element.closingRun? r name past inner' none (i + 1))
    (hp : Item.partner? name inner (Row.items i pos (row :: rows)) =
      (Item.partner? name inner' (Row.items (i + 1) (pos + row.spell.length + 1) rows)).map
        fun (before, c, after) => (Row.items i pos [row] ++ before, c, after)) :
    r.FindsPartner name past inner i pos (row :: rows) := by
  rcases h with ⟨hnone, hclosing⟩ | ⟨rows₁, s, rows₂, rfl, hsome, hclosing⟩
  · refine .inl ⟨?_, hc.trans hclosing⟩
    rw [hp, hnone, Option.map_none]
  · refine .inr ⟨row :: rows₁, s, rows₂, rfl, ?_, ?_⟩
    all_goals
      rw [List.length_cons, Row.width, show i + (rows₁.length + 1) = i + 1 + rows₁.length by omega,
        show pos + (row.spell.length + 1 + Row.width rows₁) =
          pos + row.spell.length + 1 + Row.width rows₁ by omega]
    · rw [hp, hsome, Option.map_some]
      simp only
      rw [Row.items_cons i pos row rows₁]
    · rw [hc, hclosing]

theorem Shows.closingRun?_text (h : r.Shows i pos (.text p)) (hlt : i < past)
    (name : Option String) (inner : Nat) : Element.closingRun? r name past inner none i =
      Element.closingRun? r name past inner none (i + 1) := by
  obtain ⟨c, w, -, hc, -, hholds⟩ := h.text_holds
  have hne {d : Char} (hd : d.isAlpha = false) : c ≠ d := Text.ne_of_isAlpha hc hd
  rw [Element.closingRun?, if_pos hlt, hholds.isEmpty]
  simp only [Bool.false_eq_true, if_false]
  rw [hholds.mark? (hne (by decide)) (hne (by decide))]
  simp only
  rw [hholds.run? (hne (by decide))]

section Tag

variable (h : r.Shows i pos (.tag s)) (hlt : i < past)
  (hle : pos + s.spell.length ≤ r.limit past) (hsize : r.limit past ≤ r.src.size)
  {name : Option String} {inner : Nat}

include h hlt hle hsize

theorem Shows.closingRun?_pass {inner' : Nat}
    (hfind : Element.findIn name inner [s.tagAt pos] = .inr inner') :
    Element.closingRun? r name past inner none i =
      Element.closingRun? r name past inner' none (i + 1) := by
  obtain ⟨u, -, hholds⟩ := h.tag_holds
  rw [Element.closingRun?, if_pos hlt, hholds.isEmpty]
  simp only [Bool.false_eq_true, if_false]
  rw [hholds.mark? (by decide) (by decide)]
  simp only
  rw [h.run? hle hsize]
  have hreach : r.lineReaching (pos + s.spell.length) i = i :=
    lineReaching_self (Nat.le_of_eq h.line_stop.symm)
  simp only [hfind, hreach, Nat.max_self]

theorem Shows.closingRun?_found
    (hfind : Element.findIn name inner [s.tagAt pos] = .inl ([], s.tagAt pos, [])) :
    Element.closingRun? r name past inner none i =
      some ⟨i, [], s.tagAt pos, [], pos + s.spell.length⟩ := by
  obtain ⟨u, -, hholds⟩ := h.tag_holds
  rw [Element.closingRun?, if_pos hlt, hholds.isEmpty]
  simp only [Bool.false_eq_true, if_false]
  rw [hholds.mark? (by decide) (by decide)]
  simp only
  rw [h.run? hle hsize]
  simp [hfind, Tag.leavesNothingOpen, Tag.closesFrom, Tag.balanced, Tag.balancedFrom]

/-- A tag is the partner, or it is passed over and counted as the partner by name counts it. -/
theorem FindsPartner.tag
    (ih : ∀ inner, r.FindsPartner name past inner (i + 1) (pos + s.spell.length + 1) rows) :
    r.FindsPartner name past inner i pos (.tag s :: rows) := by
  have hpass {inner' : Nat} := @Shows.closingRun?_pass r i pos past s h hlt hle hsize name inner
    inner'
  by_cases hname : (s.tagAt pos).name = name
  · cases hf : (s.tagAt pos).form with
    | opening =>
      refine (ih (inner + 1)).cons (hpass (by simp [Element.findIn, hname, hf])) ?_
      simp [Row.items, Row.spell, Item.partner?, hname, hf]
    | selfClosing =>
      refine (ih inner).cons (hpass (by simp [Element.findIn, hname, hf])) ?_
      simp [Row.items, Row.spell, Item.partner?, hname, hf]
    | closing =>
      cases inner with
      | zero =>
        refine .inr ⟨[], s, rows, rfl, ?_, ?_⟩
        · simp [Row.items, Row.width, Item.partner?, hname, hf]
        · exact h.closingRun?_found hlt hle hsize (by simp [Element.findIn, hname, hf])
      | succ inner =>
        refine (ih inner).cons (hpass (by simp [Element.findIn, hname, hf])) ?_
        simp [Row.items, Row.spell, Item.partner?, hname, hf]
  · refine (ih inner).cons (hpass (by simp [Element.findIn, hname])) ?_
    simp [Row.items, Row.spell, Item.partner?, hname]

end Tag

/-- **The run that holds a closing tag is the row of the partner by name.** -/
theorem Rows.findsPartner {name : Option String} (inner : Nat) (h : r.Rows i pos rows)
    (hpast : i + rows.length = past) : r.FindsPartner name past inner i pos rows := by
  induction rows generalizing i pos inner with
  | nil =>
    refine .inl ⟨rfl, ?_⟩
    rw [Element.closingRun?, if_neg (by simp at hpast; omega)]
  | cons row rows ih =>
    obtain ⟨hle, hsize⟩ := h.limit_spec
    rw [hpast] at hle hsize
    obtain ⟨hrow, hrows⟩ := h
    have hnext : i + 1 + rows.length = past := by
      rw [List.length_cons] at hpast
      omega
    have hlt : i < past := by omega
    have ih (inner : Nat) := ih inner hrows hnext
    cases row with
    | blank w hw =>
      refine (ih inner).cons ?_ ?_
      · rw [Element.closingRun?, if_pos hlt, hrow.isEmpty]
        rfl
      · show Item.partner? name inner (Row.items (i + 1) (pos + w.length + 1) rows) = _
        simp [Row.items, Row.spell]
    | text p => exact (ih inner).cons (hrow.closingRun?_text hlt name inner) rfl
    | tag s => exact .tag hrow hlt hle hsize ih

/-! ### Indentation, blank rows and paragraphs -/

/-- Rows are not indented, if there is anything on them. -/
theorem Rows.leastIndent? (h : r.Rows i pos rows) (hpast : i + rows.length = past) :
    Element.leastIndent? r i past =
      if (Row.items i pos rows).isEmpty then none else some 0 := by
  induction rows generalizing i pos with
  | nil =>
    rw [Element.leastIndent?, if_neg (by simp at hpast; omega)]
    rfl
  | cons row rows ih =>
    obtain ⟨hrow, hrows⟩ := h
    rw [List.length_cons] at hpast
    rw [Element.leastIndent?, if_pos (by omega), ih hrows (by omega), hrow.isEmpty]
    cases hblank : row.isBlank with
    | true => rw [if_pos rfl, Row.items_cons_blank hblank]
    | false =>
      obtain ⟨c, w, hholds, -⟩ := hrow.exists_holds hblank
      rw [hholds.indent, Row.isEmpty_items hblank]
      cases (Row.items (i + 1) (pos + row.spell.length + 1) rows).isEmpty <;> rfl

theorem Rows.find? (h : r.Rows i pos rows) (hr : r.indent = 0)
    (hpast : i + rows.length = past) : Underline.find? r past i = none := by
  induction rows generalizing i pos with
  | nil => rw [Underline.find?, if_neg (by simp at hpast; omega)]
  | cons row rows ih =>
    obtain ⟨hrow, hrows⟩ := h
    rw [List.length_cons] at hpast
    have hempty : (r.line i).isEmpty = row.isBlank := hrow.isEmpty
    rw [Underline.find?, if_pos (by omega)]
    dsimp only
    rw [hempty]
    cases hblank : row.isBlank with
    | true => rfl
    | false =>
      obtain ⟨c, w, hholds, hc⟩ := hrow.exists_holds hblank
      have hne {d : Char} (hd : d.isAlpha = false) (hd' : d ≠ '<') : c ≠ d := by
        rintro rfl
        rcases hc with hc | hc
        · exact absurd (hd.symm.trans hc) (by decide)
        · exact hd' hc
      have hlevel : Underline.level? r i = none :=
        hholds.underline (hne (by decide) (by decide)) (hne (by decide) (by decide))
      rw [hholds.indent, hr, hlevel, ih hrows (by omega)]
      simp

/-- **A paragraph goes on over rows of text.** -/
theorem Rows.stop (h : r.Rows i pos rows) (hr : r.indent = 0)
    (hheight : i + rows.length = r.height) :
    Paragraph.stop r i = i + (rows.takeWhile Row.isText).length := by
  induction rows generalizing i pos with
  | nil => rw [Paragraph.stop, if_neg (by simp at hheight; omega)]; rfl
  | cons row rows ih =>
    have hshape {s : Sign} (hrow : row = .tag s) : Element.shape? r i r.height =
        Element.Shape.ofRun? ([s.tagAt pos], pos + s.spell.length) := by
      subst hrow
      exact h.shape? hheight
    obtain ⟨hrow, hrows⟩ := h
    rw [List.length_cons] at hheight
    have hempty : (r.line i).isEmpty = row.isBlank := hrow.isEmpty
    rw [Paragraph.stop, if_pos (by omega)]
    dsimp only
    rw [hempty]
    cases row with
    | blank w hw => rfl
    | tag s =>
      obtain ⟨u, -, hholds⟩ := hrow.tag_holds
      have hinterrupts : interrupts r .paragraph i r.height = true := by
        have hstarts : Element.starts r i r.height = true := by
          rw [Element.starts, hshape rfl]
          cases hf : (s.tagAt pos).form <;> simp [Element.Shape.ofRun?, hf]
        simp [interrupts_paragraph, hstarts]
      rw [hholds.indent, hr, hinterrupts]
      rfl
    | text p =>
      obtain ⟨c, w, -, hc, -, hholds⟩ := hrow.text_holds
      rw [hholds.indent, hr, hholds.interrupts_letter hc, ih hrows (by omega),
        List.takeWhile_cons_of_pos rfl, List.length_cons]
      simp [Row.isBlank]
      omega

theorem Shows.of_mem_window {row : Row} (h : r.Shows i pos row) {stop : Nat} {d : Char}
    (hstop : stop ≤ pos + row.spell.length + 1) (hd : d ∈ r.src.window pos stop) :
    d ∈ row.spell ∨ d = '\n' := by
  obtain ⟨k, hk⟩ := List.getElem?_of_mem hd
  rw [Source.getElem?_window] at hk
  split at hk
  · by_cases hlt : k < row.spell.length
    · rw [h.hasAt.getElem? hlt] at hk
      exact .inl (List.mem_of_getElem? hk)
    · have hend : k = row.spell.length := by omega
      subst hend
      rcases h.stop with hb | hs
      · rw [hb] at hk
        exact .inr (Option.some.inj hk).symm
      · rw [hs, Array.getElem?_eq_none (Nat.le_refl _)] at hk
        cases hk
  · cases hk

theorem Rows.of_mem_text (h : r.Rows i pos rows) (hall : ∀ row ∈ rows, row.isText = true)
    (hpast : i + rows.length = past) {d : Char} (hd : d ∈ r.text i past 0 false) :
    d.isAlpha = true ∨ d = ' ' ∨ d = '\n' := by
  induction rows generalizing i pos with
  | nil =>
    rw [Region.text, if_neg (by simp at hpast; omega)] at hd
    cases hd
  | cons row rows ih =>
    obtain ⟨hrow, hrows⟩ := h
    obtain ⟨hfirst, hall⟩ := List.forall_mem_cons.mp hall
    rw [List.length_cons] at hpast
    rw [Region.text, if_pos (by omega), List.mem_append] at hd
    rcases hd with hd | hd
    · cases row with
      | blank => cases hfirst
      | tag => cases hfirst
      | text p =>
        obtain ⟨c, w, -, -, -, hholds⟩ := hrow.text_holds
        have hstop := hrow.line_stop
        rw [hholds.cut] at hd
        rcases hrow.of_mem_window (by split <;> omega) hd with hd | rfl
        · rcases p.letters d hd with hd | hd
          · exact .inl hd
          · exact .inr (.inl hd)
        · exact .inr (.inr rfl)
    · exact ih hrows hall (by omega) hd

/-- **Blank rows are passed over.** -/
theorem Rows.skipEmpty (h : r.Rows i pos rows) (hheight : i + rows.length = r.height) :
    r.skipEmpty i = i + (rows.takeWhile Row.isBlank).length := by
  induction rows generalizing i pos with
  | nil =>
    rw [Region.skipEmpty, if_neg (by simp at hheight; omega)]
    rfl
  | cons row rows ih =>
    obtain ⟨hrow, hrows⟩ := h
    rw [List.length_cons] at hheight
    rw [Region.skipEmpty, if_pos (by omega), hrow.isEmpty, ih hrows (by omega),
      List.takeWhile_cons]
    cases row.isBlank with
    | true =>
      rw [if_pos rfl, if_pos rfl, List.length_cons]
      omega
    | false => rfl

theorem Rows.passEmpty (h : r.Rows i pos rows) (hpast : i + rows.length = past) :
    ∃ blanks rest, rows = blanks ++ rest ∧ (∀ row ∈ blanks, row.isBlank = true) ∧
      passEmpty r past i = i + blanks.length := by
  cases rows with
  | nil =>
    refine ⟨[], [], rfl, List.forall_mem_nil _, ?_⟩
    rw [List.length_nil] at hpast
    rw [Block.passEmpty, if_neg (by simp; omega)]
    rfl
  | cons row rows =>
    rw [List.length_cons] at hpast
    have hlt : i < past := by omega
    rw [Block.passEmpty, decide_eq_true hlt, Bool.true_and, h.1.isEmpty]
    cases hblank : row.isBlank with
    | true => exact ⟨[row], rows, rfl, List.forall_mem_singleton.mpr hblank, rfl⟩
    | false => exact ⟨[], row :: rows, rfl, List.forall_mem_nil _, rfl⟩

/-! ### The rows of a document -/

theorem line_of_drop {l : Line} {ls : List Line} (h : r.lines.toList.drop i = l :: ls) :
    r.line i = l ∧ r.lines.toList.drop (i + 1) = ls ∧ i < r.lines.size := by
  have hget : r.lines.toList[i]? = some l := by
    rw [← Nat.add_zero i, ← List.getElem?_drop, h]
    rfl
  refine ⟨?_, ?_, ?_⟩
  · rw [Region.line, ← Array.getElem?_toList, hget, Option.getD_some]
  · rw [← List.drop_drop, h, List.drop_one, List.tail_cons]
  · have := (List.getElem?_eq_some_iff.mp hget).1
    rwa [Array.length_toList] at this

/-- **The lines of a text are its rows**, but for a last one that is blank. -/
theorem exists_rows (hat : r.src.HasAt pos (Text.unlines (rows.map Row.spell)))
    (hend : pos + (Text.unlines (rows.map Row.spell)).length = r.src.size)
    (hlines : r.lines.toList.drop i = Line.tableFrom pos (Text.unlines (rows.map Row.spell)))
    (hi : i ≤ r.lines.size) : ∃ rows' blanks, rows = rows' ++ blanks ∧
      (∀ row ∈ blanks, row.isBlank = true) ∧ i + rows'.length = r.lines.size ∧
      r.Rows i pos rows' := by
  induction rows generalizing i pos with
  | nil =>
    have hnil : Line.tableFrom pos [] = [] := by
      rw [Line.tableFrom]
      rfl
    rw [List.map_nil, Text.unlines, hnil, List.drop_eq_nil_iff, Array.length_toList] at hlines
    exact ⟨[], [], rfl, List.forall_mem_nil _, by simp; omega, trivial⟩
  | cons row rows ih =>
    cases rows with
    | nil =>
      have hone : Text.unlines ([row].map Row.spell) = row.spell := rfl
      rw [hone] at hat hend hlines
      rw [Line.tableFrom_single row.noBreak, row.all_isSpace] at hlines
      -- with no line break after it, a blank row is no line of its own
      cases hblank : row.isBlank with
      | true =>
        rw [hblank, if_pos rfl, List.drop_eq_nil_iff, Array.length_toList] at hlines
        exact ⟨[], [row], rfl, List.forall_mem_singleton.mpr hblank, by simp; omega, trivial⟩
      | false =>
        rw [hblank, if_neg (by decide)] at hlines
        obtain ⟨hline, hrest, hlt⟩ := line_of_drop hlines
        rw [List.drop_eq_nil_iff, Array.length_toList] at hrest
        exact ⟨[row], [], rfl, List.forall_mem_nil _, by simp; omega, ⟨hline, hat, .inr hend⟩,
          trivial⟩
    | cons row' rows =>
      have hmore : Text.unlines ((row :: row' :: rows).map Row.spell) =
          row.spell ++ '\n' :: Text.unlines ((row' :: rows).map Row.spell) := rfl
      rw [hmore] at hat hend hlines
      rw [Line.tableFrom_first row.noBreak] at hlines
      obtain ⟨hline, hrest, hlt⟩ := line_of_drop hlines
      obtain ⟨hat, hbelow⟩ := Source.hasAt_append.mp hat
      rw [← List.singleton_append, Source.hasAt_append] at hbelow
      obtain ⟨hbreak, hbelow⟩ := hbelow
      rw [List.length_singleton] at hbelow
      rw [List.length_append, List.length_cons] at hend
      obtain ⟨rows', blanks, hsplit, hblanks, hlen, hrows⟩ := ih hbelow (by omega) hrest hlt
      exact ⟨row :: rows', blanks, congrArg _ hsplit, hblanks, by rw [List.length_cons]; omega,
        ⟨hline, hat, .inl (Source.hasAt_singleton.mp hbreak)⟩, hrows⟩

end Region

end MdxProse.Block
