import MdxProse.Proofs.Rows
import MdxProse.Proofs.TextMatching

/-!
# Elements that stand alone

In a document of plain rows each row of tags starts an element.  At an opening tag the reader looks
ahead for the row of the partner by name, reads the rows between the two as a region of its own with
one level less, and goes on after it; it has no stack.

* `Block.Traces`: a stream of paragraphs and elements, and what they enclose.
  `Block.Traces.exists_walk`: when the running texts are read, it is a sequence of nodes that
  enclose the same.
* `Block.Region.Plain`: the region is the rows, and nothing else.
* `Block.Row.Answers`: the reader, wherever it starts, does with the rows what the stack does with
  their tags.  One lemma a first row (`Answers.text`, `Answers.tag`) gives `Block.Row.answers`:
  **all rows are read so.**
* `block_elements_match_tags`: **the document is read if and only if its tags are balanced; then its
  elements nest as the stack matches them, and each paragraph is in the innermost one that is open
  at its lines.**
-/

namespace MdxProse

/-- The lines of a range, as they are outlined. -/
def Outline.lines (range : LineRange) : List Outline :=
  (List.range' range.first (range.past - range.first)).map .line

/-- The node is a paragraph and shows its lines, of which there are some. -/
def Node.IsParagraph (n : Node) (os : List Outline) : Prop :=
  ∃ range, n.kind = .paragraph false ∧ n.lines = some range ∧ range.first < range.past ∧
    os = Outline.lines range

theorem Document.exists_fill {content : String}
    (h : ∀ c ∈ content.toList, c.isAlpha = true ∨ c = ' ' ∨ c = '\n') (src : Source)
    (definitions : List Block.Definition) (range : LineRange) : ∃ es cs,
      fill (Anchor.lines src) definitions (.running content range) =
        .ok (.leaf (.inline content) (some range) es) ∧ Node.ofEvents? es = some cs := by
  obtain ⟨ps, hps, hitems⟩ := Piece.exists_of_chars h
  have hdeep : Tag.Within 19 (Item.tags (Piece.items 0 ps)) := by
    rw [hitems]
    exact .of_length_le (Nat.zero_le _)
  have hevents := @Piece.answered_events ps (Source.ofString content) hps hdeep definitions
  rw [hitems] at hevents
  obtain ⟨es, hes⟩ := hevents.exists_ok .nil
  have hfill : ∃ e, fill (Anchor.lines src) definitions (.running content range) = .ok e := by
    rw [Event.running, fill, hes]
    exact ⟨_, rfl⟩
  obtain ⟨e, he⟩ := hfill
  obtain ⟨es, cs, rfl, hcs, -⟩ := exists_of_fill he
  exact ⟨es, cs, he, hcs⟩

namespace Block

/-- The stream tells of paragraphs and elements, which enclose what the outlines say. -/
inductive Traces : List Event → List Outline → Prop
  | nil : Traces [] []
  | paragraph {content : String} {range : LineRange} {es : List Event} {os : List Outline} :
      (∀ c ∈ content.toList, c.isAlpha = true ∨ c = ' ' ∨ c = '\n') → range.first < range.past →
      Traces es os →
      Traces (Event.around (.paragraph false) (some range) [.running content range] ++ es)
        (Outline.lines range ++ os)
  | element {name : Option String} {span : Span} {l : Option LineRange}
      {inside es : List Event} {os os' : List Outline} : Traces inside os' → Traces es os →
      Traces (Event.around (.flowElement name span) l inside ++ es) (.element name span os' :: os)

namespace Traces

variable {es es' : List Event} {os os' : List Outline}

theorem append (h : Traces es os) (h' : Traces es' os') : Traces (es ++ es') (os ++ os') := by
  induction h with
  | nil => exact h'
  | paragraph hc hlt _ ih =>
    rw [List.append_assoc, List.append_assoc]
    exact .paragraph hc hlt ih
  | element hi _ _ ih =>
    rw [List.append_assoc]
    exact .element hi ih

theorem fill_around {lines : List (Nat × List Char)} {definitions : List Definition} {k : Kind}
    {l : Option LineRange} {inside inside' es es' : List Event}
    (hinside : inside.mapM (Document.fill lines definitions) = .ok inside')
    (hes : es.mapM (Document.fill lines definitions) = .ok es') :
    (Event.around k l inside ++ es).mapM (Document.fill lines definitions) =
      .ok (Event.around k l inside' ++ es') := by
  simp only [Event.around, List.cons_append, List.append_assoc, List.nil_append, List.mapM_cons,
    List.mapM_append, hinside, hes]
  rfl

theorem fill_single {lines : List (Nat × List Char)} {definitions : List Definition} {k : Kind}
    {l : Option LineRange} {inside inside' : List Event}
    (h : inside.mapM (Document.fill lines definitions) = .ok inside') :
    (Event.around k l inside).mapM (Document.fill lines definitions) =
      .ok (Event.around k l inside') := by
  have hnil : ([] : List Event).mapM (Document.fill lines definitions) = .ok [] := rfl
  have haround := fill_around (k := k) (l := l) h hnil
  rwa [List.append_nil, List.append_nil] at haround

/-- **When the running text is read, such a stream walks through nodes that enclose what it
says.** -/
theorem exists_walk (h : Traces es os) (src : Source) (definitions : List Definition) :
    ∃ es' ns, es.mapM (Document.fill (Anchor.lines src) definitions) = .ok es' ∧ Walk es' ns ∧
      Node.Outlined .flowElement Node.IsParagraph ns os := by
  induction h with
  | nil => exact ⟨[], [], rfl, .nil, .nil⟩
  | @paragraph content range es os hc hlt _ ih =>
    obtain ⟨es', ns, hes, hwalk, houtlined⟩ := ih
    obtain ⟨ts, cs, hfill, hcs⟩ := Document.exists_fill hc src definitions range
    have hinside : [Event.running content range].mapM
        (Document.fill (Anchor.lines src) definitions) =
          .ok [.leaf (.inline content) (some range) ts] := by
      rw [List.mapM_cons, hfill]
      rfl
    exact ⟨_, _, fill_around hinside hes, .around (.leaf hcs .nil) hwalk,
      .plain ⟨range, rfl, rfl, hlt, rfl⟩ houtlined⟩
  | element _ _ ihi ih =>
    obtain ⟨inside', cs, hinside, hwalki, houtlinedi⟩ := ihi
    obtain ⟨es', ns, hes, hwalk, houtlined⟩ := ih
    exact ⟨_, _, fill_around hinside hes, .around hwalki hwalk, .element houtlinedi houtlined⟩

end Traces

/-! ### Reading rows -/

/-- The region from line `i` to before `past` is the rows, which stand at `pos`, and nothing
else. -/
structure Region.Plain (r : Region) (i pos past : Nat) (rows : List Row) : Prop where
  shown : r.Rows i pos rows
  past_eq : i + rows.length = past
  height : r.height = past
  indent : r.indent = 0
  /-- The source does not start with front matter. -/
  dash : r.src.has '-' 0 = false

/-- The rows are read as the stack matches their tags, wherever they stand. -/
def Row.Answers (rows : List Row) : Prop :=
  ∀ (r : Region) (i pos past n : Nat) (two : Reader) (blank tight : Bool),
    r.Plain i pos past rows → Tag.Within n (Item.tags (Row.items i pos rows)) →
    Item.Answered (Row.items i pos rows) (readBlocks (readBlock (read n) two) r past blank tight i)
      fun c os => Traces c.events os

section Plain

variable {r : Region} {i k pos past : Nat} {row : Row} {rows rows' : List Row} {s : Sign}

theorem Region.Plain.split (h : r.Plain i pos past (rows ++ rows')) :
    r.Plain (i + rows.length) (pos + Row.width rows) past rows' := by
  refine ⟨h.shown.split.2, ?_, h.height, h.indent, h.dash⟩
  have := h.past_eq
  rw [List.length_append] at this
  omega

theorem Region.Plain.tail (h : r.Plain i pos past (row :: rows)) :
    r.Plain (i + 1) (pos + row.spell.length + 1) past rows := by
  refine ⟨h.shown.2, ?_, h.height, h.indent, h.dash⟩
  have := h.past_eq
  rw [List.length_cons] at this
  omega

theorem Region.Plain.lt (h : r.Plain i pos past (row :: rows)) : i < past := by
  have := h.past_eq
  rw [List.length_cons] at this
  omega

theorem Region.Plain.readBlock_tag (h : r.Plain k pos past (.tag s :: rows))
    {shape : Element.Shape}
    (hs : Element.Shape.ofRun? ([s.tagAt pos], pos + s.spell.length) = some shape)
    (one two : Reader) : readBlock one two r k past = Element.read one r k past shape := by
  exact Block.readBlock_tags h.dash ((h.shown.shape? h.past_eq).trans hs) one two

theorem Region.Plain.fails (h : r.Plain k pos past (.tag s :: rows)) (hskip : r.skipEmpty i = k)
    {block : Region → Nat → Nat → Except SyntaxError Outcome} {e : SyntaxError}
    (he : block r k past = .error e) (blank tight : Bool) :
    readBlocks block r past blank tight i = .error e := by
  obtain ⟨u, -, hholds⟩ := h.shown.1.tag_holds
  subst hskip
  have hdepth : r.indent = (r.line (r.skipEmpty i)).indent := by rw [h.indent, hholds.indent]
  exact readBlocks_error h.lt (Int.le_of_eq hdepth) he blank tight

end Plain

theorem read_succ (n : Nat) : ∃ two, read (n + 1) = fun r i past =>
    readBlocks (readBlock (read n) two) r past false true i := by
  cases n with
  | zero => exact ⟨read 0, rfl⟩
  | succ n => exact ⟨read n, rfl⟩

/-- A row of text starts a paragraph of it and all rows of text right after it. -/
theorem Region.Plain.paragraph {r : Region} {k pos past : Nat} {p : Prose} {rest : List Row}
    (h : r.Plain k pos past (.text p :: rest)) (one two : Reader) :
    ∃ texts below, rest = texts ++ below ∧ (∀ row ∈ .text p :: texts, row.isText = true) ∧
      (Paragraph.read r k).next = k + 1 + texts.length ∧
      readBlock one two r k past = .ok (Paragraph.read r k) ∧
      Traces (Paragraph.read r k).events (Outline.lines ⟨k, k + 1 + texts.length⟩) := by
  obtain ⟨c, w, -, hc, hesm, hholds⟩ := h.shown.1.text_holds
  have hpast := h.past_eq
  rw [List.length_cons] at hpast
  have hnext : k + 1 + rest.length = past := by omega
  have hstop := h.shown.2.stop h.indent (hnext.trans h.height.symm)
  have hsplit := List.takeWhile_append_dropWhile (p := Row.isText) (l := rest)
  have hall : ∀ row ∈ .text p :: rest.takeWhile Row.isText, row.isText = true :=
    List.forall_mem_cons.mpr ⟨rfl, fun row hrow => List.all_eq_true.mp List.all_takeWhile row hrow⟩
  refine ⟨_, _, hsplit.symm, hall, hstop, ?_, ?_⟩
  · exact hholds.readBlock_letter hc h.dash hesm (h.shown.2.find? h.indent hnext) _ _
  · have hshown := h.shown
    rw [← hsplit, ← List.cons_append] at hshown
    rw [Paragraph.read, hstop]
    dsimp only
    rw [← List.append_nil (Event.around _ _ _), ← List.append_nil (Outline.lines _)]
    refine .paragraph (fun d hd => ?_) ?_ .nil
    · rw [Region.runningText, String.toList_ofList, h.indent] at hd
      refine hshown.split.1.of_mem_text hall ?_ ((Text.trim_isInfix _ _).subset hd)
      rw [List.length_cons]
      omega
    · show k < k + 1 + _
      omega

/-- What is read between the lines of an opening and a closing tag. -/
def readInside (content : Reader) (r : Region) (i past : Nat) : Except SyntaxError Outcome :=
  match Element.leastIndent? r i past with
  | none => .ok ⟨[], [], past⟩
  | some indent => (content { r with height := past, indent, isTop := false } i past).bind fun c =>
    .ok c.toOutcome

theorem readClosed_eq (content : Reader) {r : Region} {c : Tag} {j stop : Nat} (t : Tag) (i : Nat)
    (hstart : c.span.start ≤ (r.line j).stop) (hstop : stop ≤ (r.line j).stop) (k : Nat) :
    Element.readClosed content r t i k ⟨j, [], c, [], stop⟩ =
      (readInside content r k j).bind fun o => .ok ⟨Event.around
        (.flowElement t.name ⟨t.span.start, c.span.stop⟩) (some ⟨i, j + 1⟩) o.events ++ [],
        o.definitions, j + 1⟩ := by
  rw [Element.readClosed, readInside]
  simp only [Region.lineReaching_self hstart, Region.lineReaching_self hstop, List.isEmpty_nil,
    if_true]
  cases Element.leastIndent? r k j with
  | none => rfl
  | some indent =>
    simp only [Element.inside, List.isEmpty_nil, if_true]
    cases content { r with height := j, indent, isTop := false } k j <;> rfl

namespace Row.Answers

variable {r : Region} {i k pos pos' past n : Nat} {two : Reader} {blank tight : Bool}
  {rows rest : List Row} {s : Sign} {p : Prose} {os₁ : List Outline}

/-- **After a block, the rows after it are read.** -/
theorem after {o : Outcome} (hrest : ∀ rows', rows'.length ≤ rest.length → Answers rows')
    (hplain : r.Plain o.next pos' past rest)
    (hn : Tag.Within n (Item.tags (Row.items o.next pos' rest)))
    (hskip : r.skipEmpty i = k) (hlt : k < past) (hindent : (r.line k).indent = 0)
    (hblock : readBlock (read n) two r k past = .ok o) (hnext : k < o.next)
    (htraces : Traces o.events os₁) :
    Item.Answered (Row.items o.next pos' rest)
      (readBlocks (readBlock (read n) two) r past blank tight i)
      fun c os => Traces c.events (os₁ ++ os) := by
  obtain ⟨blanks, rest', rfl, hblanks, hpass⟩ := hplain.shown.passEmpty hplain.past_eq
  subst hskip
  have hdepth : r.indent = (r.line (r.skipEmpty i)).indent := by rw [hplain.indent, hindent]
  obtain ⟨blank', tight', hread⟩ :=
    readBlocks_block hlt (Int.le_of_eq hdepth) hblock hnext blank tight
  rw [Row.items_append, Row.items_blank hblanks, List.nil_append] at hn ⊢
  have hafter := hrest rest' (by simp) r _ _ past n two blank' tight' hplain.split hn
  rw [hread, hpass]
  exact hafter.andThen (f := (·.bind _)) (fun e => ⟨e, rfl⟩)
    fun c os hc => ⟨_, rfl, htraces.append hc⟩

/-- **A row of text is read as a paragraph**, with all rows of text right after it. -/
theorem text (ih : ∀ rows', rows'.length ≤ rest.length → Answers rows')
    (hskip : r.skipEmpty i = k) (h : r.Plain k pos past (.text p :: rest))
    (hn : Tag.Within n (Item.tags (Row.items k pos (.text p :: rest)))) :
    Item.Answered (Row.items k pos (.text p :: rest))
      (readBlocks (readBlock (read n) two) r past blank tight i)
      fun c os => Traces c.events os := by
  obtain ⟨texts, below, rfl, hall, hnext, hblock, htraces⟩ := h.paragraph (read n) two
  obtain ⟨c, w, -, -, -, hholds⟩ := h.shown.1.text_holds
  have hlt := h.lt
  have hlen : k + (Row.text p :: texts).length = (Paragraph.read r k).next := by
    rw [hnext, List.length_cons]
    omega
  have hlines : Outline.lines ⟨k, k + 1 + texts.length⟩ =
      (List.range' k (Row.text p :: texts).length).map .line := by
    rw [Outline.lines, List.length_cons, show k + 1 + texts.length - k = texts.length + 1 by omega]
  rw [hlines] at htraces
  rw [← List.cons_append] at h hn ⊢
  have hbelow := h.split
  rw [Row.items_append, Row.items_text hall, hlen] at hn ⊢
  rw [Item.tags_lines] at hn
  rw [hlen] at hbelow
  apply Item.Answered.lines
  refine after (fun rows' hrows' => ih rows' ?_) hbelow hn hskip hlt hholds.indent hblock ?_ htraces
  · rw [List.length_append]
    omega
  · omega

theorem inside (hrows : Answers rows) (h : r.Rows k pos rows) (hpast : k + rows.length = past)
    (hdash : r.src.has '-' 0 = false) (hn : Tag.Within n (Item.tags (Row.items k pos rows))) :
    Item.Answered (Row.items k pos rows) (readInside (read (n + 1)) r k past)
      fun o os => Traces o.events os := by
  rw [readInside, h.leastIndent? hpast]
  cases hitems : (Row.items k pos rows).isEmpty with
  | true =>
    rw [List.isEmpty_iff.mp hitems]
    exact .nil rfl .nil
  | false =>
    obtain ⟨two, hread⟩ := read_succ n
    have hplain : Region.Plain { r with height := past, indent := 0, isTop := false } k pos past
        rows := ⟨h.of_eq rfl rfl, hpast, rfl, rfl, hdash⟩
    have hanswered := hrows _ _ _ _ n two false true hplain hn
    rw [hread]
    exact hanswered.andThen (f := (·.bind fun c => .ok c.toOutcome)) (fun e => ⟨e, rfl⟩)
      fun c os hc => ⟨_, rfl, hc⟩

theorem stray (hskip : r.skipEmpty i = k) (h : r.Plain k pos past (.tag s :: rest))
    (hf : (s.tagAt pos).form = .closing) :
    Item.Answered (Row.items k pos (.tag s :: rest))
      (readBlocks (readBlock (read n) two) r past blank tight i)
      fun c os => Traces c.events os := by
  have hread : readBlock (read n) two r k past =
      Element.read (read n) r k past (.stray (s.tagAt pos)) :=
    h.readBlock_tag (by simp [Element.Shape.ofRun?, hf]) _ _
  exact .stray hf ⟨_, h.fails hskip hread blank tight⟩

section Tag

variable (ih : ∀ rows', rows'.length ≤ rest.length → Answers rows')
  (hskip : r.skipEmpty i = k) (h : r.Plain k pos past (.tag s :: rest))
  (hn : Tag.Within n (Item.tags (Row.items k pos (.tag s :: rest))))

include ih hskip h hn

theorem single (hf : (s.tagAt pos).form = .selfClosing) :
    Item.Answered (Row.items k pos (.tag s :: rest))
      (readBlocks (readBlock (read n) two) r past blank tight i)
      fun c os => Traces c.events os := by
  obtain ⟨u, -, hholds⟩ := h.shown.1.tag_holds
  have hread : readBlock (read n) two r k past =
      Element.read (read n) r k past (.run [s.tagAt pos] (pos + s.spell.length)) :=
    h.readBlock_tag (by simp [Element.Shape.ofRun?, hf]) _ _
  have hreach : r.lineReaching (pos + s.spell.length) k = k :=
    Region.lineReaching_self (Nat.le_of_eq h.shown.1.line_stop.symm)
  rw [Element.read, hreach] at hread
  have hevents : Element.runEvents ⟨k, k + 1⟩ [s.tagAt pos] =
      Event.around (.flowElement (s.tagAt pos).name (s.tagAt pos).span) (some ⟨k, k + 1⟩) [] ++
        [] := by
    rw [Element.runEvents, hf]
    rfl
  have htraces : Traces (Element.runEvents ⟨k, k + 1⟩ [s.tagAt pos])
      [.element (s.tagAt pos).name (s.tagAt pos).span []] := by
    rw [hevents]
    exact .element .nil .nil
  apply Item.Answered.single hf
  exact after ih h.tail (hn.tail hf) hskip h.lt hholds.indent hread (Nat.lt_succ_self k) htraces

/-- An opening tag is followed by the rows inside, up to its partner by name, and then by the rows
after. -/
theorem opened (hf : (s.tagAt pos).form = .opening) :
    Item.Answered (Row.items k pos (.tag s :: rest))
      (readBlocks (readBlock (read n) two) r past blank tight i)
      fun c os => Traces c.events os := by
  obtain ⟨u, -, hholds⟩ := h.shown.1.tag_holds
  have hread : readBlock (read n) two r k past =
      Element.read (read n) r k past (.open_ (s.tagAt pos) (pos + s.spell.length)) :=
    h.readBlock_tag (by simp [Element.Shape.ofRun?, hf]) _ _
  have hreach : r.lineReaching (pos + s.spell.length) k = k :=
    Region.lineReaching_self (Nat.le_of_eq h.shown.1.line_stop.symm)
  rw [Element.read, hreach] at hread
  have hrest : r.Plain (k + 1) (pos + s.spell.length + 1) past rest := h.tail
  have hfinds : r.FindsPartner (s.tagAt pos).name past 0 (k + 1) (pos + s.spell.length + 1)
      rest := hrest.shown.findsPartner 0 hrest.past_eq
  rcases hfinds with ⟨hpartner, hclosing⟩ | ⟨rows₁, g, rows₂, rfl, hpartner, hclosing⟩
  · rw [hclosing] at hread
    exact .unclosed hf hpartner ⟨_, h.fails hskip hread blank tight⟩
  · rw [hclosing] at hread
    obtain ⟨hsplit, hform, hname⟩ := Item.of_partner? hpartner
    have hinner : r.Rows (k + 1) (pos + s.spell.length + 1) rows₁ := hrest.shown.split.1
    have hafter := hrest.split
    generalize hj : k + 1 + rows₁.length = j at *
    generalize pos + s.spell.length + 1 + width rows₁ = pos' at *
    have hend : (r.line j).stop = pos' + g.spell.length := hafter.shown.1.line_stop
    have hread : readBlock (read n) two r k past = (readInside (read n) r (k + 1) j).bind _ :=
      hread.trans (readClosed_eq _ _ _ (hend ▸ Nat.le_add_right _ _) (Nat.le_of_eq hend.symm) _)
    have hitems : items k pos (.tag s :: (rows₁ ++ .tag g :: rows₂)) = .tag (s.tagAt pos) ::
        (items (k + 1) (pos + s.spell.length + 1) rows₁ ++ .tag (g.tagAt pos') ::
          items (j + 1) (pos' + g.spell.length + 1) rows₂) := congrArg _ hsplit
    rw [hitems] at hn
    obtain ⟨m, rfl, hm⟩ := Item.within_inside hn hf
    have hrows₁ : Answers rows₁ := ih rows₁ (by simp)
    apply Item.Answered.pair hf hpartner (hrows₁.inside hinner hj h.dash hm)
    · intro e he
      rw [he] at hread
      exact ⟨e, h.fails hskip hread blank tight⟩
    · intro o os₁ hos₁ ho htraces
      rw [ho] at hread
      have hdeep := hos₁.within_after hn hf hform hname
      have helement : Traces (Event.around (.flowElement (s.tagAt pos).name
          ⟨(s.tagAt pos).span.start, (g.tagAt pos').span.stop⟩) (some ⟨k, j + 1⟩) o.events ++ [])
          [.element (s.tagAt pos).name ⟨(s.tagAt pos).span.start, (g.tagAt pos').span.stop⟩ os₁] :=
        .element htraces .nil
      refine after (fun rows' hrows' => ih rows' ?_) hafter.tail hdeep hskip h.lt hholds.indent
        hread ?_ helement
      · rw [List.length_append, List.length_cons]
        omega
      · show k < j + 1
        omega

/-- **A row that is a tag is read as the stack matches it.** -/
theorem tag : Item.Answered (Row.items k pos (.tag s :: rest))
    (readBlocks (readBlock (read n) two) r past blank tight i) fun c os => Traces c.events os := by
  cases hf : (s.tagAt pos).form with
  | selfClosing => exact single ih hskip h hn hf
  | closing => exact stray hskip h hf
  | opening => exact opened ih hskip h hn hf

end Tag

end Row.Answers

/-- **Rows are read as the stack matches their tags.** -/
theorem Row.answers (rows : List Row) : Answers rows := by
  -- on the number of rows: an element takes rows from the middle, so its inside is no tail
  induction hk : rows.length using Nat.strongRecOn generalizing rows with
  | ind k ih =>
  intro r i pos past n two blank tight h hn
  have hskip := h.shown.skipEmpty (h.past_eq.trans h.height.symm)
  have hsplit := List.takeWhile_append_dropWhile (p := Row.isBlank) (l := rows)
  have hblanks : ∀ row ∈ rows.takeWhile Row.isBlank, row.isBlank = true :=
    List.all_eq_true.mp List.all_takeWhile
  have hfirst := List.head?_dropWhile_not Row.isBlank rows
  generalize rows.takeWhile Row.isBlank = blanks at hskip hsplit hblanks
  generalize rows.dropWhile Row.isBlank = rest at hsplit hfirst
  subst hsplit
  have hrest := h.split
  rw [Row.items_append, Row.items_blank hblanks, List.nil_append] at hn ⊢
  cases rest with
  | nil =>
    have hpast := hrest.past_eq
    rw [List.length_nil] at hpast
    obtain ⟨next, hdone⟩ := @readBlocks_done (readBlock (read n) two) r past i
      (fun _ => by rw [hskip]; omega) blank tight
    exact .nil hdone .nil
  | cons row rest =>
    have ih (rows' : List Row) (h : rows'.length ≤ rest.length) : Answers rows' := by
      apply ih rows'.length ?_ rows' rfl
      rw [← hk, List.length_append, List.length_cons]
      omega
    cases row with
    | blank w hw => exact absurd hfirst (by simp [Row.isBlank])
    | tag s => exact Answers.tag ih hskip hrest hn
    | text p => exact Answers.text ih hskip hrest hn

/-! ### The document -/

namespace Row

/-- The document that the rows are. -/
def document (rows : List Row) : Document :=
  .ofString (String.ofList (Text.unlines (rows.map spell)))

theorem isPlain_of_mem {rows : List Row} {c : Char} (h : c ∈ Text.unlines (rows.map spell)) :
    Text.isPlain c = true := by
  have hspell {row : Row} (h : c ∈ row.spell) : Text.isPlain c = true := by
    cases row with
    | blank w hw =>
      have hspace : Text.isSpace c = true := List.all_eq_true.mp hw c h
      rw [Text.isSpace, Bool.or_eq_true, beq_iff_eq, beq_iff_eq] at hspace
      rcases hspace with rfl | rfl <;> decide
    | tag s => exact Sign.isPlain_of_mem h
    | text p =>
      rcases p.letters c h with h | rfl
      · rw [Text.isPlain, h, Bool.true_or]
      · decide
  induction rows with
  | nil => cases h
  | cons row rows ih =>
    cases rows with
    | nil => exact hspell h
    | cons row' rows =>
      rcases List.mem_append.mp h with h | h
      · exact hspell h
      · rcases List.mem_cons.mp h with rfl | h
        · decide
        · exact ih h

theorem source_document (rows : List Row) :
    (document rows).source.toList = Text.unlines (rows.map spell) :=
  Document.source_ofString fun _ => isPlain_of_mem

/-- The lines of a source are the rows, but for a last one that is blank. -/
theorem exists_plain {rows : List Row} {src : Source}
    (hsrc : src.toList = Text.unlines (rows.map spell)) : ∃ rows' blanks, rows = rows' ++ blanks ∧
      (∀ row ∈ blanks, row.isBlank = true) ∧
      (Region.ofSource src).Plain 0 0 (Region.ofSource src).height rows' := by
  have hat : src.HasAt 0 (Text.unlines (rows.map spell)) := Source.hasAt_of_toList_eq hsrc
  have hend : 0 + (Text.unlines (rows.map spell)).length = src.size := by
    rw [← hsrc, Array.length_toList, Nat.zero_add]
  have htable : (Line.table src).toList = Line.tableFrom 0 (Text.unlines (rows.map spell)) := by
    rw [Line.table, hsrc]
  have hdash : src.has '-' 0 = false := by
    rw [Source.has, Source.test]
    cases hc : src[0]? with
    | none => rfl
    | some c =>
      have hmem : c ∈ Text.unlines (rows.map spell) := by
        rw [← hsrc]
        exact Array.mem_toList_iff.mpr (Array.mem_of_getElem? hc)
      simpa using @Text.of_isPlain (· != '-') (by decide +kernel) c (isPlain_of_mem hmem)
  obtain ⟨rows', blanks, hsplit, hblanks, hlen, hrows⟩ :=
    @Region.exists_rows (Region.ofSource src) 0 0 rows hat hend htable (Nat.zero_le _)
  exact ⟨rows', blanks, hsplit, hblanks, hrows, hlen, rfl, rfl, hdash⟩

/-- **The blocks of a source are read as the stack matches its tags.** -/
theorem answered_readSource {rows : List Row} {src : Source}
    (hsrc : src.toList = Text.unlines (rows.map spell))
    (hn : Tag.Within 19 (Item.tags (items 0 0 rows))) :
    Item.Answered (items 0 0 rows) (readSource src) fun o os => Traces o.events os := by
  obtain ⟨rows', blanks, hsplit, hblanks, hplain⟩ := exists_plain hsrc
  have hitems : items 0 0 rows' = items 0 0 rows := by
    rw [hsplit, items_append, items_blank hblanks, List.append_nil]
  have hread : readSource src = (readBlocks (readBlock (read 19) (read 18)) (Region.ofSource src)
      (Region.ofSource src).height false true 0).bind fun c => .ok c.toOutcome := rfl
  rw [← hitems] at hn ⊢
  rw [hread]
  have hanswered := answers rows' _ 0 0 _ 19 (read 18) false true hplain hn
  exact hanswered.andThen (f := (·.bind fun c => .ok c.toOutcome)) (fun e => ⟨e, rfl⟩)
    fun c os hc => ⟨_, rfl, hc⟩

end Row

end Block

/-- The tree is a sequence of paragraphs and elements, which enclose what the outlines say. -/
def Node.IsPlain (root : Node) (os : List Outline) : Prop :=
  ∃ ns, root = .mk .root none ns ∧ Node.Outlined .flowElement Node.IsParagraph ns os

/-- **The document is read as the stack matches its tags.** -/
theorem Block.Row.answered_document {rows : List Block.Row}
    (hdeep : Tag.Within 19 (Item.tags (Row.items 0 0 rows))) :
    Item.Answered (items 0 0 rows) (document rows).read Node.IsPlain := by
  refine (answered_readSource (source_document rows) hdeep).andThen
    (f := fun x => (x.bind fun o => o.events.mapM
      (Document.fill (Anchor.lines (document rows).source) o.definitions)).bind fun es =>
        .ok (Node.mk .root none ((Node.ofEvents? es).getD []))) (fun e => ⟨e, rfl⟩) ?_
  intro o os htraces
  obtain ⟨es, ns, hfill, hwalk, houtlined⟩ :=
    htraces.exists_walk (document rows).source o.definitions
  refine ⟨.mk .root none ns, ?_, ns, rfl, houtlined⟩
  simp only [Except.bind, hfill, hwalk.ofEvents?, Option.getD_some]

/-- **Elements that stand alone nest as a stack matches their tags.**  A document of unindented
lines, each of which is blank, a tag without attributes, or text that starts with a letter, is read
if and only if its tags are balanced; its elements and paragraphs are then nested as the outline
that the stack finds says.  The tags may nest as deep as elements are read. -/
theorem block_elements_match_tags (rows : List Block.Row)
    (hdeep : Tag.Within 19 (Item.tags (Block.Row.items 0 0 rows))) :
    (Tag.balanced (Item.tags (Block.Row.items 0 0 rows)) = true → ∃ os root,
      Item.match? (Block.Row.items 0 0 rows) = some os ∧
      (Block.Row.document rows).read = .ok root ∧ root.IsPlain os) ∧
    (Tag.balanced (Item.tags (Block.Row.items 0 0 rows)) = false →
      ∃ e, (Block.Row.document rows).read = .error e) :=
  (Block.Row.answered_document hdeep).of_balanced

/-- A paragraph and an element inside another one, and two elements that cross. -/
theorem block_elements_match_tags_nested : ∃ rows rows' : List Block.Row,
    Text.unlines (rows.map Block.Row.spell) = "<A>\nc\n<B/>\n\n</A>\nd".toList ∧
    Text.unlines (rows'.map Block.Row.spell) = "<A>\nc\n<B>\n</A>\n</B>".toList ∧
    (∃ root, (Block.Row.document rows).read = .ok root ∧ root.IsPlain
      [.element (some "A") ⟨0, 16⟩ [.line 1, .element (some "B") ⟨6, 10⟩ []], .line 5]) ∧
    ∃ e, (Block.Row.document rows').read = .error e := by
  let a : Word := ⟨['A'], List.cons_ne_nil _ _, List.forall_mem_singleton.mpr rfl⟩
  let b : Word := ⟨['B'], List.cons_ne_nil _ _, List.forall_mem_singleton.mpr rfl⟩
  let c : Block.Prose :=
    ⟨['c'], List.forall_mem_singleton.mpr (.inl rfl), ⟨'c', rfl, rfl⟩, by decide⟩
  let d : Block.Prose :=
    ⟨['d'], List.forall_mem_singleton.mpr (.inl rfl), ⟨'d', rfl, rfl⟩, by decide⟩
  let start : List Block.Row := [.tag (.opening (some a)), .text c]
  let rows := start ++ [.tag (.single b), .blank [] rfl, .tag (.closing (some a)), .text d]
  let rows' := start ++ [.tag (.opening (some b)), .tag (.closing (some a)),
    .tag (.closing (some b))]
  have hrows := block_elements_match_tags rows (.of_length_le (by decide))
  have hrows' := block_elements_match_tags rows' (.of_length_le (by decide))
  refine ⟨rows, rows', rfl, rfl, ?_, hrows'.2 (by decide)⟩
  obtain ⟨os, root, hos, hroot, hplain⟩ := hrows.1 (by decide)
  have hmatch : Item.match? (Block.Row.items 0 0 rows) = some [.element (some "A") ⟨0, 16⟩
      [.line 1, .element (some "B") ⟨6, 10⟩ []], .line 5] := rfl
  cases hmatch.symm.trans hos
  exact ⟨root, hroot, hplain⟩

end MdxProse
