import Mathlib.Data.List.Induction
import MdxProse.Proofs.Alignment
import MdxProse.Proofs.PlainLines
import MdxProse.Proofs.TextMatching

/-!
# Elements on a line of text

A document of one line that starts with a letter is a paragraph, and its running text is the line
without the white space at its end.  Nothing is moved when the offsets of the running text are
located in the document.

* `Block.readSource_line`: **the document is one paragraph.**
* `Anchor.ofText_line`, `Anchor.place_origin`: its events keep their offsets.
* `Document.answered_fill`: its running text is read as the stack matches its tags.
* `line_elements_match_tags`: **the line is read if and only if its tags are balanced, and then its
  elements nest as the stack matches them.**
-/

namespace MdxProse

/-! ### The line of text -/

theorem Text.trimEnd_congr {p q : Char → Bool} {w : List Char} (h : ∀ c ∈ w, p c = q c) :
    trimEnd p w = trimEnd q w := by
  have hdrop (v : List Char) (hv : ∀ c ∈ v, p c = q c) : v.dropWhile p = v.dropWhile q := by
    induction v with
    | nil => rfl
    | cons c v ih =>
      obtain ⟨hc, hv⟩ := List.forall_mem_cons.mp hv
      rw [List.dropWhile_cons, List.dropWhile_cons, hc, ih hv]
  rw [trimEnd, trimEnd, hdrop w.reverse fun c hc => h c (List.mem_reverse.mp hc)]

theorem Text.trimEnd_of_last {p : Char → Bool} {c : Char} (hc : p c = false) (w : List Char) :
    trimEnd p (w ++ [c]) = w ++ [c] := by
  rw [trimEnd, List.reverse_append, List.reverse_singleton, List.singleton_append,
    List.dropWhile_cons_of_neg (by simp [hc])]
  simp

namespace Piece

theorem exists_trimEnd (ps : List Piece) : ∃ ps', (∀ k, items k ps' = items k ps) ∧
    Text.trimEnd Text.isPadding (spellAll ps) = spellAll ps' := by
  induction ps using List.reverseRecOn with
  | nil => exact ⟨[], fun _ => rfl, rfl⟩
  | append_singleton ps p ih =>
    obtain ⟨ps', hitems, htrim⟩ := ih
    have hkeep {u : List Char} {c : Char} (hp : p.spell = u ++ [c])
        (hc : Text.isPadding c = false) : ∃ ps', (∀ k, items k ps' = items k (ps ++ [p])) ∧
          Text.trimEnd Text.isPadding (spellAll (ps ++ [p])) = spellAll ps' := by
      have hspell : spellAll (ps ++ [p]) = (spellAll ps ++ u) ++ [c] := by
        simp [spellAll, hp]
      refine ⟨ps ++ [p], fun _ => rfl, ?_⟩
      rw [hspell]
      exact Text.trimEnd_of_last hc _
    cases p with
    | tag s =>
      obtain ⟨u, hu⟩ := s.exists_spell_eq
      exact hkeep hu (by decide)
    | char c hc =>
      cases hwhite : Text.isPadding c with
      | false => exact hkeep (u := []) rfl hwhite
      | true =>
        refine ⟨ps', fun k => ?_, ?_⟩
        · rw [hitems, items_append]
          exact (List.append_nil _).symm
        · rw [spellAll_append, Text.trimEnd_white, htrim]
          intro d hd
          obtain rfl := List.mem_singleton.mp hd
          exact hwhite

end Piece

/-! ### The document -/

namespace Block

theorem Region.holds_ofSource {src : Source} {c : Char} {w : List Char}
    (hsrc : src.toList = c :: w) (hbreak : '\n' ∉ c :: w) (hc : Text.isSpace c = false) :
    (ofSource src).Holds 0 0 (c :: w) ∧ (ofSource src).height = 1 := by
  have htable : Line.table src = #[⟨0, 0 + (c :: w).length, 0, 0, 0⟩] := by
    rw [Line.table, hsrc, Line.tableFrom_single hbreak, if_neg (by simp [hc]),
      Line.ofBody_of_head hc]
  have hlines : (ofSource src).lines = #[⟨0, 0 + (c :: w).length, 0, 0, 0⟩] := htable
  refine ⟨⟨?_, ?_⟩, congrArg Array.size htable⟩
  · rw [Region.line, hlines]
    rfl
  · exact Source.hasAt_of_toList_eq hsrc

theorem Region.Holds.paragraph {r : Region} {i pos : Nat} {w : List Char} (h : r.Holds i pos w)
    (hr : r.indent = 0) (hheight : r.height = i + 1) : Paragraph.read r i =
      ⟨Event.around (.paragraph false) (some ⟨i, i + 1⟩)
        [.running (String.ofList (Text.trim Text.isPadding w)) ⟨i, i + 1⟩], [], i + 1⟩ := by
  have hstop : Paragraph.stop r (i + 1) = i + 1 := by
    rw [Paragraph.stop, hheight, if_neg (Nat.lt_irrefl _)]
  rw [Paragraph.read, hstop, h.runningText hr]

/-- **A document of one line that starts with a letter is a paragraph.** -/
theorem readSource_line {src : Source} {c : Char} {w : List Char} (hsrc : src.toList = c :: w)
    (hbreak : '\n' ∉ c :: w) (hc : c.isAlpha = true) (hesm : Esm.isStatement (c :: w) = false) :
    ∃ next, readSource src = .ok ⟨Event.around (.paragraph false) (some ⟨0, 1⟩)
      [.running (String.ofList (Text.trim Text.isPadding (c :: w))) ⟨0, 1⟩], [], next⟩ := by
  have hspace : Text.isSpace c = false := by
    simpa using @Text.of_isAlpha (!Text.isSpace ·) (by decide +kernel) c hc
  obtain ⟨hline, hheight⟩ := Region.holds_ofSource hsrc hbreak hspace
  have hindent : (Region.ofSource src).indent = 0 := rfl
  have hsource := readSource_blocks src
  generalize Region.ofSource src = r at hline hheight hindent hsource
  have hparagraph := hline.paragraph hindent hheight
  have hskip : r.skipEmpty 0 = 0 := Region.skipEmpty_of_isEmpty_eq_false hline.isEmpty
  have hunder : Underline.find? r 1 1 = none := by
    rw [Underline.find?, if_neg (Nat.lt_irrefl 1)]
  have hblock : readBlock (read 19) (read 18) r (r.skipEmpty 0) 1 = .ok (Paragraph.read r 0) := by
    rw [hskip]
    exact hline.readBlock_letter hc (hline.has (Text.ne_of_isAlpha hc (by decide))) hesm hunder _ _
  have hdepth : r.indent = (r.line (r.skipEmpty 0)).indent := by
    rw [hskip, hline.indent, hindent]
  have hnext : r.skipEmpty 0 < (Paragraph.read r 0).next := by
    rw [hparagraph, hskip]
    exact Nat.zero_lt_one
  obtain ⟨blank, tight, hblocks⟩ :=
    readBlocks_block (by omega) (Int.le_of_eq hdepth) hblock hnext false true
  have hpass : passEmpty r 1 (Paragraph.read r 0).next = 1 := by
    rw [hparagraph, passEmpty]
    rfl
  obtain ⟨next, hdone⟩ := @readBlocks_done (readBlock (read 19) (read 18)) r 1 1
    (fun h => absurd h (Nat.lt_irrefl 1)) blank tight
  rw [hpass, hdone, hparagraph] at hblocks
  rw [hsource, hheight, hblocks]
  exact ⟨next, rfl⟩

end Block

namespace Anchor

/-- A line of text that is trimmed at its end only keeps its offsets. -/
theorem ofText_line {src : Source} {c : Char} {w : List Char} (hsrc : src.toList = c :: w)
    (hbreak : '\n' ∉ c :: w) (hc : Text.isPadding c = false)
    (hwhite : ∀ d ∈ c :: w, Text.isBlank d = Text.isPadding d) :
    ofText (lines src) (Text.trim Text.isPadding (c :: w)) 0 = [⟨0, 0⟩] := by
  have htrim : Text.trim Text.isPadding (c :: w) = Text.trimEnd Text.isPadding (c :: w) := by
    rw [Text.trim, List.dropWhile_cons_of_neg (by simp [hc])]
  generalize hpart : Text.trimEnd Text.isPadding (c :: w) = part at htrim
  have hno : '\n' ∉ part := by
    rw [← hpart]
    exact fun h => hbreak ((Text.trimEnd_isPrefix _ _).subset h)
  have hblank : Text.trimEnd Text.isBlank (c :: w) = part := by
    rw [Text.trimEnd_congr hwhite, hpart]
  have hcolumn : column part part = 0 := by
    rw [column, if_pos (by simp), Nat.sub_self]
  rw [htrim, ofText, lines, hsrc, linesFrom_single hbreak, Text.splitOn_single hno, List.drop_zero,
    pair]
  simp only [List.isEmpty_nil, if_true]
  rw [hblank, hcolumn]
  rfl

theorem place_origin {src : Source} {e : Event} (h : e.IsInline src) : place [⟨0, 0⟩] e = e := by
  have hlocate (o : Nat) : locate [⟨0, 0⟩] o = o := by
    simp [locate]
  have hkind {k : Kind} (hk : k.IsInline src) : placeKind [⟨0, 0⟩] k = k := by
    have hspan {s : Span} (hcode : k.isTextCode = true) (hs : k.span? = some s) :
        locateSpan [⟨0, 0⟩] s = s := by
      have := ((hk hcode).bounds hs).1
      rw [locateSpan, hlocate, hlocate, Nat.sub_add_cancel (by omega)]
    cases k with
    | textExpression c s => rw [placeKind, hspan rfl rfl]
    | textElement n s => rw [placeKind, hspan rfl rfl]
    | _ => rfl
  cases e with
  | enter k l => rw [place, hkind (h.code k rfl)]
  | leaf k l i => rw [place, hkind (h.code k rfl)]
  | leave t n => rfl

end Anchor

namespace Document

/-- **The running text of a line is read as the stack matches its tags.** -/
theorem answered_fill {ps : List Piece} {content : String} {range : LineRange}
    {lines : List (Nat × List Char)} (hcontent : content.toList = Piece.spellAll ps)
    (hanchors : Anchor.ofText lines content.toList range.first = [⟨0, 0⟩])
    (hn : Tag.Within 19 (Item.tags (Piece.items 0 ps))) (definitions : List Block.Definition) :
    Item.Answered (Piece.items 0 ps) (fill lines definitions (.running content range))
      fun e os => ∃ es, e = .leaf (.inline content) (some range) es ∧ Inline.Traces es os := by
  have hsrc : (Source.ofString content).toList = Piece.spellAll ps := hcontent
  have hread := (Piece.answered_events hsrc hn definitions).result
  generalize hanchored : Anchor.ofText lines content.toList range.first = anchors at hanchors
  have hfill : fill lines definitions (.running content range) =
      (Inline.events definitions (Source.ofString content)).bind fun es =>
        .ok (.leaf (.inline content) (some range)
          ((Inline.joinEscapes es).map (Anchor.place anchors))) := by
    rw [← hanchored]
    rfl
  rw [hfill]
  refine hread.andThen (f := (·.bind _)) (fun e => ⟨e, rfl⟩) ?_
  rintro es os ⟨hes, htraces⟩
  refine ⟨_, rfl, _, rfl, ?_⟩
  have hplace (e : Event) (he : e ∈ Inline.joinEscapes es) : Anchor.place [⟨0, 0⟩] e = e :=
    Anchor.place_origin ((Inline.events_reads hes).joinEscapes.each e he)
  rw [hanchors, List.map_congr_left hplace, List.map_id']
  exact htraces.joinEscapes

theorem read_line {d : Document} {content : String} {next : Nat}
    (h : Block.readSource d.source = .ok ⟨Event.around (.paragraph false) (some ⟨0, 1⟩)
      [.running content ⟨0, 1⟩], [], next⟩) :
    d.read = (fill (Anchor.lines d.source) [] (.running content ⟨0, 1⟩)).bind fun e =>
      .ok (.mk .root none ((Node.ofEvents? (Event.around (.paragraph false) (some ⟨0, 1⟩)
        [e])).getD [])) := by
  have hevents : d.events = (Event.around (.paragraph false) (some ⟨0, 1⟩)
      [.running content ⟨0, 1⟩]).mapM (fill (Anchor.lines d.source) []) := by
    rw [events, h]
    rfl
  rw [read, hevents]
  simp only [Event.around, List.cons_append, List.nil_append, List.mapM_cons, List.mapM_nil]
  cases fill (Anchor.lines d.source) [] (.running content ⟨0, 1⟩) <;> rfl

theorem nodes_line {content : String} {es : List Event} {ns : List Node} (h : Walk es ns) :
    Node.ofEvents? (Event.around (.paragraph false) (some ⟨0, 1⟩)
      [.leaf (.inline content) (some ⟨0, 1⟩) es]) = some [.mk (.paragraph false) (some ⟨0, 1⟩)
        [.mk (.inline content) (some ⟨0, 1⟩) ns]] :=
  (Walk.leaf h.ofEvents? .nil).single.ofEvents?

end Document

/-! ### Elements on a line -/

namespace Piece

/-- The document that the pieces are. -/
def document (ps : List Piece) : Document :=
  .ofString (String.ofList (spellAll ps))

variable {ps : List Piece}

theorem source_document (ps : List Piece) : (document ps).source.toList = spellAll ps :=
  Document.source_ofString fun _ => isPlain_of_mem

end Piece

/-- The tree is a paragraph of one line, and what its elements enclose is what the outlines say. -/
def Node.IsLine (root : Node) (os : List Outline) : Prop :=
  ∃ content ns, root = .mk .root none [.mk (.paragraph false) (some ⟨0, 1⟩)
    [.mk (.inline content) (some ⟨0, 1⟩) ns]] ∧ Node.Outlined .textElement Node.IsText ns os

/-- **A line is read as the stack matches its tags.** -/
theorem Piece.answered_document {ps : List Piece} {c : Char} {w : List Char}
    (hw : spellAll ps = c :: w) (hbreak : '\n' ∉ c :: w) (hletter : c.isAlpha = true)
    (hesm : Block.Esm.isStatement (c :: w) = false)
    (hdeep : Tag.Within 19 (Item.tags (items 0 ps))) :
    Item.Answered (items 0 ps) (document ps).read Node.IsLine := by
  have hsrc : (document ps).source.toList = c :: w := (source_document ps).trans hw
  have hpadding : Text.isPadding c = false := by
    simpa using @Text.of_isAlpha (!Text.isPadding ·) (by decide +kernel) c hletter
  have hwhite (d : Char) (hd : d ∈ c :: w) : Text.isBlank d = Text.isPadding d := by
    simpa using @Text.of_isPlain (fun d => Text.isBlank d == Text.isPadding d)
      (by decide +kernel) d (isPlain_of_mem (hw ▸ hd))
  -- the running text has fewer pieces than the line, but the same items
  obtain ⟨ps', hitems, htrim⟩ := exists_trimEnd ps
  have hcontent : Text.trim Text.isPadding (c :: w) = spellAll ps' := by
    rw [Text.trim, List.dropWhile_cons_of_neg (by simp [hpadding]), ← hw, htrim]
  have hanchors := Anchor.ofText_line hsrc hbreak hpadding hwhite
  obtain ⟨next, hread⟩ := Block.readSource_line hsrc hbreak hletter hesm
  generalize hcs : String.ofList (Text.trim Text.isPadding (c :: w)) = content at hread
  rw [← String.toList_ofList (l := Text.trim Text.isPadding (c :: w)), hcs] at hcontent hanchors
  have hfill := @Document.answered_fill ps' content ⟨0, 1⟩ _ hcontent hanchors
    (by rwa [hitems]) []
  rw [hitems] at hfill
  rw [Document.read_line hread]
  refine hfill.andThen (f := (·.bind _)) (fun e => ⟨e, rfl⟩) ?_
  rintro e os ⟨es, rfl, htraces⟩
  obtain ⟨ns, hwalk, houtlined⟩ := htraces.exists_walk
  refine ⟨_, rfl, content, ns, ?_, houtlined⟩
  rw [Document.nodes_line hwalk, Option.getD_some]

/-- **The elements on a line of text nest as a stack matches its tags.**  A line of letters, spaces
and tags without attributes that starts with a letter, and with no module statement, is read if and
only if its tags are balanced; it is then a paragraph of text and elements, and the elements enclose
what the outline that the stack finds says.  The tags may nest as deep as elements are read. -/
theorem line_elements_match_tags (ps : List Piece) (hline : '\n' ∉ Piece.spellAll ps)
    (hletter : ∃ c ∈ (Piece.spellAll ps).head?, c.isAlpha = true)
    (hword : (Piece.spellAll ps).takeWhile Char.isAlpha ∉ ["import".toList, "export".toList])
    (hdeep : Tag.Within 19 (Item.tags (Piece.items 0 ps))) :
    (Tag.balanced (Item.tags (Piece.items 0 ps)) = true → ∃ os root,
      Item.match? (Piece.items 0 ps) = some os ∧ (Piece.document ps).read = .ok root ∧
      root.IsLine os) ∧
    (Tag.balanced (Item.tags (Piece.items 0 ps)) = false →
      ∃ e, (Piece.document ps).read = .error e) := by
  obtain ⟨c, hc, hletter⟩ := hletter
  obtain ⟨w, hw⟩ := List.head?_eq_some_iff.mp hc
  have hesm : Block.Esm.isStatement (c :: w) = false := by
    apply Bool.eq_false_iff.mpr
    intro h
    apply hword
    rw [hw]
    rcases Block.Esm.word_of_isStatement h with h | h <;> simp [h]
  exact (Piece.answered_document hw (hw ▸ hline) hletter hesm hdeep).of_balanced

/-- An element inside another one, and two elements that cross. -/
theorem line_elements_match_tags_nested : ∃ ps ps' : List Piece,
    Piece.spellAll ps = "a <A>b<B/></A>".toList ∧
    Piece.spellAll ps' = "a <A>b<B></A></B>".toList ∧
    (∃ root, (Piece.document ps).read = .ok root ∧
      root.IsLine [.element (some "A") ⟨2, 14⟩ [.element (some "B") ⟨6, 10⟩ []]]) ∧
    ∃ e, (Piece.document ps').read = .error e := by
  let a : Word := ⟨['A'], List.cons_ne_nil _ _, List.forall_mem_singleton.mpr rfl⟩
  let b : Word := ⟨['B'], List.cons_ne_nil _ _, List.forall_mem_singleton.mpr rfl⟩
  let start : List Piece := [.char 'a' (by decide), .char ' ' (by decide),
    .tag (.opening (some a)), .char 'b' (by decide)]
  let ps := start ++ [.tag (.single b), .tag (.closing (some a))]
  let ps' := start ++ [.tag (.opening (some b)), .tag (.closing (some a)),
    .tag (.closing (some b))]
  have hps := line_elements_match_tags ps (by decide) ⟨'a', by decide, by decide⟩ (by decide)
    (.of_length_le (by decide))
  have hps' := line_elements_match_tags ps' (by decide) ⟨'a', by decide, by decide⟩ (by decide)
    (.of_length_le (by decide))
  refine ⟨ps, ps', rfl, rfl, ?_, hps'.2 (by decide)⟩
  obtain ⟨os, root, hos, hroot, hline⟩ := hps.1 (by decide)
  have hmatch : Item.match? (Piece.items 0 ps) =
      some [.element (some "A") ⟨2, 14⟩ [.element (some "B") ⟨6, 10⟩ []]] := rfl
  cases hmatch.symm.trans hos
  exact ⟨root, hroot, hline⟩

end MdxProse
