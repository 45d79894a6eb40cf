import MdxProse.Proofs.AlikeElements
import MdxProse.Proofs.QuotedLines
import MdxProse.Proofs.Unplaced

/-!
# Quoted elements

A document that is one element may be quoted: the quoted document is one quote around an element of
the same name, with the same tree but for where its code stands, unless a tag minds the marks.  The
readers of blocks scan tags in the source, where a quote mark inside of a tag ends it.

* `Kind.bare`: the kind without the places of code, and without what an expression holds.
* `Document.fits_fill`: reading running text keeps the levels of blocks.
* `Block.Quoting.readSource_inQuote`: **the blocks of the quoted document.**
* `Document.read_inQuote`: **the tree of the quoted document.**
* `quoted_element_read`: the same for the element that is the document.
* `quoted_element_not_read`: where a tag runs over two lines, the quoted document is another one.
  `quoted_element_of_oneLine`: **where none does, the tags are kept.**
-/

namespace MdxProse

/-! ### What is kept -/

/-- The kind without the place of code, and without what an expression holds: where its lines are
marked, the marks stand in it. -/
def Kind.bare : Kind → Kind
  | .flowExpression _ _ => .flowExpression "" ⟨0, 0⟩
  | k => k.withSpan ⟨0, 0⟩

theorem Kind.forgets_bare : Forgets bare where
  type k := by cases k <;> rfl
  elementName? k := by cases k <;> rfl
  inline _ := rfl
  withSpan k s := by cases k <;> rfl
  again k := by cases k <;> rfl

theorem Kind.Alike.bare_eq {m : Carrying} {k k' : Kind} (h : k.Alike m k') : k'.bare = k.bare := by
  cases h <;> rfl

theorem Event.EachAlike.mapKinds_bare {m : Carrying} {es es' : List Event}
    (h : EachAlike m es es') : mapKindsEach Kind.bare es' = mapKindsEach Kind.bare es := by
  induction h with
  | nil => rfl
  | cons he _ ih =>
    rw [mapKindsEach, mapKindsEach, ih]
    cases he with
    | enter hk | leaf hk => rw [mapKinds, mapKinds, hk.bare_eq]
    | leave => rfl

/-! ### Running text -/

namespace Document

variable {lines : List (Nat × List Char)} {definitions : List Block.Definition}

theorem fill_spec {e e' : Event} (h : fill lines definitions e = .ok e') :
    e' = e ∨ ∃ k l inner inner', e = .leaf k l inner ∧ e' = .leaf k l inner' := by
  unfold fill at h
  split at h
  · obtain ⟨es, -, h⟩ := Except.bind_eq_ok.mp h
    cases h
    exact .inr ⟨_, _, _, _, rfl, rfl⟩
  · cases h
    exact .inl rfl

/-- **Reading running text keeps the levels of blocks.** -/
theorem fits_fill {es es' : List Event} {n : Nat}
    (h : es.mapM (fill lines definitions) = .ok es') : Event.Fits n es' ↔ Event.Fits n es := by
  induction es generalizing es' n with
  | nil =>
    cases h
    exact Iff.rfl
  | cons e es ih =>
    rw [List.mapM_cons, Except.bind_eq_ok] at h
    obtain ⟨e', he, h⟩ := h
    obtain ⟨es', hes, h⟩ := Except.bind_eq_ok.mp h
    cases h
    rcases fill_spec he with rfl | ⟨k, l, inner, inner', rfl, rfl⟩
    · cases e' with
      | enter k l => exact exists_congr fun m => and_congr_right fun _ => ih hes
      | leave t name => exact ih hes
      | leaf k l inner => exact and_congr_right fun _ => ih hes
    · exact and_congr_right fun _ => ih hes

theorem mem_of_mem_fill {es es' : List Event} {k : Kind} {l : Option LineRange}
    (h : es.mapM (fill lines definitions) = .ok es') (hk : Event.enter k l ∈ es') :
    Event.enter k l ∈ es := by
  induction es generalizing es' with
  | nil =>
    cases h
    exact hk
  | cons e es ih =>
    rw [List.mapM_cons, Except.bind_eq_ok] at h
    obtain ⟨e', he, h⟩ := h
    obtain ⟨es', hes, h⟩ := Except.bind_eq_ok.mp h
    cases h
    rcases List.mem_cons.mp hk with rfl | hk
    · rcases fill_spec he with rfl | ⟨_, _, _, _, -, hleaf⟩
      · exact List.mem_cons_self
      · cases hleaf
    · exact List.mem_cons_of_mem e (ih hes hk)

end Document

/-! ### The blocks of the quoted document -/

open Text

namespace Block.Quoting

variable {w : List Char} {ns : List Node}

theorem head?_ne_dash {c : Content}
    (hread : readBlocks (readBlock (read 19) (read 18)) (.ofSource w.toArray)
      (Region.ofSource w.toArray).height false true 0 = .ok c)
    (hwalk : Walk c.events ns) (helements : ∀ e ∈ ns, e.type = .flowElement) :
    w.head? ≠ some '-' := by
  intro hdash
  obtain ⟨v, rfl⟩ := List.head?_eq_some_iff.mp hdash
  have hw : ('-' :: v).toArray.toList = '-' :: v := rfl
  obtain ⟨u, hholds, hlt⟩ := Region.exists_first hw (by decide)
  -- neither an element nor a definition starts there
  have hskip := Region.skipEmpty_of_isEmpty_eq_false hholds.isEmpty
  obtain ⟨o, rest, ho, hevents⟩ := exists_block (hskip.symm ▸ hlt)
    (hskip.symm ▸ Region.indent_ofSource_le hlt) hread
  rw [hskip] at ho
  rcases readBlock_element_cases ho fun t => (hevents ▸ hwalk).eq_of_firstType? helements with
    ⟨shape, hshape, -⟩ | ⟨-, hdefinition⟩
  · rw [hholds.shape? (by decide)] at hshape
    cases hshape
  · rw [hholds.definition (by decide)] at hdefinition
    cases hdefinition

/-- **The blocks of the quoted document**: one quote around those of the document, but for where
code stands. -/
theorem readSource_inQuote {o : Outcome} {n : Nat} (htab : '\t' ∉ w) (hkeeps : KeepsTags w)
    (ho : readSource w.toArray = .ok o) (hwalk : Walk o.events ns)
    (helements : ∀ e ∈ ns, e.type = .flowElement) (hfits : Event.Fits n o.events)
    (hroom : n + 2 ≤ maxDepth) : ∃ es range next,
      readSource (inQuote w).toArray =
        .ok ⟨Event.around .blockquote (some range) es, o.definitions, next⟩ ∧
      Event.mapKindsEach Kind.bare es = Event.mapKindsEach Kind.bare o.events := by
  have hroom : n ≤ 18 := Nat.le_of_add_le_add_right hroom
  rw [readSource_blocks] at ho
  obtain ⟨c, hc, ho⟩ := Except.bind_eq_ok.mp ho
  cases ho
  have hdash := head?_ne_dash hc hwalk helements
  obtain ⟨r', hshows, hquote⟩ := exists_inside w
  have halike := inside_alike hshows htab hdash hkeeps
  have hends := endsAlike hshows htab hdash hkeeps
  have hheight : Region.height { r' with indent := 0, isTop := false } = (region w).height :=
    hshows.height
  -- the content of the quote
  have hready : (Region.ofSource w.toArray).Ready w.toArray (Region.ofSource w.toArray).height :=
    ⟨Region.sound_ofSource _, Nat.le_refl _, fun _ => ⟨rfl, rfl⟩⟩
  obtain ⟨c', hc', hcontent⟩ := halike.readElements (hheight ▸ hends) hready rfl
    (fun k hk => Region.indent_ofSource_le hk) (read_correct _ 19) (read_correct _ 18)
    (fun k hk => read_agrees _ (by omega) (by omega)) (read_keeps _ 18) (Nat.zero_le 0) hc hwalk
    helements hfits (read 17) false true
  have hc' : read 19 { r' with indent := 0, isTop := false } 0 (region w).height = .ok c' :=
    hheight ▸ hc'
  have hblock : readBlock (read 19) (read 18) (region w) 0 (region w).height =
      .ok ⟨Event.around .blockquote (some ⟨0, c'.next⟩) c'.events, c'.definitions, c'.next⟩ := by
    rw [hquote, hc']
    rfl
  -- nothing follows it
  have hpos : 0 < (region w).height := height w ▸ Nat.succ_pos _
  have hpast : (region w).height ≤ c'.next := hheight ▸ hcontent.next
  obtain ⟨blank, tight, hfirst⟩ := readSource_first hblock hpos (isQuoted hpos).isEmpty
    (Nat.lt_of_lt_of_le hpos hpast)
  have hpass := le_passEmpty (region w) (region w).height c'.next
  obtain ⟨next, hdone⟩ : ∃ next, readBlocks (readBlock (read 19) (read 18)) (region w)
      (region w).height blank tight (passEmpty (region w) (region w).height c'.next) =
        .ok ⟨⟨[], [], next⟩, tight⟩ := readBlocks_done (fun hlt => by omega) blank tight
  refine ⟨c'.events, ⟨0, c'.next⟩, next, ?_, hcontent.events.mapKinds_bare⟩
  rw [hfirst.trans (congrArg (Except.bind · _) hdone)]
  simp [Except.bind, hcontent.definitions]

end Block.Quoting

/-! ### The quoted document -/

section Read

variable {d d' : Document} {w : List Char} {e : Node}

/-- The blocks that a tree was made of have its kinds, and fit where the tree does. -/
theorem Document.exists_blocks {ns : List Node} (h : d.read = .ok (.mk .root none ns)) :
    ∃ o es ns', Block.readSource d.source = .ok o ∧
      o.events.mapM (fill (Anchor.lines d.source) o.definitions) = .ok es ∧ Walk es ns ∧
      Walk o.events ns' ∧ ns'.map Node.kind = ns.map Node.kind ∧
      Event.Fits (Node.levelsEach ns) o.events := by
  have hread := h
  rw [read, Except.bind_eq_ok] at hread
  obtain ⟨es, hes, -⟩ := hread
  obtain ⟨ns₁, hwalk, -⟩ := events_spec hes
  obtain ⟨-, -, rfl⟩ := Node.mk.inj (Except.ok.inj ((read_eq hes hwalk).symm.trans h))
  rw [events, Except.bind_eq_ok] at hes
  obtain ⟨o, ho, hfill⟩ := hes
  obtain ⟨hplain, ns', hblocks, -⟩ := Block.readSource_spec ho
  obtain ⟨ns₂, hfilled, hkinds, -⟩ := hblocks.fill hplain hfill
  obtain rfl := hfilled.unique hwalk
  refine ⟨o, es, ns', ho, hfill, hwalk, hblocks, hkinds.symm, ?_⟩
  refine (fits_fill hfill).mp (hwalk.fits (fun k l hk => ?_) ?_)
  · exact (hplain _ (mem_of_mem_fill hfill hk)).1
  · exact Node.levelsEach_le_iff.mp (Nat.le_refl _)

/-- **The tree of the quoted document** is a quote around the tree of the document, but for where
code stands, and what expressions hold. -/
theorem Document.read_inQuote (hd : d.source = w.toArray) (hd' : d'.source = (inQuote w).toArray)
    (htab : '\t' ∉ w) (hkeeps : KeepsTags w) (hread : d.read = .ok (.mk .root none [e]))
    (helement : e.type = .flowElement) (hlevels : e.levels + 2 ≤ maxDepth) : ∃ range,
      d'.read.map (Node.mapKinds Kind.bare) =
        .ok (Node.mapKinds Kind.bare (.mk .root none [.mk .blockquote (some range) [e]])) := by
  obtain ⟨o, es, ns, ho, hfill, hwalk, hblocks, hkinds, hfits⟩ := exists_blocks hread
  have helements : ∀ e' ∈ ns, e'.type = .flowElement := by
    intro e' he'
    have hkind := List.mem_map_of_mem (f := Node.kind) he'
    rw [hkinds, List.map_singleton, List.mem_singleton] at hkind
    rw [Node.type, hkind]
    exact helement
  have hdepth : Node.levelsEach [e] + 2 ≤ maxDepth := by
    rw [Node.levelsEach, Node.levelsEach, Nat.max_zero]
    exact hlevels
  rw [hd] at ho
  obtain ⟨es', range, next, hsource, hbare⟩ :=
    Block.Quoting.readSource_inQuote htab hkeeps ho hblocks helements hfits hdepth
  refine ⟨range, ?_⟩
  -- the running text is the same in both documents
  have haround : Event.mapKindsEach Kind.bare (Event.around .blockquote (some range) es') =
      Event.mapKindsEach Kind.bare (Event.around .blockquote (some range) o.events) := by
    rw [Event.mapKindsEach_around, Event.mapKindsEach_around, hbare]
  have hevents : d'.events.map (Event.mapKindsEach Kind.bare) =
      .ok (Event.mapKindsEach Kind.bare (Event.around .blockquote (some range) es)) := by
    have hsame := mapM_fill_mapKinds Kind.forgets_bare (Anchor.lines d'.source)
      (Anchor.lines d.source) o.definitions haround
    rw [Block.Traces.fill_single hfill] at hsame
    rw [events, hd', hsource]
    rw [hd'] at hsame
    exact hsame
  cases hes' : d'.events with
  | error err =>
    rw [hes'] at hevents
    cases hevents
  | ok es₁ =>
    rw [hes'] at hevents
    have hes₁ := Except.ok.inj hevents
    have htree : Node.ofEvents? (Event.around .blockquote (some range) es) =
        some [.mk .blockquote (some range) [e]] := hwalk.single.ofEvents?
    have hroot := Node.mapKinds_root Kind.forgets_bare es₁
    rw [hes₁, ← Node.mapKinds_root Kind.forgets_bare, htree, Option.getD_some] at hroot
    rw [read, hes']
    exact congrArg Except.ok hroot

end Read

/-- The kinds of the root and of quotes hold nothing that is forgotten. -/
theorem Kind.eq_of_bare_eq {k : Kind} (h : k.bare = .root ∨ k.bare = .blockquote) :
    k = k.bare := by
  cases k with
  | root => rfl
  | blockquote => rfl
  | _ => rcases h with h | h <;> cases h

theorem Node.exists_of_mapKinds_quote {root e : Node} {lines : Option LineRange}
    (h : root.mapKinds Kind.bare =
      mapKinds Kind.bare (.mk .root none [.mk .blockquote lines [e]])) :
    ∃ e', root = .mk .root none [.mk .blockquote lines [e']] ∧
      e'.mapKinds Kind.bare = e.mapKinds Kind.bare := by
  obtain ⟨k, l, cs⟩ := root
  simp only [mapKinds, mapKindsEach_eq_map, List.map_singleton, mk.injEq] at h
  obtain ⟨hk, rfl, hcs⟩ := h
  obtain ⟨⟨k', l', cs'⟩, rfl, hquote⟩ := List.map_eq_singleton_iff.mp hcs
  simp only [mapKinds, mapKindsEach_eq_map, mk.injEq] at hquote
  obtain ⟨hk', rfl, hcs'⟩ := hquote
  obtain ⟨e', rfl, he'⟩ := List.map_eq_singleton_iff.mp hcs'
  refine ⟨e', ?_, he'⟩
  rw [Kind.eq_of_bare_eq (.inl hk), hk, Kind.eq_of_bare_eq (.inr hk'), hk']
  rfl

theorem Node.eq_of_mapKinds_bare {e e' : Node}
    (h : e'.mapKinds Kind.bare = e.mapKinds Kind.bare) :
    e'.type = e.type ∧ e'.kind.elementName? = e.kind.elementName? ∧
      e'.children.map Node.type = e.children.map Node.type := by
  have htype (c : Node) : (c.mapKinds Kind.bare).type = c.type := by
    obtain ⟨k, l, cs⟩ := c
    exact Kind.forgets_bare.type k
  have hname (c : Node) : (c.mapKinds Kind.bare).kind.elementName? = c.kind.elementName? := by
    obtain ⟨k, l, cs⟩ := c
    exact Kind.forgets_bare.elementName? k
  have hchildren (c : Node) :
      (c.mapKinds Kind.bare).children.map Node.type = c.children.map Node.type := by
    obtain ⟨k, l, cs⟩ := c
    rw [mapKinds, children, children, mapKindsEach_eq_map, List.map_map]
    exact List.map_congr_left fun c _ => htype c
  exact ⟨by rw [← htype e', h, htype], by rw [← hname e', h, hname],
    by rw [← hchildren e', h, hchildren]⟩

section Quoted

variable {d d' : Document} {w : List Char} {e : Node}

theorem Document.source_inQuote (hbreak : '\r' ∉ w) :
    (ofString (String.ofList w)).source = (normalize w).toArray ∧
      (ofString (String.ofList (inQuote w))).source = (inQuote (normalize w)).toArray := by
  have hnormal : normalize w = replaceNul w := congrArg replaceNul (unifyBreaks_eq hbreak)
  have hquoted := source_replaceNul (notMem_inQuote (c := '\r') (by decide) hbreak)
  rw [inQuote, replaceNul_markLines (by decide)] at hquoted
  rw [hnormal]
  exact ⟨source_replaceNul hbreak, hquoted⟩

theorem Text.notMem_normalize (htab : '\t' ∉ w) (hbreak : '\r' ∉ w) : '\t' ∉ normalize w := by
  rw [normalize, unifyBreaks_eq hbreak]
  exact notMem_replaceNul (by decide) htab

theorem Document.exists_read_inQuote (hd : d.source = w.toArray)
    (hd' : d'.source = (inQuote w).toArray) (htab : '\t' ∉ w) (hkeeps : KeepsTags w)
    (hread : d.read = .ok (.mk .root none [e])) (helement : e.type = .flowElement)
    (hlevels : e.levels + 2 ≤ maxDepth) : ∃ lines e',
      d'.read = .ok (.mk .root none [.mk .blockquote lines [e']]) ∧
      e'.type = .flowElement ∧ e'.kind.elementName? = e.kind.elementName? ∧
      e'.children.map Node.type = e.children.map Node.type := by
  obtain ⟨range, hall⟩ := read_inQuote hd hd' htab hkeeps hread helement hlevels
  cases hquoted : d'.read with
  | error err =>
    rw [hquoted] at hall
    cases hall
  | ok root =>
    rw [hquoted] at hall
    obtain ⟨e', rfl, he'⟩ := Node.exists_of_mapKinds_quote (Except.ok.inj hall)
    obtain ⟨htype, hname, hchildren⟩ := Node.eq_of_mapKinds_bare he'
    exact ⟨some range, e', rfl, htype.trans helement, hname, hchildren⟩

end Quoted

/-- **Quoting an element.**  If a document without tabs and carriage returns is one element, at most
eighteen levels of blocks deep, and the quote marks keep its tags, then the quoted document is one
quote, and this holds one element of the same name with children of the same types. -/
theorem quoted_element_read (w : List Char) {e : Node} (htab : '\t' ∉ w) (hbreak : '\r' ∉ w)
    (hread : (Document.ofString (String.ofList w)).read = .ok (.mk .root none [e]))
    (helement : e.type = .flowElement) (hlevels : e.levels + 2 ≤ maxDepth)
    (hkeeps : KeepsTags (normalize w)) : ∃ lines e',
      (Document.ofString (String.ofList (inQuote w))).read =
        .ok (.mk .root none [.mk .blockquote lines [e']]) ∧
      e'.type = .flowElement ∧ e'.kind.elementName? = e.kind.elementName? ∧
      e'.children.map Node.type = e.children.map Node.type := by
  obtain ⟨hsource, hsource'⟩ := Document.source_inQuote hbreak
  exact Document.exists_read_inQuote hsource hsource' (notMem_normalize htab hbreak) hkeeps hread
    helement hlevels

/-- The element that the document is, if it is one. -/
def Document.element? (d : Document) : Option Node :=
  match d.read with
  | .ok (.mk .root none [e]) => if e.type = .flowElement then some e else none
  | _ => none

theorem Document.read_of_element? {d : Document} {e : Node} (h : d.element? = some e) :
    d.read = .ok (.mk .root none [e]) ∧ e.type = .flowElement := by
  rw [element?] at h
  split at h
  · next e' hread =>
    rw [Option.ite_none_right_eq_some] at h
    obtain ⟨htype, he⟩ := h
    cases he
    exact ⟨hread, htype⟩
  · cases h

/-- An element around a list, a quote and an expression, of which the opening tag and the expression
run over two lines. -/
theorem quoted_element_read_lines : ∃ (w : List Char) (e : Node),
    inQuote w = "> <N a=\"x\n> y\">\n> - i\n> \n> > q\n> \n> \x7b1 +\n> 2\x7d\n> </N>".toList ∧
    '\t' ∉ w ∧ '\r' ∉ w ∧
    (Document.ofString (String.ofList w)).read = .ok (.mk .root none [e]) ∧
    e.type = .flowElement ∧ e.levels + 2 ≤ maxDepth ∧ KeepsTags (normalize w) ∧
    ∃ lines e', (Document.ofString (String.ofList (inQuote w))).read =
        .ok (.mk .root none [.mk .blockquote lines [e']]) ∧
      e'.type = .flowElement ∧ e'.kind.elementName? = e.kind.elementName? ∧
      e'.children.map Node.type = e.children.map Node.type := by
  let w : List Char := "<N a=\"x\ny\">\n- i\n\n> q\n\n\x7b1 +\n2\x7d\n</N>".toList
  have hsome : ((Document.ofString (String.ofList w)).element?.any fun e =>
    decide (e.levels + 2 ≤ maxDepth)) = true := by decide +kernel
  obtain ⟨e, he, hlevels⟩ := (Option.any_eq_true _ _).mp hsome
  obtain ⟨hread, helement⟩ := Document.read_of_element? he
  have hlevels := of_decide_eq_true hlevels
  have htab : '\t' ∉ w := by decide +kernel
  have hbreak : '\r' ∉ w := by decide +kernel
  have hkeeps : KeepsTags (normalize w) := keepsTags_of_forall (by decide +kernel)
  exact ⟨w, e, by decide +kernel, htab, hbreak, hread, helement, hlevels, hkeeps,
    quoted_element_read w htab hbreak hread helement hlevels hkeeps⟩

/-- **A tag that runs over two lines is lost**: the quote mark ends it, so that the quoted document
holds a paragraph. -/
theorem quoted_element_not_read : ∃ (w : List Char) (e : Node), w = "<N\n/>".toList ∧
    (Document.ofString (String.ofList w)).read = .ok (.mk .root none [e]) ∧
    e.type = .flowElement ∧ e.levels ≤ 10 ∧
    inQuote w = "> <N\n> />".toList ∧
    ¬ ∃ lines e', (Document.ofString (String.ofList (inQuote w))).read =
        .ok (.mk .root none [.mk .blockquote lines [e']]) ∧ e'.type = .flowElement := by
  let w : List Char := "<N\n/>".toList
  have hsome : ((Document.ofString (String.ofList w)).element?.any fun e =>
    decide (e.levels ≤ 10)) = true := by decide +kernel
  obtain ⟨e, he, hlevels⟩ := (Option.any_eq_true _ _).mp hsome
  obtain ⟨hread, helement⟩ := Document.read_of_element? he
  refine ⟨w, e, rfl, hread, helement, of_decide_eq_true hlevels, by decide +kernel, ?_⟩
  rintro ⟨lines, e', hquoted, htype⟩
  have hparagraph : (Document.ofString (String.ofList (inQuote w))).kind? [0, 0] =
      some (.paragraph false) := by decide +kernel
  have hkind : (Document.ofString (String.ofList (inQuote w))).kind? [0, 0] = some e'.kind :=
    Document.kind?_eq hquoted _
  rw [hparagraph, Option.some.injEq] at hkind
  rw [Node.type, ← hkind] at htype
  cases htype

/-- **Quoting an element with tags of one line.**  Where each angle bracket that may start a block
starts a tag, and this ends on the same line, the marks keep the tags. -/
theorem quoted_element_of_oneLine (w : List Char) {e : Node} (htab : '\t' ∉ w) (hbreak : '\r' ∉ w)
    (hread : (Document.ofString (String.ofList w)).read = .ok (.mk .root none [e]))
    (helement : e.type = .flowElement) (hlevels : e.levels + 2 ≤ maxDepth)
    (hline : ∀ p, Source.TagStart (normalize w).toArray p →
      ∃ t, Tag.scan? (normalize w).toArray p (normalize w).length = some t ∧
        ∀ i, p ≤ i → i < t.span.stop → (normalize w)[i]? ≠ some '\n') : ∃ lines e',
      (Document.ofString (String.ofList (inQuote w))).read =
        .ok (.mk .root none [.mk .blockquote lines [e']]) ∧
      e'.type = .flowElement ∧ e'.kind.elementName? = e.kind.elementName? ∧
      e'.children.map Node.type = e.children.map Node.type := by
  obtain ⟨hsource, hsource'⟩ := Document.source_inQuote hbreak
  exact Document.exists_read_inQuote hsource hsource' (notMem_normalize htab hbreak)
    (keepsTags_of_oneLine hline) hread helement hlevels

end MdxProse
