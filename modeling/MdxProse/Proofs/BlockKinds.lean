import MdxProse.Proofs.Blocks

/-!
# The kinds of blocks

What starts on a line decides which reader reads its block, and the first node of the block tells
which one it was.

* `Event.firstType?`: the type of the node with which a stream starts.  `FrontMatter.firstType?` and
  so on: what each reader starts with.
* `Region.Opens`, `Region.opens`: **which block starts on a line, and which reader of content it is
  handed to**, if any.
* `Region.Quiet`: no block starts on the line but a text.  `Region.Quiet.readBlock`: what it is read
  as.
* `readBlock_cases`: **a block that may start with a paragraph is a definition or a paragraph.**
  `readBlock_element_cases`: so it is for elements.
-/

namespace MdxProse

/-- The type of the node with which a stream starts. -/
def Event.firstType? (es : List Event) : Option NodeType :=
  (es.head?.bind Event.kind?).map Kind.type

theorem Event.firstType?_append {es : List Event} {t : NodeType} (h : firstType? es = some t)
    (rest : List Event) : firstType? (es ++ rest) = some t := by
  cases es with
  | nil => cases h
  | cons e es => exact h

theorem Walk.firstType? {es : List Event} {ns : List Node} (h : Walk es ns) :
    Event.firstType? es = ns.head?.map Node.type := by
  cases h with
  | nil => rfl
  | leaf => rfl
  | around => rfl

/-- If all nodes have the same type, what is gone through first starts with it. -/
theorem Walk.eq_of_firstType? {es rest : List Event} {ns : List Node} {t t' : NodeType}
    (h : Walk (es ++ rest) ns) (hall : ∀ n ∈ ns, n.type = t)
    (hfirst : Event.firstType? es = some t') : t' = t := by
  have hhead := h.firstType?
  rw [Event.firstType?_append hfirst] at hhead
  obtain ⟨n, hn, rfl⟩ := Option.map_eq_some_iff.mp hhead.symm
  exact hall n (List.mem_of_mem_head? hn)

namespace Block

variable {r : Region} {i past : Nat} {o : Outcome} {one two : Reader}

/-! ### What readers start with -/

theorem FrontMatter.firstType? (h : FrontMatter.read? r i past = some o) :
    Event.firstType? o.events = some .frontMatter := by
  rw [FrontMatter.read?] at h
  split at h
  · dsimp only at h
    split at h
    · obtain ⟨⟨last, closed⟩, -, rfl⟩ := Option.map_eq_some_iff.mp h
      rfl
    · cases h
  · cases h

theorem MathBlock.firstType? (h : MathBlock.read? r i past = some o) :
    Event.firstType? o.events = some .mathBlock ∨
      Event.firstType? o.events = some .labelledMathBlock := by
  rw [MathBlock.read?] at h
  split at h
  · obtain ⟨⟨last, stop, labelled⟩, -, rfl⟩ := Option.map_eq_some_iff.mp h
    cases labelled with
    | false => exact .inl rfl
    | true => exact .inr rfl
  · cases h

theorem Esm.firstType? (h : Esm.read? r i past = some o) :
    Event.firstType? o.events = some .esm := by
  rw [Esm.read?] at h
  split at h
  · cases h
    rfl
  · cases h

theorem FlowExpression.firstType? (h : FlowExpression.read? r i past = some o) :
    Event.firstType? o.events = some .flowExpression := by
  obtain ⟨stop, -, rfl⟩ := Option.map_eq_some_iff.mp h
  rfl

theorem Fence.firstType? (h : Fence.read? r i past = some o) :
    Event.firstType? o.events = some .fence := by
  obtain ⟨⟨c, n⟩, -, rfl⟩ := Option.map_eq_some_iff.mp h
  rfl

theorem ThematicBreak.firstType? (h : ThematicBreak.read? r i = some o) :
    Event.firstType? o.events = some .thematicBreak := by
  rw [ThematicBreak.read?] at h
  split at h
  · cases h
    rfl
  · cases h

theorem Quote.firstType? (h : Quote.read one r i past = .ok o) :
    Event.firstType? o.events = some .blockquote := by
  obtain ⟨c, -, h⟩ := Except.bind_eq_ok.mp h
  cases h
  rfl

theorem Items.firstType? {m : Marker} (h : Items.read two r m i past = .ok o) :
    Event.firstType? o.events = some .bulletList ∨
      Event.firstType? o.events = some .orderedList := by
  obtain ⟨items, -, h⟩ := Except.bind_eq_ok.mp h
  cases h
  show some (Items.kind m).type = _ ∨ some (Items.kind m).type = _
  rw [Items.kind]
  split
  · exact .inr rfl
  · exact .inl rfl

theorem Element.firstType?_runEvents {ts : List Tag} (h : Tag.Matched ts) (hne : ts ≠ [])
    (lines : LineRange) : Event.firstType? (runEvents lines ts) = some .flowElement := by
  cases h with
  | nil => exact absurd rfl hne
  | single hform _ =>
    rw [runEvents, hform]
    rfl
  | pair hform _ _ _ _ =>
    rw [runEvents, hform]
    rfl

theorem Element.firstType? {shape : Element.Shape} (hshape : Element.shape? r i past = some shape)
    (h : Element.read one r i past shape = .ok o) :
    Event.firstType? o.events = some .flowElement := by
  cases shape with
  | stray t => cases h
  | open_ t lineStop =>
    rw [read] at h
    split at h
    · cases h
    · obtain ⟨children, -, hevents, -⟩ := readClosed_inv h
      rw [hevents]
      rfl
  | run ts lineStop =>
    obtain ⟨us, stop, hrun, hof⟩ := shape?_spec hshape
    obtain ⟨rfl, -, hmatched⟩ := ofRun?_run hof
    obtain ⟨⟨t, us, rfl, -⟩, -⟩ := Tag.run?_spec hrun
    cases h
    exact firstType?_runEvents hmatched (List.cons_ne_nil _ _) _

theorem Heading.firstType? (h : Heading.read? r i = some o) :
    Event.firstType? o.events = some .heading := by
  obtain ⟨n, -, rfl⟩ := Option.map_eq_some_iff.mp h
  rfl

theorem Underline.firstType? (h : Underline.read? r i past = some o) :
    Event.firstType? o.events = some .heading := by
  obtain ⟨⟨line, n⟩, -, rfl⟩ := Option.map_eq_some_iff.mp h
  rfl

theorem Definition.events_eq_nil (h : Definition.ofLine? r i = some o) : o.events = [] := by
  obtain ⟨found, -, rfl⟩ := Option.map_eq_some_iff.mp h
  rfl

/-! ### What starts on a line -/

/-- No block starts on the line but a text. -/
structure Region.Quiet (r : Region) (i past : Nat) : Prop where
  frontMatter : FrontMatter.read? r i past = none
  mathBlock : MathBlock.read? r i past = none
  esm : Esm.starts r i = false
  flowExpression : FlowExpression.stop? r i past = none
  element : Element.starts r i past = false
  fence : Fence.opening? r i = none
  quote : Quote.starts r i = false
  thematicBreak : ThematicBreak.starts r i = false
  marker : Marker.ofLine? r i = none

theorem Region.Quiet.readBlock (h : r.Quiet i past) (one two : Reader) :
    readBlock one two r i past = .ok ((Definition.ofLine? r i <|> Heading.read? r i <|>
      Underline.read? r i past).getD (Paragraph.read r i)) := by
  have helement : Element.shape? r i past = none := by
    have := h.element
    rwa [Element.starts, Option.isSome_eq_false_iff, Option.isNone_iff_eq_none] at this
  simp [Block.readBlock, h.frontMatter, h.mathBlock, Esm.read?, h.esm, FlowExpression.read?,
    h.flowExpression, helement, Fence.read?, h.fence, h.quote, ThematicBreak.read?,
    h.thematicBreak, h.marker]

/-- **Which block starts on the line**, and which reader its content is handed to. -/
inductive Region.Opens (r : Region) (i past : Nat) : Prop
  /-- A block of another kind, without content that is read as blocks. -/
  | leaf (o : Outcome) (t : NodeType) (first : Event.firstType? o.events = some t)
      (other : t ≠ .paragraph ∧ t ≠ .flowElement)
      (read : ∀ one two, readBlock one two r i past = .ok o)
  | element (shape : Element.Shape) (starts : Element.shape? r i past = some shape)
      (read : ∀ one two, readBlock one two r i past = Element.read one r i past shape)
  | quote (starts : Quote.starts r i = true)
      (read : ∀ one two, readBlock one two r i past = Quote.read one r i past)
  | list (m : Marker) (starts : Marker.ofLine? r i = some m)
      (read : ∀ one two, readBlock one two r i past = Items.read two r m i past)
  | text (quiet : r.Quiet i past)

/-- **On each line starts one of these blocks.** -/
theorem Region.opens (r : Region) (i past : Nat) : r.Opens i past := by
  cases hcode : (FrontMatter.read? r i past <|> MathBlock.read? r i past <|> Esm.read? r i past <|>
      FlowExpression.read? r i past) with
  | some o =>
    have hread : ∀ one two, readBlock one two r i past = .ok o := by
      intro one two
      rw [readBlock, hcode]
    simp only [Option.orElse_eq_orElse, Option.orElse_eq_or, Option.or_eq_some_iff] at hcode
    rcases hcode with ho | ⟨-, ho | ⟨-, ho | ⟨-, ho⟩⟩⟩
    · exact .leaf o _ (FrontMatter.firstType? ho) (by decide) hread
    · rcases MathBlock.firstType? ho with hfirst | hfirst
      · exact .leaf o _ hfirst (by decide) hread
      · exact .leaf o _ hfirst (by decide) hread
    · exact .leaf o _ (Esm.firstType? ho) (by decide) hread
    · exact .leaf o _ (FlowExpression.firstType? ho) (by decide) hread
  | none =>
  simp only [Option.orElse_eq_orElse, Option.orElse_eq_or, Option.or_eq_none_iff] at hcode
  obtain ⟨hfront, hmath, hesm, hexpression⟩ := hcode
  cases hshape : Element.shape? r i past with
  | some shape =>
    refine .element shape hshape ?_
    simp [readBlock, hfront, hmath, hesm, hexpression, hshape]
  | none =>
  cases hfence : Fence.read? r i past with
  | some o =>
    refine .leaf o _ (Fence.firstType? hfence) (by decide) ?_
    simp [readBlock, hfront, hmath, hesm, hexpression, hshape, hfence]
  | none =>
  by_cases hquote : Quote.starts r i = true
  · refine .quote hquote ?_
    simp [readBlock, hfront, hmath, hesm, hexpression, hshape, hfence, hquote]
  cases hbreak : ThematicBreak.read? r i with
  | some o =>
    refine .leaf o _ (ThematicBreak.firstType? hbreak) (by decide) ?_
    simp [readBlock, hfront, hmath, hesm, hexpression, hshape, hfence, hquote, hbreak]
  | none =>
  cases hmarker : Marker.ofLine? r i with
  | some m =>
    refine .list m hmarker ?_
    simp [readBlock, hfront, hmath, hesm, hexpression, hshape, hfence, hquote, hbreak, hmarker]
  | none =>
    -- none of the readers finds its block
    rw [Esm.read?, ite_eq_right_iff] at hesm
    rw [ThematicBreak.read?, ite_eq_right_iff] at hbreak
    refine .text ⟨hfront, hmath, ?_, Option.map_eq_none_iff.mp hexpression, ?_,
      Option.map_eq_none_iff.mp hfence, Bool.eq_false_iff.mpr hquote, ?_, hmarker⟩
    · exact Bool.eq_false_iff.mpr fun hs => Option.some_ne_none _ (hesm hs)
    · rw [Element.starts, hshape]
      rfl
    · exact Bool.eq_false_iff.mpr fun hs => Option.some_ne_none _ (hbreak hs)

/-! ### Texts -/

/-- The block is a definition or a paragraph, and nothing else could start on its line. -/
structure Region.OpensText (r : Region) (i past : Nat) (o : Outcome) : Prop where
  quiet : r.Quiet i past
  cases : Definition.ofLine? r i = some o ∨ Definition.ofLine? r i = none ∧
    Heading.read? r i = none ∧ Underline.read? r i past = none ∧ o = Paragraph.read r i

theorem text_cases (h : (Definition.ofLine? r i <|> Heading.read? r i <|>
      Underline.read? r i past).getD (Paragraph.read r i) = o) :
    Event.firstType? o.events = some .heading ∨ Definition.ofLine? r i = some o ∨
      Definition.ofLine? r i = none ∧ Heading.read? r i = none ∧
        Underline.read? r i past = none ∧ o = Paragraph.read r i := by
  cases hdefinition : Definition.ofLine? r i with
  | some o' =>
    rw [hdefinition] at h
    exact .inr (.inl (congrArg some h))
  | none =>
    cases hheading : Heading.read? r i with
    | some o' =>
      rw [hdefinition, hheading] at h
      exact .inl (h ▸ Heading.firstType? hheading)
    | none =>
      rw [hdefinition, hheading] at h
      cases hunderline : Underline.read? r i past with
      | some o' =>
        rw [hunderline] at h
        exact .inl (h ▸ Underline.firstType? hunderline)
      | none =>
        rw [hunderline] at h
        exact .inr (.inr ⟨rfl, rfl, rfl, h.symm⟩)

/-- **A block that may start with a paragraph is a definition or a paragraph.** -/
theorem readBlock_cases (h : readBlock one two r i past = .ok o) :
    (∃ t, Event.firstType? o.events = some t ∧ t ≠ .paragraph) ∨ r.OpensText i past o := by
  cases r.opens i past with
  | leaf o' t hfirst hother hread =>
    cases (hread one two).symm.trans h
    exact .inl ⟨t, hfirst, hother.1⟩
  | element shape hshape hread =>
    exact .inl ⟨_, Element.firstType? hshape ((hread one two).symm.trans h), by decide⟩
  | quote _ hread =>
    exact .inl ⟨_, Quote.firstType? ((hread one two).symm.trans h), by decide⟩
  | list m _ hread =>
    rcases Items.firstType? ((hread one two).symm.trans h) with hfirst | hfirst
    · exact .inl ⟨_, hfirst, by decide⟩
    · exact .inl ⟨_, hfirst, by decide⟩
  | text hquiet =>
    rcases text_cases (Except.ok.inj ((hquiet.readBlock one two).symm.trans h)) with hfirst | ho
    · exact .inl ⟨_, hfirst, by decide⟩
    · exact .inr ⟨hquiet, ho⟩

/-- **A block that may start with an element is an element or a definition.** -/
theorem readBlock_element_cases (h : readBlock one two r i past = .ok o)
    (hfirst : ∀ t, Event.firstType? o.events = some t → t = .flowElement) :
    (∃ shape, Element.shape? r i past = some shape ∧ Element.read one r i past shape = .ok o) ∨
      r.Quiet i past ∧ Definition.ofLine? r i = some o := by
  have hother {t : NodeType} (ht : Event.firstType? o.events = some t) (hne : t ≠ .flowElement) :
      False := hne (hfirst t ht)
  cases r.opens i past with
  | leaf o' t hleaf hne hread =>
    cases (hread one two).symm.trans h
    exact (hother hleaf hne.2).elim
  | element shape hshape hread => exact .inl ⟨shape, hshape, (hread one two).symm.trans h⟩
  | quote _ hread =>
    exact (hother (Quote.firstType? ((hread one two).symm.trans h)) (by decide)).elim
  | list m _ hread =>
    rcases Items.firstType? ((hread one two).symm.trans h) with hlist | hlist
    · exact (hother hlist (by decide)).elim
    · exact (hother hlist (by decide)).elim
  | text hquiet =>
    rcases text_cases (Except.ok.inj ((hquiet.readBlock one two).symm.trans h)) with
      hheading | hdefinition | ⟨-, -, -, rfl⟩
    · exact (hother hheading (by decide)).elim
    · exact .inr ⟨hquiet, hdefinition⟩
    · exact (hother (t := .paragraph) rfl (by decide)).elim

theorem Region.OpensText.lt_next (h : r.OpensText i past o) : i < o.next := by
  rcases h.cases with hdefinition | ⟨-, -, -, rfl⟩
  · obtain ⟨found, -, rfl⟩ := Option.map_eq_some_iff.mp hdefinition
    dsimp only
    omega
  · exact (Paragraph.stop_spec r (i + 1)).1

end Block

end MdxProse
