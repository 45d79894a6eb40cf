import MdxProse.Proofs.Blocks
import MdxProse.Proofs.TextCode
import MdxProse.Reading

/-!
# The tree of a document

Reading the running text of a document puts nodes inside its running text and leaves the blocks as
they were.

* `Node.Proper`: what is known of every node of a document.  `Node.Proper.running_of_isTextCode`:
  code inside a text is below one piece of running text.
* `Walk.fill`: **reading the running text keeps the layout of block code.**
* `Document.events_spec`, `Document.read_spec`: the layout of a document, and what is known of its
  nodes.
-/

namespace MdxProse

variable {src : Source} {es es' : List Event} {ns : List Node}

/-! ### Code placed in the document -/

/-- The kind of node is one of the running text `src`, with its span in the document. -/
def Kind.IsPlaced (src : Source) (anchors : List Anchor) (k : Kind) : Prop :=
  ∃ k₀ : Kind, k₀.IsInline src ∧ k = Anchor.placeKind anchors k₀

namespace Anchor

theorem key_placeKind (anchors : List Anchor) (k : Kind) : (placeKind anchors k).key = k.key := by
  cases k <;> rfl

theorem layer_placeKind (anchors : List Anchor) (k : Kind) :
    (placeKind anchors k).layer = k.layer := by
  cases k <;> rfl

theorem isImage_placeKind (anchors : List Anchor) (k : Kind) :
    (placeKind anchors k).isImage = k.isImage := by
  cases k <;> rfl

theorem holdsNodes_placeKind (anchors : List Anchor) (k : Kind) :
    (placeKind anchors k).holdsNodes = k.holdsNodes := by
  cases k <;> rfl

theorem isTextCode_placeKind (anchors : List Anchor) (k : Kind) :
    (placeKind anchors k).isTextCode = k.isTextCode := by
  cases k <;> rfl

theorem settle?_place (anchors : List Anchor) (es : List Event)
    (open_ : List (NodeType × Option String)) :
    Event.settle? (es.map (place anchors)) open_ = Event.settle? es open_ := by
  induction es generalizing open_ with
  | nil => rfl
  | cons e es ih =>
    cases e with
    | enter k l =>
      show Event.settle? _ ((placeKind anchors k).key :: open_) = _
      rw [key_placeKind]
      exact ih _
    | leaf k l i => exact ih _
    | leave t n =>
      cases open_ with
      | nil => rfl
      | cons o open_ =>
        show Event.settle? (.leave t n :: es.map (place anchors)) (o :: open_) = _
        rw [Event.settle?, Event.settle?]
        split
        · exact ih _
        · rfl

theorem layer_place {anchors : List Anchor} {e : Event} (h : e.IsInline src) :
    (place anchors e).Each (fun _ => false) fun k => k.layer = .text := by
  have hlayer := h.layer
  cases e with
  | enter k l => exact (layer_placeKind anchors k).trans hlayer
  | leave t n => trivial
  | leaf k l i => exact ⟨(layer_placeKind anchors k).trans hlayer.1, hlayer.2⟩

theorem isPlaced_place {anchors : List Anchor} {e : Event} (h : e.IsInline src) :
    (place anchors e).Each Kind.isImage (Kind.IsPlaced src anchors) := by
  cases e with
  | enter k l => exact ⟨k, h.code k rfl, rfl⟩
  | leave t n => trivial
  | leaf k l i =>
    refine ⟨⟨k, h.code k rfl, rfl⟩, fun hi => ?_⟩
    rw [isImage_placeKind] at hi
    rw [(h.inner k l i rfl).2 hi]
    trivial

end Anchor

/-- Only nodes of a kind that holds others have nodes below them, and so has every node below,
except inside images. -/
inductive Node.Fits : Node → Prop
  | mk {k : Kind} {l : Option LineRange} {cs : List Node} : cs = [] ∨ k.holdsNodes = true →
      (k.isImage = false → ∀ c ∈ cs, Fits c) → Fits (.mk k l cs)

/-- A node that is passed fits if only an image has something inside. -/
theorem Node.Fits.of_passed {k : Kind} {l : Option LineRange} {inner : List Event}
    {cs : List Node} (hcs : Node.ofEvents? inner = some cs)
    (hinner : k.isImage = false → inner = []) : (Node.mk k l cs).Fits := by
  cases hk : k.isImage with
  | true =>
    refine .mk (.inr ?_) fun h => absurd hk (by simp [h])
    cases k <;> first | rfl | cases hk
  | false =>
    rw [hinner hk, Node.ofEvents?, Node.build?] at hcs
    cases hcs
    exact .mk (.inl rfl) fun _ c hc => absurd hc List.not_mem_nil

/-- The nodes are those of the running text `src`, with their spans in the document. -/
structure Node.ArePlaced (src : Source) (anchors : List Anchor) (ns : List Node) : Prop where
  layer : ∀ n ∈ ns, n.Each (fun _ => false) fun k => k.layer = .text
  code : ∀ n ∈ ns, n.Each Kind.isImage (Kind.IsPlaced src anchors)
  fits : ∀ n ∈ ns, n.Fits

/-- **What is reported of a running text is still a walk when it is placed in the document.** -/
theorem Inline.Reads.placed (h : Inline.Reads src es) (anchors : List Anchor) :
    ∃ cs, Node.ofEvents? (es.map (Anchor.place anchors)) = some cs ∧
      Node.ArePlaced src anchors cs := by
  have hinner : ∀ k l i, Event.leaf k l i ∈ es.map (Anchor.place anchors) →
      (Node.ofEvents? i).isSome := by
    intro k l i hm
    obtain ⟨e, he, heq⟩ := List.mem_map.mp hm
    cases e with
    | enter k' l' => cases heq
    | leave t n => cases heq
    | leaf k' l' i' =>
      cases heq
      exact ((h.each _ he).inner k' l i rfl).1
  obtain ⟨cs, hcs⟩ := Node.ofEvents?_of_settle? hinner (by
    rw [Anchor.settle?_place, h.neutral])
  refine ⟨cs, hcs, Event.EachOf.of_ofEvents? hcs (Event.eachOf_iff.mpr fun e he => ?_),
    Event.EachOf.of_ofEvents? hcs (Event.eachOf_iff.mpr fun e he => ?_),
    Node.forall_of_ofEvents? hcs (fun k l cs hm hcs => .mk (.inr ?_) fun _ => hcs)
      fun k l inner cs hm hcs => ?_⟩
  · obtain ⟨e', he', rfl⟩ := List.mem_map.mp he
    exact Anchor.layer_place (h.each e' he')
  · obtain ⟨e', he', rfl⟩ := List.mem_map.mp he
    exact Anchor.isPlaced_place (h.each e' he')
  · obtain ⟨e, he, heq⟩ := List.mem_map.mp hm
    cases e with
    | enter k' l' =>
      cases heq
      rw [Anchor.holdsNodes_placeKind]
      exact (h.each _ he).holds k' l rfl
    | leave t n => cases heq
    | leaf k' l' i => cases heq
  · obtain ⟨e, he, heq⟩ := List.mem_map.mp hm
    cases e with
    | enter k' l' => cases heq
    | leave t n => cases heq
    | leaf k' l' i =>
      cases heq
      have hinner := ((h.each _ he).inner k' l inner rfl).2
      rw [← Anchor.isImage_placeKind anchors] at hinner
      exact Node.Fits.of_passed hcs hinner

/-! ### The nodes of a document -/

/-- **What is known of every node of a document**: a block holds blocks and running text, which is
made of rows of the document and holds what was read of it. -/
inductive Node.Proper (src : Source) : Node → Prop
  | running {content : String} {range : LineRange} {cs : List Node} :
      Running src content.toList range.first →
      Node.ArePlaced (Source.ofString content)
        (Anchor.ofText (Anchor.lines src) content.toList range.first) cs →
      Proper src (.mk (.inline content) (some range) cs)
  | block {k : Kind} {l : Option LineRange} {cs : List Node} : k.layer = .block →
      cs = [] ∨ k.holdsNodes = true → (∀ c ∈ cs, Proper src c) → Proper src (.mk k l cs)

theorem Kind.layer_of_isTextCode {k : Kind} (h : k.isTextCode = true) : k.layer = .text := by
  cases k <;> first | rfl | cases h

namespace Node

/-- The root holds no code itself, so the path to a piece of block code starts with a block. -/
theorem among?_of_isBlockCode {ns : List Node} {n : Node} {p : List Nat}
    (hn : (mk .root none ns).at? p = some n) (hb : n.kind.isBlockCode = true) :
    among? ns p = some n := by
  cases p with
  | nil =>
    cases hn
    cases hb
  | cons i p => exact hn

theorem at?_child {n c : Node} {i : Nat} (hc : n.children[i]? = some c) (q : List Nat) :
    n.at? (i :: q) = c.at? q := by
  rw [at?, hc]
  rfl

/-- What holds of every kind of node from a node down holds of that at the end of a path, unless a
barred node stands before it. -/
theorem Each.at? {barred : Kind → Bool} {P : Kind → Prop} {n m : Node} {p : List Nat}
    (h : n.Each barred P) (hm : n.at? p = some m)
    (hno : ∀ q a, q <+: p → n.at? q = some a → q ≠ p → barred a.kind = false) : P m.kind := by
  induction p generalizing n with
  | nil =>
    cases hm
    cases h with
    | mk hk _ => exact hk
  | cons i p ih =>
    obtain ⟨c, hc, hm'⟩ := Option.bind_eq_some_iff.mp hm
    cases h with
    | mk hk hcs =>
      have hb := hno [] _ List.nil_prefix rfl nofun
      refine ih (hcs hb c (List.mem_of_getElem? hc)) hm' fun q a hq ha hne => ?_
      refine hno (i :: q) a ((List.prefix_cons_inj i).mpr hq) ?_ (by simpa using hne)
      rwa [at?_child hc]

theorem Proper.running_of_inline {n : Node} {p : List Nat} {content : String} {range : LineRange}
    {cs : List Node} (h : n.Proper src)
    (hm : n.at? p = some (.mk (.inline content) (some range) cs)) :
    Running src content.toList range.first := by
  induction p generalizing n with
  | nil =>
    cases hm
    cases h with
    | running hrun _ => exact hrun
    | block hk _ _ => cases hk
  | cons i p ih =>
    obtain ⟨c, hc, hm'⟩ := Option.bind_eq_some_iff.mp hm
    cases h with
    | running _ hplaced =>
      have hlayer := (hplaced.layer c (List.mem_of_getElem? hc)).at? hm' fun _ _ _ _ _ => rfl
      cases hlayer
    | block _ _ hcs => exact ih (hcs c (List.mem_of_getElem? hc)) hm'

/-- **Code inside a text is below one piece of running text**, and is what was read there. -/
theorem Proper.running_of_isTextCode {n m : Node} {p : List Nat} (h : n.Proper src)
    (hm : n.at? p = some m) (hcode : m.kind.isTextCode = true)
    (hno : ∀ q a, q <+: p → n.at? q = some a → a.kind.isImage = false) :
    ∃ q content range cs, q <+: p ∧ n.at? q = some (.mk (.inline content) (some range) cs) ∧
      Running src content.toList range.first ∧
      m.kind.IsPlaced (Source.ofString content)
        (Anchor.ofText (Anchor.lines src) content.toList range.first) := by
  induction p generalizing n with
  | nil =>
    cases hm
    cases h with
    | running _ _ => cases hcode
    | block hk _ _ =>
      have := hk.symm.trans (Kind.layer_of_isTextCode hcode)
      cases this
  | cons i p ih =>
    obtain ⟨c, hc, hm'⟩ := Option.bind_eq_some_iff.mp hm
    cases h with
    | @running content range cs hrun hcs =>
      refine ⟨[], content, range, cs, List.nil_prefix, rfl, hrun, ?_⟩
      refine (hcs.code c (List.mem_of_getElem? hc)).at? hm' fun q a hq ha _ => ?_
      refine hno (i :: q) a ((List.prefix_cons_inj i).mpr hq) ?_
      rwa [at?_child hc]
    | @block k l cs hk _ hcs =>
      have hno' : ∀ q a, q <+: p → c.at? q = some a → a.kind.isImage = false := by
        intro q a hq ha
        refine hno (i :: q) a ((List.prefix_cons_inj i).mpr hq) ?_
        rwa [at?_child hc]
      obtain ⟨q, content, range, cs', hq, hin, hrest⟩ :=
        ih (hcs c (List.mem_of_getElem? hc)) hm' hno'
      refine ⟨i :: q, content, range, cs', (List.prefix_cons_inj i).mpr hq, ?_, hrest⟩
      rwa [at?_child hc]

end Node

/-- **In a document, only nodes of a kind that holds others have nodes below them.** -/
theorem Node.Proper.fits {n : Node} (h : n.Proper src) : n.Fits := by
  induction h with
  | running _ hcs => exact .mk (.inr rfl) fun _ => hcs.fits
  | block _ hholds _ ih => exact .mk hholds fun _ => ih

/-! ### Reading the running text of blocks -/

theorem Document.exists_of_fill {definitions : List Block.Definition} {content : String}
    {range : LineRange} {e : Event}
    (h : fill (Anchor.lines src) definitions (.running content range) = .ok e) :
    ∃ es cs, e = .leaf (.inline content) (some range) es ∧ Node.ofEvents? es = some cs ∧
      Node.ArePlaced (Source.ofString content)
        (Anchor.ofText (Anchor.lines src) content.toList range.first) cs := by
  rw [Event.running, fill, Except.bind_eq_ok] at h
  obtain ⟨ts, hts, h⟩ := h
  cases h
  obtain ⟨cs, hcs, hplaced⟩ := (Inline.events_reads hts).joinEscapes.placed
    (Anchor.ofText (Anchor.lines src) content.toList range.first)
  exact ⟨_, cs, rfl, hcs, hplaced⟩

/-- **Reading the running text keeps the kinds of the blocks**, and the layout of block code. -/
theorem Walk.fill {definitions : List Block.Definition} (h : Walk es ns)
    (hplain : ∀ e ∈ es, Block.IsPlain src e)
    (hfill : es.mapM (Document.fill (Anchor.lines src) definitions) = .ok es') :
    ∃ ns', Walk es' ns' ∧ ns'.map Node.kind = ns.map Node.kind ∧ (∀ n ∈ ns', n.Proper src) ∧
      ∀ top lo hi, Laid src top lo hi ns → Laid src top lo hi ns' := by
  induction h generalizing es' with
  | nil =>
    cases hfill
    exact ⟨[], .nil, rfl, nofun, fun _ _ _ h => h⟩
  | @leaf k l inner es cs ns hi _ ih =>
    rw [List.mapM_cons, Except.bind_eq_ok] at hfill
    obtain ⟨e', he', hfill⟩ := hfill
    rw [Except.bind_eq_ok] at hfill
    obtain ⟨es', hes', hfill⟩ := hfill
    cases hfill
    obtain ⟨hp, hplain⟩ := List.forall_mem_cons.mp hplain
    obtain ⟨ns', hwalk, hkinds, hproper, hlaid⟩ := ih hplain hes'
    by_cases hk : k.layer = .block
    · obtain ⟨hinner, he⟩ : inner = [] ∧ .leaf k l inner = e' := by
        cases k <;> first | exact ⟨hp.1, Except.ok.inj he'⟩ | cases hk
      subst he hinner
      rw [Node.ofEvents?, Node.build?] at hi
      cases hi
      refine ⟨.mk k l [] :: ns', .leaf ?_ hwalk, congrArg (k :: ·) hkinds, List.forall_mem_cons.mpr
        ⟨.block hk (.inl rfl) nofun, hproper⟩, fun top lo hi h => ?_⟩
      · rw [Node.ofEvents?, Node.build?]
        rfl
      · exact h.replace (fun _ => rfl) (fun _ _ h => h) fun lo hi => hlaid top lo hi
    · obtain ⟨content, rfl⟩ : ∃ content, k = .inline content := by
        cases k <;> first | exact ⟨_, rfl⟩ | exact absurd hp.2 hk
      obtain ⟨rfl, range, rfl, hrun⟩ := hp
      obtain ⟨ts, cs', rfl, hcs', hplaced⟩ := Document.exists_of_fill he'
      refine ⟨.mk (.inline content) (some range) cs' :: ns', .leaf hcs' hwalk,
        congrArg (Kind.inline content :: ·) hkinds,
        List.forall_mem_cons.mpr ⟨.running hrun hplaced, hproper⟩, fun top lo hi h => ?_⟩
      cases h with
      | other _ hcs hns =>
        refine .other rfl (.of_each hcs.le fun c hc => ?_) (hlaid top _ _ hns)
        exact (hplaced.layer c hc).imp fun _ => Kind.isBlockCode_of_layer
  | @around k l inside es cs ns _ _ ihi ih =>
    simp only [Event.around, List.cons_append, List.append_assoc, List.nil_append, List.mapM_cons,
      List.mapM_append, Except.bind_eq_ok] at hfill
    obtain ⟨_, he, _, ⟨inside', hinside, _, ⟨_, he', _, hes, hfill₁⟩, hfill₂⟩, hfill⟩ := hfill
    cases he
    cases he'
    cases hfill₁
    cases hfill₂
    cases hfill
    simp only [Event.around, List.forall_mem_cons, List.forall_mem_append, List.append_assoc,
      List.cons_append] at hplain
    obtain ⟨⟨hk, hholds⟩, hpi, -, -, hp⟩ := hplain
    obtain ⟨cs', hwalk, hkinds, hproper, hlaid⟩ := ihi hpi hinside
    obtain ⟨ns', hwalk', hkinds', hproper', hlaid'⟩ := ih hp hes
    refine ⟨.mk k l cs' :: ns', ?_, congrArg (k :: ·) hkinds',
      List.forall_mem_cons.mpr ⟨.block hk (.inr hholds) hproper, hproper'⟩, fun top lo hi h => ?_⟩
    · have := hwalk.single (k := k) (l := l) |>.append hwalk'
      simpa [Event.around] using this
    · refine h.replace ?_ (hlaid false) (hlaid' top)
      rintro rfl
      exact List.map_eq_nil_iff.mp hkinds

/-- **The events of a document walk through nodes** of which the layout is known. -/
theorem Document.events_spec {d : Document} {es : List Event} (h : d.events = .ok es) :
    ∃ ns, Walk es ns ∧ (∀ n ∈ ns, n.Proper d.source) ∧
      Laid d.source true 0 d.source.size ns := by
  rw [events, Except.bind_eq_ok] at h
  obtain ⟨o, ho, hes⟩ := h
  obtain ⟨hplain, ns, hwalk, hlaid⟩ := Block.readSource_spec ho
  obtain ⟨ns', hwalk', -, hproper, hlaid'⟩ := hwalk.fill hplain hes
  exact ⟨ns', hwalk', hproper, hlaid' _ _ _ hlaid⟩

theorem Document.read_eq {d : Document} {es : List Event} {ns : List Node} (h : d.events = .ok es)
    (hwalk : Walk es ns) : d.read = .ok (.mk .root none ns) := by
  rw [read, h]
  show Except.ok (Node.mk .root none ((Node.ofEvents? es).getD [])) = _
  rw [hwalk.ofEvents?, Option.getD_some]

/-- **The layout of a document**, and what is known of its nodes. -/
theorem Document.read_spec {d : Document} {root : Node} (h : d.read = .ok root) :
    root.Proper d.source ∧
      ∃ ns, root = .mk .root none ns ∧ Laid d.source true 0 d.source.size ns := by
  rw [read, Except.bind_eq_ok] at h
  obtain ⟨es, hes, hroot⟩ := h
  obtain ⟨ns, hwalk, hproper, hlaid⟩ := events_spec hes
  have hread := read_eq hes hwalk
  rw [read, hes] at hread
  cases hroot.symm.trans hread
  exact ⟨.block rfl (.inr rfl) hproper, ns, rfl, hlaid⟩

/-! ### Looking into a document -/

namespace Document

/-- The kind of the node at a path, if the document can be read. -/
def kind? (d : Document) (p : List Nat) : Option Kind :=
  (d.read.toOption.bind (·.at? p)).map (·.kind)

theorem kind?_eq {d : Document} {root : Node} (h : d.read = .ok root) (p : List Nat) :
    d.kind? p = (root.at? p).map (·.kind) := by
  rw [kind?, h]
  rfl

theorem exists_of_kind? {d : Document} {p : List Nat} {k : Kind} (h : d.kind? p = some k) :
    ∃ root n, d.read = .ok root ∧ root.at? p = some n ∧ n.kind = k := by
  cases hr : d.read with
  | error e =>
    rw [kind?, hr] at h
    cases h
  | ok root =>
    rw [kind?_eq hr, Option.map_eq_some_iff] at h
    obtain ⟨n, hn, hk⟩ := h
    exact ⟨root, n, rfl, hn, hk⟩

/-- Why the document cannot be read, if it cannot. -/
def error? (d : Document) : Option SyntaxError :=
  match d.read with
  | .error e => some e
  | .ok _ => none

theorem read_of_error? {d : Document} {e : SyntaxError} (h : d.error? = some e) :
    d.read = .error e := by
  rw [error?] at h
  cases hr : d.read with
  | error e' =>
    rw [hr] at h
    cases h
    rfl
  | ok root =>
    rw [hr] at h
    cases h

theorem isImage_of_kind? {d : Document} {root : Node} {p : List Nat} (h : d.read = .ok root)
    (hno : ∀ k < p.length + 1, (d.kind? (p.take k)).all (!·.isImage) = true) :
    ∀ q a, q <+: p → root.at? q = some a → a.kind.isImage = false := by
  intro q a hq ha
  have := hno q.length (Nat.lt_succ_of_le hq.length_le)
  rw [← List.prefix_iff_eq_take.mp hq, kind?_eq h, ha] at this
  simpa using this

end Document

end MdxProse
