import MdxProse.Proofs.WrappedText

/-!
# Trees of which something is forgotten

Two documents may have the same tree but for where their embedded code stands, or for what it holds.

* `Kind.Forgets`: a map of kinds that keeps what trees are built by.  `Node.mapKinds`,
  `Event.mapKinds`: the node, and the event, with such a map applied all the way down.
* `Node.ofEvents?_mapKinds`: **what is forgotten does not matter for how a tree is built.**
* `Document.fill_mapKinds`: nor does it for reading running text.
* `Node.unplaced`: the node with all places forgotten.  `Document.read_unplaced`: **documents whose
  blocks are the same but for the places of code have the same tree**, but for these.
-/

namespace MdxProse

/-- What follows on two readings that have the same image has the same image, if it only depends on
that. -/
theorem Except.map_bind_congr {ε α β γ δ : Type} {x y : Except ε α} {f : α → γ} {g : β → δ}
    {k k' : α → Except ε β} (h : x.map f = y.map f)
    (hk : ∀ a b, f a = f b → (k a).map g = (k' b).map g) : (x >>= k).map g = (y >>= k').map g := by
  cases x with
  | error e =>
    cases y with
    | error e' =>
      cases h
      rfl
    | ok b => cases h
  | ok a =>
    cases y with
    | error e' => cases h
    | ok b => exact hk a b (Except.ok.inj h)

/-- The map forgets something about kinds of nodes, the places of code among it, but neither the
type of a node, nor its name, nor running text. -/
structure Kind.Forgets (f : Kind → Kind) : Prop where
  type : ∀ k, (f k).type = k.type
  elementName? : ∀ k, (f k).elementName? = k.elementName?
  inline : ∀ content, f (.inline content) = .inline content
  withSpan : ∀ k s, f (k.withSpan s) = f k
  /-- There is nothing left to forget. -/
  again : ∀ k, f (f k) = f k

section Forget

variable (f : Kind → Kind)

mutual
/-- The node, with the map applied to all kinds. -/
def Node.mapKinds : Node → Node
  | .mk k l cs => .mk (f k) l (mapKindsEach cs)
/-- The nodes, with the map applied to all kinds. -/
def Node.mapKindsEach : List Node → List Node
  | [] => []
  | c :: cs => c.mapKinds :: mapKindsEach cs
end

mutual
/-- The event, with the map applied to all kinds. -/
def Event.mapKinds : Event → Event
  | .enter k l => .enter (f k) l
  | .leave t n => .leave t n
  | .leaf k l inner => .leaf (f k) l (mapKindsEach inner)
/-- The events, with the map applied to all kinds. -/
def Event.mapKindsEach : List Event → List Event
  | [] => []
  | e :: es => e.mapKinds :: mapKindsEach es
end

/-- The node that has been entered, with the map applied to all kinds. -/
def OpenNode.mapKinds (o : OpenNode) : OpenNode :=
  ⟨f o.kind, o.lines, Node.mapKindsEach f o.before⟩

theorem Node.mapKindsEach_eq_map (cs : List Node) : mapKindsEach f cs = cs.map (mapKinds f) := by
  induction cs with
  | nil => rfl
  | cons c cs ih => rw [mapKindsEach, ih, List.map_cons]

theorem Event.mapKindsEach_eq_map (es : List Event) : mapKindsEach f es = es.map (mapKinds f) := by
  induction es with
  | nil => rfl
  | cons e es ih => rw [mapKindsEach, ih, List.map_cons]

theorem Node.mapKindsEach_reverse (cs : List Node) :
    mapKindsEach f cs.reverse = (mapKindsEach f cs).reverse := by
  rw [mapKindsEach_eq_map, mapKindsEach_eq_map, List.map_reverse]

theorem Event.mapKindsEach_around (k : Kind) (l : Option LineRange) (es : List Event) :
    mapKindsEach f (around k l es) = .enter (f k) l :: (mapKindsEach f es ++ [leaving k]) := by
  rw [mapKindsEach_eq_map, mapKindsEach_eq_map, around, List.map_append, List.map_cons]
  rfl

end Forget

variable {f : Kind → Kind}

mutual
theorem Event.mapKinds_mapKinds (hf : Kind.Forgets f) : (e : Event) →
    Event.mapKinds f (e.mapKinds f) = e.mapKinds f
  | .enter k l => by rw [Event.mapKinds, Event.mapKinds, hf.again]
  | .leave _ _ => rfl
  | .leaf k l inner => by
    rw [Event.mapKinds, Event.mapKinds, hf.again, Event.mapKindsEach_mapKindsEach hf inner]
theorem Event.mapKindsEach_mapKindsEach (hf : Kind.Forgets f) : (es : List Event) →
    Event.mapKindsEach f (Event.mapKindsEach f es) = Event.mapKindsEach f es
  | [] => rfl
  | e :: es => by
    rw [Event.mapKindsEach, Event.mapKindsEach, Event.mapKinds_mapKinds hf e,
      Event.mapKindsEach_mapKindsEach hf es]
end

/-! ### Building trees -/

mutual
theorem Event.inside?_mapKinds (hf : Kind.Forgets f) : (e : Event) →
    (e.mapKinds f).inside? = e.inside?.map (Node.mapKindsEach f)
  | .enter _ _ => rfl
  | .leave _ _ => rfl
  | .leaf _ _ inner => by
    rw [Event.mapKinds, Event.inside?, Event.inside?]
    exact Node.build?_mapKinds hf inner [] []
theorem Node.build?_mapKinds (hf : Kind.Forgets f) :
    (es : List Event) → (open_ : List OpenNode) → (done : List Node) →
    Node.build? (Event.mapKindsEach f es) (open_.map (OpenNode.mapKinds f))
        (Node.mapKindsEach f done) =
      (Node.build? es open_ done).map (Node.mapKindsEach f)
  | [], [], done => by
    rw [Event.mapKindsEach, List.map_nil, Node.build?, Node.build?, Option.map_some,
      Node.mapKindsEach_reverse]
  | [], _ :: _, done => rfl
  | .enter k l :: es, open_, done => by
    rw [Event.mapKindsEach, Event.mapKinds, Node.build?, Node.build?]
    exact Node.build?_mapKinds hf es (⟨k, l, done⟩ :: open_) []
  | .leave t n :: es, [], done => rfl
  | .leave t n :: es, o :: open_, done => by
    rw [Event.mapKindsEach, Event.mapKinds, List.map_cons, Node.build?, Node.build?,
      OpenNode.mapKinds, hf.type, hf.elementName?]
    split
    · rw [← Node.mapKindsEach_reverse]
      exact Node.build?_mapKinds hf es open_ (.mk o.kind o.lines done.reverse :: o.before)
    · rfl
  | .leaf k l inner :: es, open_, done => by
    have hinner := Event.inside?_mapKinds hf (.leaf k l inner)
    rw [Event.mapKinds] at hinner
    rw [Event.mapKindsEach, Event.mapKinds, Node.build?, Node.build?, hinner]
    cases (Event.leaf k l inner).inside? with
    | none => rfl
    | some cs => exact Node.build?_mapKinds hf es open_ (.mk k l cs :: done)
end

variable (hf : Kind.Forgets f)

include hf

/-- **What is forgotten does not matter for how a tree is built.** -/
theorem Node.ofEvents?_mapKinds (es : List Event) :
    ofEvents? (Event.mapKindsEach f es) = (ofEvents? es).map (mapKindsEach f) :=
  Node.build?_mapKinds hf es [] []

/-! ### Reading documents -/

theorem Anchor.mapKinds_place (anchors : List Anchor) (e : Event) :
    (place anchors e).mapKinds f = e.mapKinds f := by
  have hkind (k : Kind) : f (placeKind anchors k) = f k := by
    cases k with
    | textExpression c s => exact hf.withSpan (.textExpression c s) _
    | textElement n s => exact hf.withSpan (.textElement n s) _
    | _ => rfl
  cases e with
  | enter k l => rw [place, Event.mapKinds, Event.mapKinds, hkind]
  | leave t n => rfl
  | leaf k l inner => rw [place, Event.mapKinds, Event.mapKinds, hkind]

/-- **Running text is read the same on whatever lines it stands**, but for what is forgotten. -/
theorem Document.fill_mapKinds (lines lines' : List (Nat × List Char))
    (definitions : List Block.Definition) {e e' : Event} (h : e.mapKinds f = e'.mapKinds f) :
    (fill lines definitions e).map (Event.mapKinds f) =
      (fill lines' definitions e').map (Event.mapKinds f) := by
  suffices hself : ∀ lines e, (fill lines definitions e).map (Event.mapKinds f) =
      (fill lines' definitions (e.mapKinds f)).map (Event.mapKinds f) by
    rw [hself lines e, h, hself lines' e']
  intro lines e
  have hother (h : fill lines definitions e = .ok e)
      (h' : fill lines' definitions (e.mapKinds f) = .ok (e.mapKinds f)) :
      (fill lines definitions e).map (Event.mapKinds f) =
        (fill lines' definitions (e.mapKinds f)).map (Event.mapKinds f) := by
    rw [h, h', Except.map, Except.map, Event.mapKinds_mapKinds hf]
  -- only running text is read
  have hleaf {lines : List (Nat × List Char)} {k : Kind} {l : Option LineRange} {inner : List Event}
      (hk : k.type ≠ .inline) :
      fill lines definitions (.leaf k l inner) = .ok (.leaf k l inner) := by
    cases k with
    | inline content => exact absurd rfl hk
    | _ => rfl
  cases e with
  | enter k l => exact hother rfl rfl
  | leave t n => exact hother rfl rfl
  | leaf k l inner =>
    by_cases hk : k.type = .inline
    · obtain ⟨content, rfl⟩ : ∃ content, k = .inline content := by
        cases k with
        | inline content => exact ⟨content, rfl⟩
        | _ => cases hk
      cases l with
      | none =>
        refine hother rfl ?_
        rw [Event.mapKinds, hf.inline]
        rfl
      | some range =>
        rw [Event.mapKinds, hf.inline, fill, fill]
        cases Inline.events definitions (Source.ofString content) with
        | error e => rfl
        | ok es =>
          have hplace (anchors : List Anchor) :
              Event.mapKindsEach f ((Inline.joinEscapes es).map (Anchor.place anchors)) =
                Event.mapKindsEach f (Inline.joinEscapes es) := by
            rw [Event.mapKindsEach_eq_map, Event.mapKindsEach_eq_map, List.map_map]
            exact List.map_congr_left fun e _ => Anchor.mapKinds_place hf anchors e
          exact congrArg
            (fun inner => Except.ok (Event.leaf (f (.inline content)) (some range) inner))
            ((hplace _).trans (hplace _).symm)
    · exact hother (hleaf hk) (hleaf (by rwa [hf.type]))

theorem Document.mapM_fill_mapKinds (lines lines' : List (Nat × List Char))
    (definitions : List Block.Definition) {es es' : List Event}
    (h : Event.mapKindsEach f es = Event.mapKindsEach f es') :
    (es.mapM (fill lines definitions)).map (Event.mapKindsEach f) =
      (es'.mapM (fill lines' definitions)).map (Event.mapKindsEach f) := by
  induction es generalizing es' with
  | nil =>
    cases es' with
    | nil => rfl
    | cons => cases h
  | cons e es ih =>
    cases es' with
    | nil => cases h
    | cons e' es' =>
      obtain ⟨he, hes⟩ := List.cons.inj h
      rw [List.mapM_cons, List.mapM_cons]
      refine Except.map_bind_congr (fill_mapKinds hf lines lines' definitions he) fun x y hxy => ?_
      refine Except.map_bind_congr (ih hes) fun xs ys hxys => ?_
      show Except.ok (x.mapKinds f :: Event.mapKindsEach f xs) =
        .ok (y.mapKinds f :: Event.mapKindsEach f ys)
      rw [hxy, hxys]

theorem Node.mapKinds_root (es : List Event) :
    mapKinds f (.mk .root none ((ofEvents? es).getD [])) =
      .mk (f .root) none ((ofEvents? (Event.mapKindsEach f es)).getD []) := by
  rw [ofEvents?_mapKinds hf, mapKinds]
  cases ofEvents? es <;> rfl

omit hf

/-! ### Places -/

theorem Kind.forgets_withSpan : Forgets (withSpan ⟨0, 0⟩) where
  type k := by cases k <;> rfl
  elementName? k := by cases k <;> rfl
  inline _ := rfl
  withSpan k s := by cases k <;> rfl
  again k := by cases k <;> rfl

/-- The node without the places of embedded code. -/
def Node.unplaced : Node → Node :=
  mapKinds (Kind.withSpan ⟨0, 0⟩)

/-- The blocks of a document without the places of embedded code, and its definitions. -/
def Block.Outcome.unplaced (o : Outcome) : List Event × List Definition :=
  (Event.mapKindsEach (Kind.withSpan ⟨0, 0⟩) o.events, o.definitions)

/-- **Two documents whose blocks are the same but for where code stands have the same tree**, but
for where code stands, or fail with the same error. -/
theorem Document.read_unplaced {d d' : Document}
    (h : (Block.readSource d.source).map Block.Outcome.unplaced =
      (Block.readSource d'.source).map Block.Outcome.unplaced) :
    d.read.map Node.unplaced = d'.read.map Node.unplaced := by
  have hevents : d.events.map (Event.mapKindsEach (Kind.withSpan ⟨0, 0⟩)) =
      d'.events.map (Event.mapKindsEach (Kind.withSpan ⟨0, 0⟩)) := by
    rw [events, events]
    refine Except.map_bind_congr h fun o o' ho => ?_
    obtain ⟨hes, hdefinitions⟩ := Prod.mk.inj ho
    rw [← hdefinitions]
    exact mapM_fill_mapKinds Kind.forgets_withSpan _ _ _ hes
  rw [read, read]
  refine Except.map_bind_congr hevents fun es es' hes => ?_
  show Except.ok (Node.mapKinds _ (.mk .root none ((Node.ofEvents? es).getD []))) =
    .ok (Node.mapKinds _ (.mk .root none ((Node.ofEvents? es').getD [])))
  rw [Node.mapKinds_root Kind.forgets_withSpan, Node.mapKinds_root Kind.forgets_withSpan, hes]

end MdxProse
