import MdxProse.Event

/-!
# Nested streams and their trees

`Walk es ns` says that the stream `es` is the walk through the nodes `ns`.

* `Walk.ofEvents?`: **a walk is read back as the nodes it goes through.**
* `Event.settle?`: the nodes that a stream leaves open.  `ofEvents?_of_settle?`: a stream that
  leaves nothing open is a walk.
* `Node.at?`: the node at the end of a path.  The order of paths is the order in which nodes are
  entered, and a node is below another one if its path goes on from there.
* `Event.EachOf`: what holds of every kind of node in a stream; it holds in the tree
  (`Event.EachOf.of_ofEvents?`).
-/

namespace MdxProse

/-! ### Walks -/

/-- The stream is the walk through the nodes. -/
inductive Walk : List Event → List Node → Prop
  | nil : Walk [] []
  | leaf {k : Kind} {l : Option LineRange} {inner es : List Event} {cs ns : List Node} :
      Node.ofEvents? inner = some cs → Walk es ns → Walk (.leaf k l inner :: es) (.mk k l cs :: ns)
  | around {k : Kind} {l : Option LineRange} {inside es : List Event} {cs ns : List Node} :
      Walk inside cs → Walk es ns → Walk (Event.around k l inside ++ es) (.mk k l cs :: ns)

namespace Walk

variable {es es' : List Event} {ns ns' : List Node}

theorem append (h : Walk es ns) (h' : Walk es' ns') : Walk (es ++ es') (ns ++ ns') := by
  induction h with
  | nil => exact h'
  | leaf hi _ ih => exact .leaf hi ih
  | around hi _ _ ih =>
    rw [List.append_assoc]
    exact .around hi ih

theorem atom (k : Kind) (l : Option LineRange) : Walk [.leaf k l []] [.mk k l []] :=
  .leaf (by rw [Node.ofEvents?, Node.build?]; rfl) .nil

theorem single {k : Kind} {l : Option LineRange} (h : Walk es ns) :
    Walk (Event.around k l es) [.mk k l ns] := by
  have := Walk.around (k := k) (l := l) h .nil
  rwa [List.append_nil] at this

theorem of_enter {k : Kind} {l : Option LineRange} (h : Walk (.enter k l :: es) ns) :
    ∃ cs ns', ns = .mk k l cs :: ns' := by
  generalize hes : Event.enter k l :: es = es' at h
  cases h with
  | nil => cases hes
  | leaf => cases hes
  | around =>
    cases (List.cons.inj hes).1
    exact ⟨_, _, rfl⟩

theorem build? (h : Walk es ns) (rest : List Event) (open_ : List OpenNode) (done : List Node) :
    Node.build? (es ++ rest) open_ done = Node.build? rest open_ (ns.reverse ++ done) := by
  induction h generalizing rest open_ done with
  | nil => rfl
  | leaf hi _ ih =>
    rw [List.cons_append, Node.build?, Event.inside?]
    rw [Node.ofEvents?] at hi
    rw [hi]
    simp [ih]
  | @around k l inside es cs ns _ _ ihi ih =>
    have hsplit : Event.around k l inside ++ es ++ rest =
        .enter k l :: (inside ++ (Event.leaving k :: (es ++ rest))) := by
      simp [Event.around]
    rw [hsplit, Node.build?, ihi, Event.leaving, Node.build?, if_pos ⟨rfl, rfl⟩, ih]
    simp

/-- **A walk is read back as the nodes it goes through.** -/
theorem ofEvents? (h : Walk es ns) : Node.ofEvents? es = some ns := by
  have := h.build? [] [] []
  rw [List.append_nil] at this
  rw [Node.ofEvents?, this]
  simp [Node.build?]

theorem unique (h : Walk es ns) (h' : Walk es ns') : ns = ns' :=
  Option.some.inj (h.ofEvents?.symm.trans h'.ofEvents?)

end Walk

/-! ### What stays open -/

/-- What a leaving event has to tell to answer the entering one. -/
def Kind.key (k : Kind) : NodeType × Option String :=
  (k.type, k.elementName?)

/-- The nodes that are open after a stream, innermost first, if every leaving event answers the
nearest entering one. -/
def Event.settle? : List Event → List (NodeType × Option String) →
    Option (List (NodeType × Option String))
  | [], open_ => some open_
  | .enter k _ :: es, open_ => settle? es (k.key :: open_)
  | .leave t n :: es, o :: open_ => if o = (t, n) then settle? es open_ else none
  | .leave _ _ :: _, [] => none
  | .leaf .. :: es, open_ => settle? es open_

theorem Event.settle?_append (es es' : List Event) (open_ : List (NodeType × Option String)) :
    settle? (es ++ es') open_ = (settle? es open_).bind (settle? es') := by
  induction es generalizing open_ with
  | nil => rfl
  | cons e es ih =>
    cases e with
    | enter k l => exact ih _
    | leaf k l inner => exact ih _
    | leave t n =>
      cases open_ with
      | nil => rfl
      | cons o open_ =>
        rw [List.cons_append, settle?, settle?]
        split
        · exact ih _
        · rfl

theorem Node.isSome_build? {es : List Event} {open_ : List OpenNode} {done : List Node}
    (hl : ∀ k l inner, Event.leaf k l inner ∈ es → (Node.ofEvents? inner).isSome)
    (hs : Event.settle? es (open_.map (·.kind.key)) = some []) :
    (Node.build? es open_ done).isSome := by
  induction es generalizing open_ done with
  | nil =>
    cases open_ with
    | nil => rw [Node.build?]; rfl
    | cons o open_ => simp [Event.settle?] at hs
  | cons e es ih =>
    have hl' := fun k l inner h => hl k l inner (List.mem_cons_of_mem e h)
    cases e with
    | enter k l =>
      rw [Node.build?]
      exact ih hl' hs
    | leave t n =>
      cases open_ with
      | nil => cases hs
      | cons o open_ =>
        rw [List.map_cons, Event.settle?] at hs
        split at hs
        · next he =>
          rw [Node.build?, if_pos (Prod.mk.inj he)]
          exact ih hl' hs
        · cases hs
    | leaf k l inner =>
      have hi := hl k l inner List.mem_cons_self
      rw [Node.ofEvents?, Option.isSome_iff_exists] at hi
      obtain ⟨cs, hcs⟩ := hi
      rw [Node.build?, Event.inside?, hcs]
      exact ih hl' hs

/-- **A stream that leaves nothing open is a walk**, if the streams inside its events are. -/
theorem Node.ofEvents?_of_settle? {es : List Event}
    (hl : ∀ k l inner, Event.leaf k l inner ∈ es → (Node.ofEvents? inner).isSome)
    (hs : Event.settle? es [] = some []) : ∃ ns, Node.ofEvents? es = some ns :=
  Option.isSome_iff_exists.mp (@Node.isSome_build? es [] [] hl hs)

/-! ### Paths -/

namespace Node

/-- The node that a path leads to: each step of it is the number of a child. -/
def at? (n : Node) : List Nat → Option Node
  | [] => some n
  | i :: p => n.children[i]?.bind (·.at? p)

/-- The node that a path leads to which starts with the number of one of the nodes. -/
def among? (ns : List Node) : List Nat → Option Node
  | [] => none
  | i :: p => ns[i]?.bind (·.at? p)

theorem at?_append (n : Node) (p q : List Nat) : n.at? (p ++ q) = (n.at? p).bind (·.at? q) := by
  induction p generalizing n with
  | nil => rfl
  | cons i p ih =>
    rw [List.cons_append, at?, at?]
    cases n.children[i]? with
    | none => rfl
    | some c => exact ih c

end Node

/-! ### What holds of every node -/

section Each

variable (barred : Kind → Bool) (P : Kind → Prop)

mutual
/-- What holds of the kind of node that an event tells of, and of those in the stream inside the
event unless that is barred. -/
def Event.Each : Event → Prop
  | .enter k _ => P k
  | .leave .. => True
  | .leaf k _ inner => P k ∧ (barred k = false → Event.EachOf inner)
/-- What holds of every kind of node in a stream. -/
def Event.EachOf : List Event → Prop
  | [] => True
  | e :: es => Event.Each e ∧ Event.EachOf es
end

/-- What holds of every kind of node from the given one down, except below nodes that are barred. -/
inductive Node.Each : Node → Prop
  | mk {k : Kind} {l : Option LineRange} {cs : List Node} : P k →
      (barred k = false → ∀ c ∈ cs, Each c) → Each (.mk k l cs)

end Each

variable {barred : Kind → Bool} {P : Kind → Prop}

theorem Node.Each.imp {Q : Kind → Prop} {n : Node} (h : n.Each barred P)
    (hPQ : ∀ k, P k → Q k) : n.Each barred Q := by
  induction h with
  | mk hk _ ih => exact .mk (hPQ _ hk) ih

theorem Event.eachOf_iff {es : List Event} :
    EachOf barred P es ↔ ∀ e ∈ es, e.Each barred P := by
  induction es with
  | nil => simp [EachOf]
  | cons e es ih => simp [EachOf, ih]

/-- **A property of nodes holds of all nodes that a stream walks through** if it holds of every node
that is entered, provided that it holds of those below it, and of every node that is passed. -/
theorem Node.forall_of_build? {Q : Node → Prop} {es : List Event} {open_ : List OpenNode}
    {done ns : List Node} (h : build? es open_ done = some ns)
    (henter : ∀ k l cs, .enter k l ∈ es → (∀ c ∈ cs, Q c) → Q (.mk k l cs))
    (hleaf : ∀ k l inner cs, .leaf k l inner ∈ es → ofEvents? inner = some cs → Q (.mk k l cs))
    (ho : ∀ o ∈ open_, (∀ n ∈ o.before, Q n) ∧
      ∀ cs, (∀ c ∈ cs, Q c) → Q (.mk o.kind o.lines cs))
    (hd : ∀ n ∈ done, Q n) : ∀ n ∈ ns, Q n := by
  induction es generalizing open_ done with
  | nil =>
    cases open_ with
    | nil =>
      cases h
      simpa using hd
    | cons o open_ => cases h
  | cons e es ih =>
    have ih {open_ : List OpenNode} {done : List Node} (h : build? es open_ done = some ns) :=
      ih h (fun k l cs he => henter k l cs (List.mem_cons_of_mem e he))
        (fun k l inner cs he => hleaf k l inner cs (List.mem_cons_of_mem e he))
    cases e with
    | enter k l =>
      rw [build?] at h
      exact ih h (List.forall_mem_cons.mpr
        ⟨⟨hd, fun cs => henter k l cs List.mem_cons_self⟩, ho⟩) nofun
    | leave t n =>
      cases open_ with
      | nil => cases h
      | cons o open_ =>
        rw [build?] at h
        obtain ⟨⟨hbefore, hnode⟩, ho⟩ := List.forall_mem_cons.mp ho
        split at h
        · refine ih h ho (List.forall_mem_cons.mpr ⟨hnode _ fun c hc => ?_, hbefore⟩)
          exact hd c (List.mem_reverse.mp hc)
        · cases h
    | leaf k l inner =>
      rw [build?, Event.inside?] at h
      split at h
      · next cs hcs =>
        exact ih h ho (List.forall_mem_cons.mpr ⟨hleaf k l inner cs List.mem_cons_self hcs, hd⟩)
      · cases h

theorem Node.forall_of_ofEvents? {Q : Node → Prop} {es : List Event} {ns : List Node}
    (h : ofEvents? es = some ns)
    (henter : ∀ k l cs, .enter k l ∈ es → (∀ c ∈ cs, Q c) → Q (.mk k l cs))
    (hleaf : ∀ k l inner cs, .leaf k l inner ∈ es → ofEvents? inner = some cs → Q (.mk k l cs)) :
    ∀ n ∈ ns, Q n :=
  forall_of_build? h henter hleaf nofun nofun

/-- **What holds of every kind of node in a stream holds of every node it walks through.** -/
theorem Event.EachOf.of_ofEvents? {es : List Event} {ns : List Node}
    (h : Node.ofEvents? es = some ns) (he : EachOf barred P es) :
    ∀ n ∈ ns, n.Each barred P := by
  rw [eachOf_iff] at he
  refine Node.forall_of_ofEvents? h (fun k l cs hm hcs => .mk (he _ hm) fun _ => hcs)
    fun k l inner cs hm hcs => ?_
  exact .mk (he _ hm).1 fun hb => of_ofEvents? hcs ((he _ hm).2 hb)
termination_by es
decreasing_by
  have := List.sizeOf_lt_of_mem hm
  simp only [Event.leaf.sizeOf_spec] at this
  omega

end MdxProse
