import MdxProse.Proofs.DocumentTree

/-!
# All streams of a document nest

The blocks of a document are one stream of events; every piece of running text holds another one,
and so does every image in it.

* `Event.Partners`: two events that enter and leave the same node, with nothing open between them.
* `Event.nested_of_settle?`: **if every leaving event answers the nearest entering one, all events
  have partners, and no two pairs cross.**
* `Event.settle?_of_mem_streams`: a stream that can be read as nodes leaves nothing open, nor does
  any stream inside it.
* `streams_nested`: **all streams of a document nest, and so its tree can be built.**
-/

namespace MdxProse

namespace Event

/-! ### Partners -/

/-- The events at `i` and `j` enter and leave the same node: what is between them closes what it
opens, and nothing else. -/
def Partners (es : List Event) (i j : Nat) : Prop :=
  ∃ a k l b c, es = a ++ (around k l b ++ c) ∧ Neutral b ∧ i = a.length ∧
    j = a.length + (b.length + 1)

/-- **A nested stream**: every leaving event answers the nearest entering one that is still open,
and nothing stays open.  So every event that enters or leaves a node has a partner, and of two pairs
of partners one comes before the other or is around it. -/
structure Nested (es : List Event) : Prop where
  settles : settle? es [] = some []
  entered : ∀ i k l, es[i]? = some (.enter k l) → ∃ j, Partners es i j
  left : ∀ j t n, es[j]? = some (.leave t n) → ∃ i, Partners es i j
  apart : ∀ i j i' j', Partners es i j → Partners es i' j' → i = i' ∧ j = j' ∨
    j < i' ∨ j' < i ∨ i < i' ∧ j' < j ∨ i' < i ∧ j < j'

theorem settle?_frame {es : List Event} {open_ st : List (NodeType × Option String)}
    (h : settle? es open_ = some st) (more : List (NodeType × Option String)) :
    settle? es (open_ ++ more) = some (st ++ more) := by
  induction es generalizing open_ with
  | nil =>
    cases h
    rfl
  | cons e es ih =>
    cases e with
    | enter k l =>
      have h : settle? es (k.key :: open_) = some st := h
      exact ih h
    | leaf k l inside =>
      have h : settle? es open_ = some st := h
      exact ih h
    | leave t n =>
      cases open_ with
      | nil => cases h
      | cons o open_ =>
        rw [settle?] at h
        split at h
        · next ho =>
          rw [List.cons_append, settle?, if_pos ho]
          exact ih h
        · cases h

/-- A node that is open is left further on, and nothing is left open before that. -/
theorem exists_leave {es : List Event} {o : NodeType × Option String}
    {open_ : List (NodeType × Option String)} (h : settle? es (o :: open_) = some []) :
    ∃ a b, es = a ++ .leave o.1 o.2 :: b ∧ Neutral a ∧ settle? b open_ = some [] := by
  match es, h with
  | .leaf k l inside :: es, h =>
    have hes : settle? es (o :: open_) = some [] := h
    obtain ⟨a, b, rfl, ha, hb⟩ := exists_leave hes
    exact ⟨.leaf k l inside :: a, b, rfl, (Neutral.leaf k l inside).append ha, hb⟩
  | .leave t n :: es, hes =>
    rw [settle?] at hes
    split at hes
    · next ho => exact ⟨[], es, by rw [ho]; rfl, .nil, hes⟩
    · cases hes
  | .enter k l :: es, h =>
    have hes : settle? es (k.key :: o :: open_) = some [] := h
    obtain ⟨a, b, hes, ha, hb⟩ := exists_leave hes
    have hlt : b.length < es.length + 1 := by
      rw [hes, List.length_append, List.length_cons]
      omega
    obtain ⟨c, d, rfl, hc, hd⟩ := exists_leave hb
    refine ⟨around k l a ++ c, d, ?_, (ha.around k l).append hc, hd⟩
    simp [hes, around, leaving, Kind.key]
termination_by es.length

/-- A node that stays open has been entered, and nothing else has been left open since. -/
theorem exists_enter {es : List Event} {o : NodeType × Option String}
    {open_ : List (NodeType × Option String)} (h : settle? es [] = some (o :: open_)) :
    ∃ a k l b, es = a ++ .enter k l :: b ∧ k.key = o ∧ Neutral b ∧
      settle? a [] = some open_ := by
  rcases List.eq_nil_or_concat es with rfl | ⟨es', e, rfl⟩
  · cases h
  · rw [List.concat_eq_append, settle?_append, Option.bind_eq_some_iff] at h
    obtain ⟨st, hst, he⟩ := h
    rw [List.concat_eq_append]
    cases e with
    | leaf k l inside =>
      cases he
      obtain ⟨a, k', l', b, rfl, hk, hb, ha⟩ := exists_enter hst
      exact ⟨a, k', l', b ++ [.leaf k l inside], by simp, hk, hb.append (.leaf k l inside), ha⟩
    | enter k l =>
      cases he
      exact ⟨es', k, l, [], rfl, rfl, .nil, hst⟩
    | leave t n =>
      -- the node that is left here has been entered after the one that stays open
      match st, he with
      | p :: st, he =>
        rw [settle?] at he
        split at he
        · next hp =>
          cases he
          obtain ⟨a, k, l, b, rfl, hk, hb, ha⟩ := exists_enter hst
          obtain ⟨c, k', l', d, rfl, hk', hd, hc⟩ := exists_enter ha
          obtain ⟨rfl, rfl⟩ : k.type = t ∧ k.elementName? = n := Prod.mk.inj (hk.trans hp)
          refine ⟨c, k', l', d ++ around k l b, ?_, hk', hd.append (hb.around k l), hc⟩
          simp [around, leaving]
        · cases he
termination_by es.length

/-- A part of a neutral stream that starts inside it and leaves nothing that was open before has not
entered a node that stays open. -/
theorem not_neutral_of_entered {a b c : List Event} {k : Kind} {l : Option LineRange}
    (hbc : Neutral (b ++ c)) : ¬ Neutral (a ++ .enter k l :: b) := by
  intro h
  have hsettle := h []
  rw [settle?_append, Option.bind_eq_some_iff] at hsettle
  obtain ⟨st, -, hst⟩ := hsettle
  have hst : settle? b (k.key :: st) = some [] := hst
  have hprefix := hbc []
  rw [settle?_append, Option.bind_eq_some_iff] at hprefix
  obtain ⟨st', hst', -⟩ := hprefix
  have hframe := settle?_frame hst' (k.key :: st)
  rw [List.nil_append, hst, Option.some.injEq] at hframe
  exact absurd hframe.symm (by simp)

theorem inside_eq {b c b' c' : List Event} {k : Kind} (hb : Neutral b) (hb' : Neutral b')
    (h : b ++ leaving k :: c = b' ++ leaving k :: c') : b = b' := by
  have hno : ∀ {x y : List Event}, Neutral x → ¬ Neutral (x ++ leaving k :: y) := by
    intro x y hx hxy
    cases hx.cancel_left hxy []
  rcases List.append_eq_append_iff.mp h with ⟨x, rfl, hx⟩ | ⟨x, rfl, hx⟩
  · cases x with
    | nil => rw [List.append_nil]
    | cons e x =>
      obtain ⟨rfl, -⟩ := List.cons.inj hx
      exact (hno hb hb').elim
  · cases x with
    | nil => rw [List.append_nil]
    | cons e x =>
      obtain ⟨rfl, -⟩ := List.cons.inj hx
      exact (hno hb' hb).elim

/-- Of two pairs of partners, one comes before the other or is around it. -/
theorem Partners.apart {es : List Event} {i j i' j' : Nat} (h : Partners es i j)
    (h' : Partners es i' j') (hlt : i < i') : j < i' ∨ j' < j := by
  obtain ⟨a, k, l, b, c, hes, hb, rfl, rfl⟩ := h
  obtain ⟨a', k', l', b', c', hes', hb', rfl, rfl⟩ := h'
  rw [hes] at hes'
  obtain ⟨x, rfl, hx⟩ : ∃ x, a' = a ++ x ∧ around k l b ++ c = x ++ (around k' l' b' ++ c') := by
    rcases List.append_eq_append_iff.mp hes' with h | ⟨x, rfl, -⟩
    · exact h
    · rw [List.length_append] at hlt
      omega
  obtain ⟨x, rfl⟩ : ∃ y, x = .enter k l :: y := by
    cases x with
    | nil => simp at hlt
    | cons e x =>
      obtain ⟨rfl, -⟩ := List.cons.inj hx
      exact ⟨x, rfl⟩
  simp only [around, List.cons_append, List.append_assoc, List.nil_append, List.cons.injEq,
    true_and] at hx
  simp only [List.length_append, List.length_cons]
  rcases List.append_eq_append_iff.mp hx with ⟨y, rfl, hy⟩ | ⟨y, rfl, hy⟩
  · -- the second node is entered after the first one is left
    cases y with
    | nil => cases (List.cons.inj hy).1
    | cons e y =>
      simp only [List.length_append, List.length_cons]
      omega
  · -- the second node is entered inside the first one, and left there too
    cases y with
    | nil => cases (List.cons.inj hy).1
    | cons e y =>
      obtain ⟨rfl, hyb⟩ := List.cons.inj hy
      rcases List.append_eq_append_iff.mp hyb with ⟨z, rfl, hz⟩ | ⟨z, rfl, hz⟩
      · cases z with
        | nil =>
          rw [List.append_nil] at hb
          exact (not_neutral_of_entered (c := []) (by rwa [List.append_nil]) hb).elim
        | cons e z =>
          simp only [List.length_append, List.length_cons]
          omega
      · exact (not_neutral_of_entered hb' hb).elim

/-- **A stream that leaves nothing open is nested.** -/
theorem nested_of_settle? {es : List Event} (h : settle? es [] = some []) : Nested es := by
  refine ⟨h, fun i k l hi => ?_, fun j t n hj => ?_, fun i j i' j' hp hp' => ?_⟩
  · obtain ⟨a, b, rfl, -, rfl⟩ := split_of_getElem? hi
    rw [settle?_append, Option.bind_eq_some_iff] at h
    obtain ⟨st, -, hst⟩ := h
    obtain ⟨c, d, rfl, hc, -⟩ := exists_leave (o := k.key) hst
    exact ⟨_, a, k, l, c, d, by simp [around, leaving, Kind.key], hc, rfl, rfl⟩
  · obtain ⟨a, b, rfl, -, rfl⟩ := split_of_getElem? hj
    rw [settle?_append, Option.bind_eq_some_iff] at h
    obtain ⟨st, hst, hb⟩ := h
    cases st with
    | nil => cases hb
    | cons o st =>
      rw [settle?] at hb
      split at hb
      · next ho =>
        obtain ⟨c, k, l, d, rfl, hk, hd, -⟩ := exists_enter hst
        obtain ⟨rfl, rfl⟩ : k.type = t ∧ k.elementName? = n := Prod.mk.inj (hk.trans ho)
        exact ⟨_, c, k, l, d, b, by simp [around, leaving], hd, rfl, by simp⟩
      · cases hb
  · rcases Nat.lt_trichotomy i i' with hlt | rfl | hlt
    · have := hp.apart hp' hlt
      omega
    · refine .inl ⟨rfl, ?_⟩
      obtain ⟨a, k, l, b, c, hes, hb, hi, rfl⟩ := hp
      obtain ⟨a', k', l', b', c', rfl, hb', hi', rfl⟩ := hp'
      obtain ⟨-, hnode⟩ := List.append_inj hes.symm (by omega)
      simp only [around, List.cons_append, List.append_assoc, List.nil_append, List.cons.injEq,
        Event.enter.injEq] at hnode
      obtain ⟨⟨rfl, -⟩, hinside⟩ := hnode
      rw [inside_eq hb hb' hinside]
      omega
    · have := hp'.apart hp hlt
      omega

/-! ### Streams inside streams -/

mutual
/-- The streams inside an event, at any depth. -/
def inner : Event → List (List Event)
  | .leaf _ _ inside => inside :: innerAll inside
  | _ => []
/-- The streams inside the events of a stream, at any depth. -/
def innerAll : List Event → List (List Event)
  | [] => []
  | e :: es => inner e ++ innerAll es
end

/-- A stream, and all streams inside it. -/
def streams (es : List Event) : List (List Event) :=
  es :: innerAll es

theorem settle?_of_build? {es : List Event} {open_ : List OpenNode} {done ns : List Node}
    (h : Node.build? es open_ done = some ns) :
    settle? es (open_.map (·.kind.key)) = some [] := by
  induction es generalizing open_ done with
  | nil =>
    cases open_ with
    | nil => rfl
    | cons o open_ => cases h
  | cons e es ih =>
    cases e with
    | enter k l =>
      rw [Node.build?] at h
      exact ih h
    | leaf k l inside =>
      rw [Node.build?] at h
      split at h
      · exact ih h
      · cases h
    | leave t n =>
      cases open_ with
      | nil => cases h
      | cons o open_ =>
        rw [Node.build?] at h
        split at h
        · next ho =>
          rw [List.map_cons, settle?, if_pos (Prod.ext ho.1 ho.2)]
          exact ih h
        · cases h

/-- **A stream that can be read as nodes leaves nothing open**, nor does any stream inside it. -/
theorem settle?_of_mem_streams {es s : List Event} {open_ : List OpenNode} {done ns : List Node}
    (h : Node.build? es open_ done = some ns) (hs : s ∈ innerAll es) :
    settle? s [] = some [] := by
  match es, open_ with
  | [], _ => cases hs
  | .enter k l :: es, open_ =>
    rw [Node.build?] at h
    exact settle?_of_mem_streams h hs
  | .leave t n :: es, [] => cases h
  | .leave t n :: es, o :: open_ =>
    rw [Node.build?] at h
    split at h
    · exact settle?_of_mem_streams h hs
    · cases h
  | .leaf k l inside :: es, open_ =>
    rw [Node.build?, Event.inside?] at h
    split at h
    · next cs hcs =>
      rw [innerAll, inner, List.mem_append, List.mem_cons] at hs
      rcases hs with (rfl | hs) | hs
      · exact settle?_of_build? hcs
      · exact settle?_of_mem_streams hcs hs
      · exact settle?_of_mem_streams h hs
    · cases h
termination_by es

end Event

/-- **All streams of a document nest, and so its tree can be built**: the stream of its blocks, that
of every piece of running text, and that of every image. -/
theorem streams_nested (text : String) {es : List Event}
    (h : (Document.ofString text).events = .ok es) :
    (∀ s ∈ Event.streams es, Event.Nested s) ∧
      ∃ ns, Node.ofEvents? es = some ns ∧
        (Document.ofString text).read = .ok (.mk .root none ns) := by
  obtain ⟨ns, hwalk, -, -⟩ := Document.events_spec h
  refine ⟨fun s hs => Event.nested_of_settle? ?_, ns, hwalk.ofEvents?, Document.read_eq h hwalk⟩
  rcases List.mem_cons.mp hs with rfl | hs
  · exact Event.settle?_of_build? hwalk.ofEvents?
  · exact Event.settle?_of_mem_streams hwalk.ofEvents? hs

/-- Emphasis in an element in a link, and in an image, all inside an element: three streams that are
not empty. -/
theorem streams_nested_element :
    ∃ es, (Document.ofString "<A>\n[b <C>*d*</C>](e) ![*f*](g)\n</A>").events = .ok es ∧
      (Event.streams es).countP (!·.isEmpty) = 3 ∧ ∀ s ∈ Event.streams es, Event.Nested s := by
  have hcount : ((Document.ofString "<A>\n[b <C>*d*</C>](e) ![*f*](g)\n</A>").events.toOption.map
      fun es => (Event.streams es).countP (!·.isEmpty)) = some 3 := by
    decide +kernel
  cases hes : (Document.ofString "<A>\n[b <C>*d*</C>](e) ![*f*](g)\n</A>").events with
  | error e =>
    rw [hes] at hcount
    cases hcount
  | ok es =>
    rw [hes] at hcount
    exact ⟨es, rfl, Option.some.inj hcount, (streams_nested _ hes).1⟩

end MdxProse
