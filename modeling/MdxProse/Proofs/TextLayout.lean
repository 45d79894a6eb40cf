import MdxProse.Proofs.Streams
import MdxProse.Proofs.TextBounds

/-!
# Where code in running text stands

Code in running text is laid out as block code is: one piece after the other, the content of an
element between its two tags.  So it is described as block code: `Spread src lo hi es` says that the
code among the events `es` would be laid out between the two offsets if it stood by itself.  Nothing
is said of what else is reported, so emphasis may be resolved and texts may be joined.

* `Kind.asBlock?`, `Event.asBlock?`: code in running text as block code, and nothing else.
* `Spread.append`, `Spread.around`, `Spread.pair`: what is put together from streams that are
  spread.
* `Node.raised`: the node with its code as block code.  `Spread.laid`: **what is spread is laid out
  in the tree.**
* `Laid.embedded`, `Laid.code_inside`, `Laid.code_before`: what that tells of the code in running
  text.
-/

namespace MdxProse

variable {src : Source} {lo mid hi : Nat} {k k' : Kind} {l : Option LineRange}
  {es es' : List Event} {ns : List Node}

/-- **A stream that leaves nothing open is a walk**, if the streams inside its events can be read as
nodes. -/
theorem Walk.of_settle? {es : List Event}
    (hl : ∀ k l inner, Event.leaf k l inner ∈ es → (Node.ofEvents? inner).isSome)
    (hs : Event.settle? es [] = some []) : ∃ ns, Walk es ns := by
  match es, hl, hs with
  | [], _, _ => exact ⟨[], .nil⟩
  | .leave _ _ :: _, _, hs => cases hs
  | .leaf k l inner :: es, hl, hs =>
    have hs : Event.settle? es [] = some [] := hs
    obtain ⟨cs, hcs⟩ := Option.isSome_iff_exists.mp (hl k l inner List.mem_cons_self)
    obtain ⟨ns, hwalk⟩ := Walk.of_settle?
      (fun k l inner he => hl k l inner (List.mem_cons_of_mem _ he)) hs
    exact ⟨_, .leaf hcs hwalk⟩
  | .enter k l :: es, hl, hs =>
    have hs : Event.settle? es [k.key] = some [] := hs
    obtain ⟨a, b, hes, ha, hb⟩ := Event.exists_leave hs
    have hlength : a.length < es.length + 1 ∧ b.length < es.length + 1 := by
      rw [hes, List.length_append, List.length_cons]
      omega
    obtain ⟨cs, hinside⟩ := Walk.of_settle?
      (fun k l inner he => hl k l inner (by simp [hes, he])) (ha [])
    obtain ⟨ns, hwalk⟩ := Walk.of_settle?
      (fun k l inner he => hl k l inner (by simp [hes, he])) hb
    refine ⟨.mk k l cs :: ns, ?_⟩
    have := hinside.around (k := k) (l := l) hwalk
    simpa [Event.around, Event.leaving, Kind.key, hes] using this
termination_by es.length

/-! ### Code as block code -/

/-- Code in running text as if it stood by itself. -/
def Kind.asBlock? : Kind → Option Kind
  | .textExpression c s => some (.flowExpression c s)
  | .textElement n s => some (.flowElement n s)
  | _ => none

/-- An event of code in running text as if the code stood by itself. -/
def Event.asBlock? : Event → Option Event
  | .enter k l => k.asBlock?.map (.enter · l)
  | .leave .textExpression n => some (.leave .flowExpression n)
  | .leave .textElement n => some (.leave .flowElement n)
  | .leave _ _ => none
  | .leaf k l _ => k.asBlock?.map (.leaf · l [])

theorem Event.asBlock?_leaving (k : Kind) :
    (leaving k).asBlock? = k.asBlock?.map leaving := by
  cases k <;> rfl

theorem Event.filterMap_around (k : Kind) (l : Option LineRange) (es : List Event) :
    (around k l es).filterMap asBlock? =
      match k.asBlock? with
      | some k' => around k' l (es.filterMap asBlock?)
      | none => es.filterMap asBlock? := by
  rw [around, List.filterMap_append, List.filterMap_cons, List.filterMap_cons, asBlock?_leaving,
    asBlock?]
  cases k.asBlock? with
  | none => simp
  | some k' => rfl

namespace Kind

theorem isTextCode_of_asBlock? (h : k.asBlock? = some k') : k.isTextCode = true := by
  cases k <;> first | rfl | cases h

theorem exists_asBlock? (h : k.isTextCode = true) : ∃ k', k.asBlock? = some k' := by
  cases k <;> first | exact ⟨_, rfl⟩ | cases h

theorem isTextCode_of_none (h : k.asBlock? = none) : k.isTextCode = false := by
  cases k <;> first | rfl | cases h

theorem isImage_of_isTextCode (h : k.isTextCode = true) : k.isImage = false := by
  cases k <;> first | rfl | cases h

theorem isBlockCode_asBlock? (h : k.asBlock? = some k') : k'.isBlockCode = true := by
  cases k <;> cases h <;> rfl

theorem span?_asBlock? (h : k.asBlock? = some k') : k'.span? = k.span? := by
  cases k <;> cases h <;> rfl

theorem Exact.embedded (h : k.asBlock? = some k') (hk : k'.Exact src) : k.Embedded src := by
  cases k with
  | textExpression c s =>
    cases h
    cases hk with
    | expression hs => exact .expression hs
  | textElement n s =>
    cases h
    cases hk with
    | single hs => exact .single hs
    | pair hs => exact .pair hs
  | _ => cases h

end Kind

/-! ### Streams -/

/-- The code among the events would be laid out between the two offsets if it stood by itself. -/
def Spread (src : Source) (lo hi : Nat) (es : List Event) : Prop :=
  ∃ ns, Walk (es.filterMap Event.asBlock?) ns ∧ Laid src false lo hi ns

namespace Spread

theorem of_eq (h : Spread src lo hi es)
    (heq : es'.filterMap Event.asBlock? = es.filterMap Event.asBlock?) : Spread src lo hi es' := by
  rw [Spread, heq]
  exact h

theorem nil (h : lo ≤ hi) : Spread src lo hi [] :=
  ⟨[], .nil, .nil h⟩

theorem quiet (hle : lo ≤ hi) (h : ∀ e ∈ es, e.asBlock? = none) : Spread src lo hi es :=
  (nil hle).of_eq (List.filterMap_eq_nil_iff.mpr h)

theorem widen {lo' hi' : Nat} (h : Spread src lo hi es) (hl : lo' ≤ lo) (hr : hi ≤ hi') :
    Spread src lo' hi' es := by
  obtain ⟨ns, hwalk, hlaid⟩ := h
  exact ⟨ns, hwalk, hlaid.widen hl hr⟩

theorem append (h : Spread src lo mid es) (h' : Spread src mid hi es') :
    Spread src lo hi (es ++ es') := by
  obtain ⟨ns, hwalk, hlaid⟩ := h
  obtain ⟨ns', hwalk', hlaid'⟩ := h'
  refine ⟨ns ++ ns', ?_, hlaid.append hlaid'⟩
  rw [List.filterMap_append]
  exact hwalk.append hwalk'

theorem around (h : Spread src lo hi es) (hk : k.asBlock? = none) :
    Spread src lo hi (Event.around k l es) :=
  h.of_eq (by rw [Event.filterMap_around, hk])

theorem expression {s : Span} (h : Expression.stop? src s.start src.size = some s.stop) :
    Spread src s.start s.stop [.atom (.textExpression (src.cover s) s)] :=
  ⟨_, .atom (.flowExpression (src.cover s) s) none,
    .expression (Nat.le_refl _) h (.nil (Nat.le_refl _))⟩

theorem single {t : Tag} (h : IsSingle src t) :
    Spread src t.span.start t.span.stop (Event.around (.textElement t.name t.span) none []) := by
  refine ⟨[.mk (.flowElement t.name t.span) none []], ?_,
    .single (Nat.le_refl _) h (.nil (Nat.le_refl _))⟩
  rw [Event.filterMap_around]
  exact Walk.nil.single

/-- **The content of an element is between its tags.** -/
theorem pair {o c : Tag} (hpair : IsPair src o c) (h : Spread src o.span.stop c.span.start es) :
    Spread src o.span.start c.span.stop
      (Event.around (.textElement o.name ⟨o.span.start, c.span.stop⟩) none es) := by
  obtain ⟨ns, hwalk, hlaid⟩ := h
  refine ⟨[.mk (.flowElement o.name ⟨o.span.start, c.span.stop⟩) none ns], ?_,
    .pair (Nat.le_refl _) hpair hlaid (.nil (Nat.le_refl _))⟩
  rw [Event.filterMap_around]
  exact hwalk.single

end Spread

/-! ### Trees -/

namespace Node

mutual
/-- Is there code in running text at the node or below it?  What the label of an image holds does
not count. -/
def bears : Node → Bool
  | .mk k _ cs => k.isTextCode || !k.isImage && bearsAny cs
/-- Is there code in running text at one of the nodes or below it? -/
def bearsAny : List Node → Bool
  | [] => false
  | n :: ns => n.bears || bearsAny ns
end

mutual
/-- The node with its code as block code, and nothing below an image. -/
def raised : Node → Node
  | .mk k l cs => .mk (k.asBlock?.getD k) l (if k.isImage then [] else raisedEach cs)
/-- The nodes with their code as block code, up to the last one with code. -/
def raisedEach : List Node → List Node
  | [] => []
  | n :: ns => if bearsAny (n :: ns) then n.raised :: raisedEach ns else []
end

theorem bearsAny_of_mem {n : Node} (hn : n ∈ ns) (h : n.bears = true) : bearsAny ns = true := by
  induction ns with
  | nil => cases hn
  | cons a ns ih =>
    rw [bearsAny, Bool.or_eq_true_iff]
    rcases List.mem_cons.mp hn with rfl | hn
    · exact .inl h
    · exact .inr (ih hn)

theorem raisedEach_eq_nil (h : bearsAny ns = false) : raisedEach ns = [] := by
  cases ns with
  | nil => rfl
  | cons n ns => rw [raisedEach, h, if_neg Bool.false_ne_true]

theorem getElem?_raisedEach {n : Node} {i : Nat} (hn : ns[i]? = some n) (h : n.bears = true) :
    (raisedEach ns)[i]? = some n.raised := by
  have hbears := bearsAny_of_mem (List.mem_of_getElem? hn) h
  induction ns generalizing i with
  | nil => cases hn
  | cons a ns ih =>
    rw [raisedEach, if_pos hbears]
    cases i with
    | zero =>
      cases hn
      rfl
    | succ i =>
      have hn : ns[i]? = some n := hn
      exact ih hn (bearsAny_of_mem (List.mem_of_getElem? hn) h)

theorem kind_raised {n : Node} (h : n.kind.asBlock? = some k) : n.raised.kind = k := by
  obtain ⟨k', l, cs⟩ := n
  have h : k'.asBlock? = some k := h
  rw [raised, h]
  rfl

theorem children_raised {n : Node} (h : n.kind.isImage = false) :
    n.raised.children = raisedEach n.children := by
  obtain ⟨k, l, cs⟩ := n
  have h : k.isImage = false := h
  rw [raised, h]
  rfl

/-- The path does not lead into the label of an image. -/
def InText (ns : List Node) (p : List Nat) : Prop :=
  ∀ q n, q <+: p → q ≠ p → among? ns q = some n → n.kind.isImage = false

theorem inText_iff_take {p : List Nat} : InText ns p ↔
    ∀ i < p.length, ∀ n ∈ among? ns (p.take i), n.kind.isImage = false := by
  constructor
  · intro h i hi n hn
    refine h (p.take i) n (List.take_prefix i p) (fun heq => ?_) hn
    have hlength := congrArg List.length heq
    rw [List.length_take] at hlength
    omega
  · intro h q n hq hne hn
    have hlt : q.length < p.length := by
      rcases Nat.lt_or_eq_of_le hq.length_le with hlt | heq
      · exact hlt
      · exact absurd (hq.eq_of_length heq) hne
    refine h q.length hlt n ?_
    rwa [← List.prefix_iff_eq_take.mp hq]

instance (ns : List Node) (p : List Nat) : Decidable (InText ns p) :=
  decidable_of_iff _ inText_iff_take.symm

theorem InText.children {n : Node} {i j : Nat} {p : List Nat} (h : InText ns (i :: j :: p))
    (hn : ns[i]? = some n) : n.kind.isImage = false ∧ InText n.children (j :: p) := by
  constructor
  · refine h [i] n ⟨j :: p, rfl⟩ (by simp) ?_
    rw [among?, hn]
    rfl
  · intro q m hq hne hm
    refine h (i :: q) m ((List.prefix_cons_inj i).mpr hq) (by simpa using hne) ?_
    rw [among?, hn]
    cases q with
    | nil => cases hm
    | cons => exact hm

theorem InText.left {p q : List Nat} (h : InText ns (p ++ q)) : InText ns p := by
  intro r n hr hne hn
  refine h r n (hr.trans (List.prefix_append p q)) (fun heq => hne ?_) hn
  refine hr.eq_of_length_le ?_
  rw [heq, List.length_append]
  exact Nat.le_add_right _ _

theorem among?_append {p : List Nat} (hp : p ≠ []) (q : List Nat) :
    among? ns (p ++ q) = (among? ns p).bind (·.at? q) := by
  obtain ⟨i, p, rfl⟩ := List.exists_cons_of_ne_nil hp
  rw [List.cons_append, among?, among?]
  cases ns[i]? with
  | none => rfl
  | some n => exact at?_append n p q

/-- Above code there is code, up to the next image. -/
theorem bears_of_at? {m n : Node} {i : Nat} {p : List Nat} (hn : ns[i]? = some n)
    (hm : n.at? p = some m) (hp : InText ns (i :: p)) (hcode : m.kind.isTextCode = true) :
    n.bears = true := by
  induction p generalizing ns i n with
  | nil =>
    cases hm
    obtain ⟨k, l, cs⟩ := m
    have hcode : k.isTextCode = true := hcode
    rw [bears, hcode, Bool.true_or]
  | cons j p ih =>
    rw [at?, Option.bind_eq_some_iff] at hm
    obtain ⟨c, hc, hm⟩ := hm
    obtain ⟨himage, hin⟩ := hp.children hn
    have hbears := bearsAny_of_mem (List.mem_of_getElem? hc) (ih hc hm hin)
    obtain ⟨k, l, cs⟩ := n
    have hbears : bearsAny cs = true := hbears
    have himage : k.isImage = false := himage
    rw [bears, himage, hbears, Bool.not_false, Bool.and_self, Bool.or_true]

/-- **A path to code leads to the same node as block code.** -/
theorem among?_raisedEach {m : Node} {p : List Nat} (hm : among? ns p = some m)
    (hp : InText ns p) (hcode : m.kind.isTextCode = true) :
    among? (raisedEach ns) p = some m.raised := by
  induction p generalizing ns with
  | nil => cases hm
  | cons i p ih =>
    rw [among?, Option.bind_eq_some_iff] at hm
    obtain ⟨n, hn, hm⟩ := hm
    have hbears := bears_of_at? hn hm hp hcode
    rw [among?, getElem?_raisedEach hn hbears, Option.bind_some]
    cases p with
    | nil =>
      cases hm
      rfl
    | cons j p =>
      obtain ⟨himage, hin⟩ := hp.children hn
      have hm : among? n.children (j :: p) = some m := hm
      have := ih hm hin
      rw [← children_raised himage] at this
      exact this

end Node

namespace Laid

open Node

variable {cs ms ms' : List Node}

/-- A node that is no code goes in front of others, with what is laid out below it. -/
theorem cons_other (hk : k.asBlock? = none) (hlayer : k.layer = .text)
    (hcs : Laid src false lo mid (if k.isImage then [] else raisedEach cs))
    (hns : Laid src false mid hi (raisedEach ns)) :
    Laid src false lo hi (raisedEach (.mk k l cs :: ns)) := by
  rw [raisedEach]
  split
  · rw [Node.raised, hk]
    exact .other (Kind.isBlockCode_of_layer hlayer) hcs hns
  · exact .nil (Nat.le_trans hcs.le hns.le)

/-- A node that is code takes the place of the block code that it is laid out as. -/
theorem cons_code (hk : k.asBlock? = some k') (hnil : ms = [] → bearsAny cs = false)
    (hcs : ∀ lo hi, Laid src false lo hi ms → Laid src false lo hi (raisedEach cs))
    (hns : ∀ lo hi, Laid src false lo hi ms' → Laid src false lo hi (raisedEach ns))
    (h : Laid src false lo hi (.mk k' l ms :: ms')) :
    Laid src false lo hi (raisedEach (.mk k l cs :: ns)) := by
  have hcode := Kind.isTextCode_of_asBlock? hk
  have himage := Kind.isImage_of_isTextCode hcode
  have hbears : bearsAny (.mk k l cs :: ns) = true :=
    bearsAny_of_mem List.mem_cons_self (by rw [bears, hcode, Bool.true_or])
  rw [raisedEach, if_pos hbears, Node.raised, hk, himage, if_neg Bool.false_ne_true]
  exact h.replace (fun h => raisedEach_eq_nil (hnil h)) hcs hns

end Laid

open Node in
/-- **If the code in a stream is laid out, it is laid out in the nodes that the stream walks
through.** -/
theorem Walk.raised (h : Walk es ns) (hes : ∀ e ∈ es, e.IsInline src) :
    ∃ ms, Walk (es.filterMap Event.asBlock?) ms ∧ (ms = [] → bearsAny ns = false) ∧
      ∀ lo hi, Laid src false lo hi ms → Laid src false lo hi (raisedEach ns) := by
  induction h with
  | nil => exact ⟨[], .nil, fun _ => rfl, fun _ _ h => h⟩
  | @leaf k l inner es cs ns hi _ ih =>
    obtain ⟨hleaf, hes⟩ := List.forall_mem_cons.mp hes
    obtain ⟨ms, hwalk, hnil, hlaid⟩ := ih hes
    have hcs : k.isImage = false → cs = [] := by
      intro himage
      rw [(hleaf.inner k l inner rfl).2 himage, Node.ofEvents?, Node.build?] at hi
      exact (Option.some.inj hi).symm
    cases hk : k.asBlock? with
    | none =>
      have hnone : (Event.leaf k l inner).asBlock? = none := by rw [Event.asBlock?, hk]; rfl
      have hempty : (if k.isImage then [] else raisedEach cs) = [] := by
        split
        · rfl
        · next himage => rw [hcs (Bool.eq_false_iff.mpr himage)]; rfl
      rw [List.filterMap_cons_none hnone]
      refine ⟨ms, hwalk, ?_, ?_⟩
      · intro hms
        have hbears : (!k.isImage && bearsAny cs) = false := by
          cases himage : k.isImage with
          | true => rfl
          | false => rw [hcs himage]; rfl
        rw [bearsAny, bears, hnil hms, Kind.isTextCode_of_none hk, hbears]
        rfl
      · intro lo hi h
        refine .cons_other hk hleaf.layer.1 ?_ (hlaid lo hi h)
        rw [hempty]
        exact .nil (Nat.le_refl lo)
    | some k' =>
      have hsome : (Event.leaf k l inner).asBlock? = some (.leaf k' l []) := by
        rw [Event.asBlock?, hk]
        rfl
      rw [List.filterMap_cons_some hsome]
      have himage := Kind.isImage_of_isTextCode (Kind.isTextCode_of_asBlock? hk)
      refine ⟨.mk k' l [] :: ms, (Walk.atom k' l).append hwalk,
        fun hms => absurd hms (List.cons_ne_nil _ _), ?_⟩
      intro lo hi h
      exact .cons_code hk (fun _ => by rw [hcs himage]; rfl)
        (fun _ _ h => by rw [hcs himage]; exact h) hlaid h
  | @around k l inside es cs ns _ _ ihc ih =>
    have henter := hes (.enter k l) (List.mem_append_left _ List.mem_cons_self)
    obtain ⟨ms₁, hwalk₁, hnil₁, hlaid₁⟩ := ihc fun e he =>
      hes e (by simp [Event.around, he])
    obtain ⟨ms₂, hwalk₂, hnil₂, hlaid₂⟩ := ih fun e he => hes e (List.mem_append_right _ he)
    rw [List.filterMap_append, Event.filterMap_around]
    cases hk : k.asBlock? with
    | none =>
      refine ⟨ms₁ ++ ms₂, hwalk₁.append hwalk₂, ?_, ?_⟩
      · intro hms
        obtain ⟨h₁, h₂⟩ := List.append_eq_nil_iff.mp hms
        rw [bearsAny, bears, hnil₁ h₁, hnil₂ h₂, Kind.isTextCode_of_none hk]
        simp
      · intro lo hi h
        obtain ⟨mid, h₁, h₂⟩ := h.split
        refine .cons_other hk henter.layer ?_ (hlaid₂ mid hi h₂)
        split
        · exact .nil h₁.le
        · exact hlaid₁ lo mid h₁
    | some k' =>
      exact ⟨.mk k' l ms₁ :: ms₂, .around hwalk₁ hwalk₂,
        fun hms => absurd hms (List.cons_ne_nil _ _),
        fun lo hi h => .cons_code hk hnil₁ hlaid₁ hlaid₂ h⟩

/-- **What is spread is laid out in the tree.** -/
theorem Spread.laid (h : Spread src lo hi es) (hwalk : Walk es ns)
    (hes : ∀ e ∈ es, e.IsInline src) : Laid src false lo hi (Node.raisedEach ns) := by
  obtain ⟨ms, hms, hlaid⟩ := h
  obtain ⟨ms', hms', -, hraised⟩ := hwalk.raised hes
  obtain rfl := hms.unique hms'
  exact hraised lo hi hlaid

/-! ### What a layout tells of code in running text -/

namespace Laid

variable {m n : Node} {p q : List Nat} {s t : Span}

/-- **Code is where it says.** -/
theorem embedded (h : Laid src false lo hi (Node.raisedEach ns)) (hm : Node.among? ns p = some m)
    (hp : Node.InText ns p) (hcode : m.kind.isTextCode = true) : m.kind.Embedded src := by
  obtain ⟨k, hk⟩ := Kind.exists_asBlock? hcode
  have hkind := Node.kind_raised hk
  refine Kind.Exact.embedded hk ?_
  rw [← hkind]
  exact h.exact (Node.among?_raisedEach hm hp hcode) (hkind ▸ Kind.isBlockCode_asBlock? hk)

/-- **Code inside an element is between its tags.** -/
theorem code_inside (h : Laid src false lo hi (Node.raisedEach ns))
    (hm : Node.among? ns p = some m) (hn : Node.among? ns (p ++ q) = some n) (hne : q ≠ [])
    (hp : Node.InText ns (p ++ q)) (hcm : m.kind.isTextCode = true)
    (hcn : n.kind.isTextCode = true) (ht : n.kind.span? = some t) :
    ∃ o c, m.kind = .textElement o.name ⟨o.span.start, c.span.stop⟩ ∧ IsPair src o c ∧
      o.span.stop ≤ t.start ∧ t.stop ≤ c.span.start := by
  obtain ⟨k, hk⟩ := Kind.exists_asBlock? hcm
  obtain ⟨k', hk'⟩ := Kind.exists_asBlock? hcn
  have hkind := Node.kind_raised hk
  have hkind' := Node.kind_raised hk'
  have hm' := Node.among?_raisedEach hm hp.left hcm
  have hn' := Node.among?_raisedEach hn hp hcn
  have hpne : p ≠ [] := by
    rintro rfl
    cases hm
  rw [Node.among?_append hpne, hm', Option.bind_some] at hn'
  have hbelow : Node.among? m.raised.children q = some n.raised := by
    obtain ⟨i, q, rfl⟩ := List.exists_cons_of_ne_nil hne
    exact hn'
  obtain ⟨o, c, hkm, hpair, hle⟩ := h.inside hm' hbelow (hkind ▸ Kind.isBlockCode_asBlock? hk)
    (hkind' ▸ Kind.isBlockCode_asBlock? hk') (by rw [hkind', Kind.span?_asBlock? hk', ht])
  refine ⟨o, c, ?_, hpair, hle⟩
  rw [← hkind, hkm] at hk
  cases hmk : m.kind <;> rw [hmk] at hk <;> cases hk
  rfl

/-- **Code that is not inside an element comes after it**, if it is reported later. -/
theorem code_before (h : Laid src false lo hi (Node.raisedEach ns))
    (hm : Node.among? ns p = some m) (hn : Node.among? ns q = some n) (hpq : p < q)
    (hno : ¬ p <+: q) (hp : Node.InText ns p) (hq : Node.InText ns q)
    (hcm : m.kind.isTextCode = true) (hcn : n.kind.isTextCode = true)
    (hs : m.kind.span? = some s) (ht : n.kind.span? = some t) : s.stop ≤ t.start := by
  obtain ⟨k, hk⟩ := Kind.exists_asBlock? hcm
  obtain ⟨k', hk'⟩ := Kind.exists_asBlock? hcn
  have hkind := Node.kind_raised hk
  have hkind' := Node.kind_raised hk'
  refine h.before (Node.among?_raisedEach hm hp hcm) (Node.among?_raisedEach hn hq hcn) hpq hno
    (hkind ▸ Kind.isBlockCode_asBlock? hk) (hkind' ▸ Kind.isBlockCode_asBlock? hk') ?_ ?_
  · rw [hkind, Kind.span?_asBlock? hk, hs]
  · rw [hkind', Kind.span?_asBlock? hk', ht]

end Laid

end MdxProse
