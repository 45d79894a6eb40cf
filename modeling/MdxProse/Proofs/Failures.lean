import MdxProse.Program
import MdxProse.Proofs.TextSpans

/-!
# How conversions fail

A conversion fails with what is wrong with the text, or else because the span of a node that is
rendered ends before it starts.

* `Node.shown`: the nodes that are looked at when a node is rendered.
* `Node.failure?_render`: **rendering fails with the first of them whose span is reversed.**
* `Anchor.Overshoots`: the first character of a text is located behind its last one.
* `unrenderable_iff_overshoots`: **exactly then a conversion fails for another reason than its
  text.**  This takes a line that ends in odd white space.
* `unrenderable_of_blank_line`: a line of one no-break space is enough.
-/

namespace MdxProse

/-! ### The first error -/

section

variable {ε α β : Type} {x : Except ε α} {f : α → Except ε β} {e : Option ε}

/-- Results are compared by what they hold. -/
instance decidableEqResult [DecidableEq ε] [DecidableEq α] : DecidableEq (Except ε α)
  | .ok a, .ok b => decidable_of_iff (a = b) ⟨congrArg Except.ok, Except.ok.inj⟩
  | .error a, .error b => decidable_of_iff (a = b) ⟨congrArg Except.error, Except.error.inj⟩
  | .ok _, .error _ => isFalse nofun
  | .error _, .ok _ => isFalse nofun

/-- The error that a computation ends with, if it does. -/
def failure? : Except ε α → Option ε
  | .ok _ => none
  | .error e => some e

theorem failure?_bind (h : ∀ a, failure? (f a) = e) :
    failure? (x >>= f) = (failure? x).or e := by
  cases x with
  | ok a => exact h a
  | error e' => rfl

theorem failure?_map (g : α → β) : failure? (x.map g) = failure? x := by
  cases x <;> rfl

end

namespace Rendering

theorem failure?_plain (nodes : List Html) : failure? (plain nodes) = none :=
  rfl

theorem failure?_join (rs : List Rendering) : failure? (join rs) = rs.findSome? failure? := by
  induction rs with
  | nil => rfl
  | cons r rs ih =>
    have htail : ∀ a : Rendered, failure? (join rs >>= fun b => pure (a.append b)) =
        rs.findSome? failure? := by
      intro a
      rw [failure?_bind (e := none) fun _ => rfl, Option.or_none, ih]
    rw [join, failure?_bind htail, List.findSome?_cons]
    cases failure? r <;> rfl

theorem failure?_within (tag : String) (attributes : List (String × String)) (r : Rendering) :
    failure? (within tag attributes r) = failure? r := by
  rw [within, failure?_bind (e := none) fun _ => rfl, Option.or_none]

theorem findSome?_itemParts (loose first : Bool) {cs : List Node} {rs : List Rendering}
    (h : rs.length = cs.length) :
    (itemParts loose first cs rs).findSome? failure? = rs.findSome? failure? := by
  induction cs generalizing first rs with
  | nil =>
    cases List.eq_nil_of_length_eq_zero h
    rfl
  | cons c cs ih =>
    cases rs with
    | nil => cases h
    | cons r rs =>
      have hbreak : (if (loose || !first || !isParagraph c) = true then [plain [Html.newline]]
          else []).findSome? failure? = none := by
        split <;> rfl
      rw [itemParts, List.findSome?_append, hbreak, Option.none_or, List.findSome?_cons,
        List.findSome?_cons, ih false (Nat.succ.inj h)]

theorem failure?_item {cs : List Node} {rs : List Rendering} (h : rs.length = cs.length) :
    failure? (item cs rs) = rs.findSome? failure? := by
  have hbreak : ∀ b : Bool, (if b = true then [plain [Html.newline]] else []).findSome? failure? =
      none := by
    intro b
    cases b <;> rfl
  rw [item, failure?_within, failure?_join, List.findSome?_append, findSome?_itemParts _ _ h,
    hbreak, Option.or_none]

end Rendering

/-! ### What is looked at -/

/-- Is the rendering of a node without a handler made of those of its children? -/
def Kind.showsChildren : Kind → Bool
  | .fence .. => false
  | .thematicBreak => false
  | .mathBlock _ => false
  | .labelledMathBlock _ => false
  | .frontMatter _ => false
  | .text _ => false
  | .softBreak => false
  | .hardBreak => false
  | .code _ => false
  | .math _ => false
  | .image .. => false
  | _ => true

theorem Rendering.failure?_usual {n : Node} {rs : List Rendering}
    (h : rs.length = n.children.length) :
    failure? (usual n rs) =
      if n.kind.showsChildren then rs.findSome? failure? else none := by
  obtain ⟨k, l, cs⟩ := n
  cases k with
  | paragraph tight =>
    cases tight with
    | true => exact failure?_join rs
    | false => exact (failure?_within _ _ _).trans (failure?_join rs)
  | listItem => exact failure?_item h
  | _ =>
    simp [usual, Node.kind, Kind.showsChildren, failure?_join, failure?_within, failure?_map,
      failure?_plain]

/-- What is wrong with the span of a node, if it ends before it starts. -/
def Kind.fault? (k : Kind) : Option RenderError :=
  match k.span? with
  | some s => if s.stop < s.start then some (.badSpan (.reversed s.start s.stop)) else none
  | none => none

theorem Kind.fault?_of_none {k : Kind} (h : k.span? = none) : k.fault? = none := by
  rw [fault?, h]

theorem Kind.fault?_of_some {k : Kind} {s : Span} (h : k.span? = some s) :
    k.fault? =
      if s.stop < s.start then some (.badSpan (.reversed s.start s.stop)) else none := by
  rw [fault?, h]

namespace Embedded

variable {d : Document} {components : Option (List String)} {n : Node} {s : Span}

theorem failure?_sourceOf (h : n.kind.span? = some s) :
    failure? (sourceOf d n) = n.kind.fault? := by
  have hsource : sourceOf d n = sourceBetween d n.type.name (some (s.start : Int))
      (some (s.stop : Int)) := by
    rw [sourceOf, h]
    rfl
  rw [hsource, sourceBetween, Kind.fault?_of_some h, Span.ofInts,
    if_neg (Int.not_lt.mpr (Int.natCast_nonneg _))]
  by_cases hlt : s.stop < s.start
  · rw [if_pos (Int.ofNat_lt.mpr hlt), if_pos hlt]
    rfl
  · rw [if_neg (by omega), if_neg hlt]
    rfl

theorem failure?_handleCode (e : Embedded) (r : Rendering) (h : n.kind.span? = some s) :
    failure? (handleCode d e n r) = n.kind.fault? := by
  rw [handleCode, failure?_bind (e := none), failure?_sourceOf h, Option.or_none]
  intro source
  split <;> rfl

theorem failure?_handleElement (e : Embedded) (r : Rendering) (h : n.kind.span? = some s) :
    failure? (handleElement d components e n r) =
      n.kind.fault?.or (if (unwrapped? components n).isSome then failure? r else none) := by
  rw [handleElement, failure?_bind, failure?_sourceOf h]
  intro source
  cases unwrapped? components n with
  | none => rfl
  | some name =>
    show failure? (Rendering.within _ _ r >>= _) = failure? r
    rw [failure?_bind (e := none) fun _ => rfl, Option.or_none, Rendering.failure?_within]

/-- Code is handled, and fails on its own or as what it shows. -/
theorem failure?_handler (r : Rendering) (h : n.kind.span? = some s) :
    ∃ f, handlers d components n.type = some f ∧
      failure? (f n r) =
        n.kind.fault?.or (if (unwrapped? components n).isSome then failure? r else none) := by
  obtain ⟨k, l, cs⟩ := n
  have hcode : k.elementName? = none → unwrapped? components (.mk k l cs) = none := by
    intro hname
    cases components <;> simp [unwrapped?, Node.kind, hname]
  cases k with
  | esm | flowExpression | textExpression =>
    refine ⟨_, rfl, ?_⟩
    rw [hcode rfl]
    exact (failure?_handleCode _ r h).trans (Option.or_none).symm
  | flowElement | textElement => exact ⟨_, rfl, failure?_handleElement _ r h⟩
  | _ => cases h

theorem handlers_eq_none (h : n.kind.span? = none) : handlers d components n.type = none := by
  obtain ⟨k, l, cs⟩ := n
  cases k <;> first | rfl | cases h

end Embedded

namespace Node

variable {components : Option (List String)}

/-- Are the children of a node looked at when it is rendered? -/
def opens (components : Option (List String)) (n : Node) : Bool :=
  match n.kind.span? with
  | some _ => (Embedded.unwrapped? components n).isSome
  | none => n.kind.showsChildren

theorem opens_of_none {n : Node} (h : n.kind.span? = none) :
    n.opens components = n.kind.showsChildren := by
  rw [opens, h]

theorem opens_of_some {n : Node} {s : Span} (h : n.kind.span? = some s) :
    n.opens components = (Embedded.unwrapped? components n).isSome := by
  rw [opens, h]

mutual
/-- The nodes that are looked at when a node is rendered, in the order in which they are: the node,
and what is below it if its children are looked at. -/
def shown (components : Option (List String)) : Node → List Node
  | .mk k l cs =>
    .mk k l cs :: if opens components (.mk k l cs) then shownEach components cs else []
/-- The nodes that are looked at when several nodes are rendered. -/
def shownEach (components : Option (List String)) : List Node → List Node
  | [] => []
  | c :: cs => shown components c ++ shownEach components cs
end

theorem length_renderEach (hs : Handlers) (cs : List Node) :
    (renderEach hs cs).length = cs.length := by
  induction cs with
  | nil => rfl
  | cons c cs ih => rw [renderEach, List.length_cons, List.length_cons, ih]

/-- A node fails on its own, or as its children do if they are looked at. -/
theorem failure?_render_mk (d : Document) (components : Option (List String)) (k : Kind)
    (l : Option LineRange) (cs : List Node) :
    failure? ((mk k l cs).render (Embedded.handlers d components)) =
      k.fault?.or (if opens components (mk k l cs) then
        (renderEach (Embedded.handlers d components) cs).findSome? failure? else none) := by
  rw [render]
  cases hs : (mk k l cs).kind.span? with
  | none =>
    have hnone : Embedded.handlers d components k.type = none := Embedded.handlers_eq_none hs
    rw [opens_of_none hs, Kind.fault?_of_none (k := k) hs, Option.none_or, hnone]
    exact Rendering.failure?_usual (length_renderEach _ cs)
  | some s =>
    obtain ⟨f, hf, hfail⟩ := @Embedded.failure?_handler d components _ _
      (Rendering.join (renderEach (Embedded.handlers d components) cs)) hs
    have hf : Embedded.handlers d components k.type = some f := hf
    rw [opens_of_some hs, ← Rendering.failure?_join, hf]
    exact hfail

mutual
/-- **Rendering fails with the first node that is looked at and whose span is reversed.** -/
theorem failure?_render (d : Document) (components : Option (List String)) :
    (n : Node) → failure? (n.render (Embedded.handlers d components)) =
      (n.shown components).findSome? (·.kind.fault?)
  | .mk k l cs => by
    rw [failure?_render_mk, shown, List.findSome?_cons]
    have hcs := failure?_renderEach d components cs
    cases hk : k.fault? with
    | some e => simp [kind, hk]
    | none =>
      simp only [kind, hk, Option.none_or]
      split
      · exact hcs
      · rfl
theorem failure?_renderEach (d : Document) (components : Option (List String)) :
    (cs : List Node) → (renderEach (Embedded.handlers d components) cs).findSome? failure? =
      (shownEach components cs).findSome? (·.kind.fault?)
  | [] => rfl
  | c :: cs => by
    rw [renderEach, shownEach, List.findSome?_cons, List.findSome?_append,
      failure?_render d components c, failure?_renderEach d components cs]
    cases (c.shown components).findSome? (·.kind.fault?) <;> rfl
end

/-- All nodes above the end of the path are opened. -/
def OpenedTo (components : Option (List String)) (n : Node) (p : List Nat) : Prop :=
  ∀ q a, q <+: p → q ≠ p → n.at? q = some a → a.opens components = true

theorem openedTo_cons {n c : Node} {i : Nat} (hc : n.children[i]? = some c) (p : List Nat) :
    n.OpenedTo components (i :: p) ↔ n.opens components = true ∧ c.OpenedTo components p := by
  constructor
  · intro h
    refine ⟨h [] n List.nil_prefix nofun rfl, fun q a hq hne ha => ?_⟩
    refine h (i :: q) a ((List.prefix_cons_inj i).mpr hq) (by simpa using hne) ?_
    rwa [at?_child hc]
  · rintro ⟨hopens, h⟩ q a hq hne ha
    rcases List.prefix_cons_iff.mp hq with rfl | ⟨q, rfl, hqp⟩
    · cases ha
      exact hopens
    · rw [at?_child hc] at ha
      exact h q a hqp (by simpa using hne) ha

mutual
theorem exists_path_of_mem_shown {m : Node} :
    (n : Node) → m ∈ n.shown components → ∃ p, n.at? p = some m ∧ n.OpenedTo components p
  | .mk k l cs, h => by
    rw [shown, List.mem_cons] at h
    rcases h with rfl | h
    · exact ⟨[], rfl, fun q a hq hne => absurd (List.prefix_nil.mp hq) hne⟩
    · split at h
      · next hopens =>
        obtain ⟨i, c, p, hc, hm, hp⟩ := exists_path_of_mem_shownEach cs h
        have hc : (mk k l cs).children[i]? = some c := hc
        exact ⟨i :: p, by rwa [at?_child hc], (openedTo_cons hc p).mpr ⟨hopens, hp⟩⟩
      · cases h
theorem exists_path_of_mem_shownEach {m : Node} :
    (cs : List Node) → m ∈ shownEach components cs → ∃ (i : Nat) (c : Node) (p : List Nat),
      cs[i]? = some c ∧ c.at? p = some m ∧ c.OpenedTo components p
  | [], h => by cases h
  | c :: cs, h => by
    rw [shownEach, List.mem_append] at h
    rcases h with h | h
    · obtain ⟨p, hm, hp⟩ := exists_path_of_mem_shown c h
      exact ⟨0, c, p, rfl, hm, hp⟩
    · obtain ⟨i, d, p, hd, hm, hp⟩ := exists_path_of_mem_shownEach cs h
      exact ⟨i + 1, d, p, hd, hm, hp⟩
end

theorem mem_shownEach {m : Node} {cs : List Node} :
    m ∈ shownEach components cs ↔ ∃ c ∈ cs, m ∈ c.shown components := by
  induction cs with
  | nil => simp [shownEach]
  | cons c cs ih => simp [shownEach, ih]

/-- **The nodes that are looked at** are those with nothing above them that is not opened. -/
theorem mem_shown_iff {n m : Node} :
    m ∈ n.shown components ↔ ∃ p, n.at? p = some m ∧ n.OpenedTo components p := by
  refine ⟨exists_path_of_mem_shown n, ?_⟩
  rintro ⟨p, hm, hp⟩
  induction p generalizing n with
  | nil =>
    cases hm
    obtain ⟨k, l, cs⟩ := m
    rw [shown]
    exact List.mem_cons_self
  | cons i p ih =>
    obtain ⟨c, hc, hm'⟩ := Option.bind_eq_some_iff.mp hm
    obtain ⟨hopens, hp'⟩ := (openedTo_cons hc p).mp hp
    obtain ⟨k, l, cs⟩ := n
    rw [shown, if_pos hopens]
    exact List.mem_cons_of_mem _ (mem_shownEach.mpr ⟨c, List.mem_of_getElem? hc, ih hm' hp'⟩)

end Node

/-! ### Reversed spans -/

namespace Anchor

/-- The first character of the span of a running text is located behind the last one: its part does
not occur on its line, and so far from the start of the line lies more than the other character. -/
def Overshoots (src content : Source) (first : Nat) (s : Span) : Prop :=
  ∃ a part start line a' part' start' line',
    OnLine src content first s.start a part start line ∧
    OnLine src content first (s.stop - 1) a' part' start' line' ∧
    ¬ part <:+: line ∧ start' + column line' part' + a' + 1 < start + a

theorem Overshoots.lt {src content : Source} {first : Nat} {s : Span}
    (h : Overshoots src content first s) :
    (locateSpan (ofText (lines src) content.toList first) s).stop <
      (locateSpan (ofText (lines src) content.toList first) s).start := by
  obtain ⟨a, part, start, line, a', part', start', line', ho, ho', hin, hlt⟩ := h
  rw [locateSpan, ho.locate_eq, ho'.locate_eq, column_of_not_isInfix hin]
  exact hlt

end Anchor

/-- **A span is reversed in the document exactly if it overshoots.** -/
theorem Running.reversed_iff_overshoots {src content : Source} {first : Nat} {s : Span}
    (h : Running src content.toList first) (hs : s.start < s.stop) (hsize : s.stop ≤ content.size) :
    (Anchor.locateSpan (Anchor.ofText (Anchor.lines src) content.toList first) s).stop <
        (Anchor.locateSpan (Anchor.ofText (Anchor.lines src) content.toList first) s).start ↔
      Anchor.Overshoots src content first s := by
  refine ⟨fun hlt => ?_, Anchor.Overshoots.lt⟩
  obtain ⟨a, part, start, line, ho⟩ := h.exists_onLine (o := s.start) (by omega)
  obtain ⟨a', part', start', line', ho'⟩ := h.exists_onLine (o := s.stop - 1) (by omega)
  have hin : ¬ part <:+: line := by
    intro hin
    have := ho.locate_mono ho' (by omega) hin
    rw [Anchor.locateSpan] at hlt
    dsimp only at hlt
    omega
  rw [Anchor.locateSpan, ho.locate_eq, ho'.locate_eq, Anchor.column_of_not_isInfix hin] at hlt
  exact ⟨a, part, start, line, a', part', start', line', ho, ho', hin, hlt⟩

theorem Running.not_overshoots {src content : Source} {first : Nat} {s : Span}
    (h : Running src content.toList first) (hends : src.EndsPlain Text.isPadding)
    (hs : s.start < s.stop) : ¬ Anchor.Overshoots src content first s := by
  intro hover
  have hlt := hover.lt
  obtain ⟨a, part, start, line, a', part', start', line', ho, ho', -⟩ := hover
  have := ho.locate_le h hends ho' (by omega)
  rw [Anchor.locateSpan] at hlt
  dsimp only at hlt
  omega

theorem Anchor.span?_placeKind {anchors : List Anchor} {k : Kind} {s : Span}
    (h : (placeKind anchors k).span? = some s) (hcode : k.isTextCode = true) :
    ∃ s₀, k.span? = some s₀ ∧ s = locateSpan anchors s₀ := by
  cases k with
  | textExpression | textElement =>
    cases h
    exact ⟨_, rfl, rfl⟩
  | _ => cases hcode

theorem Node.OpenedTo.isImage {components : Option (List String)} {root m : Node} {p : List Nat}
    (h : root.OpenedTo components p) (hm : root.at? p = some m) (hcode : m.kind.isImage = false) :
    ∀ q a, q <+: p → root.at? q = some a → a.kind.isImage = false := by
  intro q a hq ha
  by_cases hqp : q = p
  · subst hqp
    rw [hm] at ha
    cases ha
    exact hcode
  · have hopens := h q a hq hqp ha
    cases hk : a.kind with
    | image =>
      rw [opens_of_none (by rw [hk]; rfl), hk] at hopens
      cases hopens
    | _ => rfl

/-- The span `s` of the node `m` in the tree is that of code in running text, and overshoots. -/
def Node.Overshoots (src : Source) (root m : Node) (s : Span) : Prop :=
  ∃ p content first s₀, root.at? p = some m ∧ root.RunsIn p content first ∧
    m.kind.span? = some s ∧
    s = Anchor.locateSpan (Anchor.ofText (Anchor.lines src) content.toList first) s₀ ∧
    Anchor.Overshoots src content first s₀

theorem Kind.isCode_of_span? {k : Kind} {s : Span} (h : k.span? = some s) :
    k.isBlockCode = true ∨ k.isTextCode = true := by
  cases k with
  | esm | flowExpression | flowElement => exact .inl rfl
  | textExpression | textElement => exact .inr rfl
  | _ => cases h

section

variable {d : Document} {root m : Node} {components : Option (List String)} {s : Span}

/-- A reversed span is that of code in a running text, and has been located in the document. -/
theorem Document.exists_running (h : d.read = .ok root) (hm : m ∈ root.shown components)
    (hs : m.kind.span? = some s) (hlt : s.stop < s.start) :
    ∃ p content first s₀, root.at? p = some m ∧ root.RunsIn p content first ∧
      Running d.source content.toList first ∧ s₀.start < s₀.stop ∧ s₀.stop ≤ content.size ∧
      s = Anchor.locateSpan (Anchor.ofText (Anchor.lines d.source) content.toList first) s₀ := by
  obtain ⟨hproper, ns, rfl, hlaid⟩ := Document.read_spec h
  obtain ⟨p, hm, hopened⟩ := Node.mem_shown_iff.mp hm
  rcases Kind.isCode_of_span? hs with hblock | hcode
  · -- the span of block code is taken from the document itself
    have := (hlaid.exact (Node.among?_of_isBlockCode hm hblock) hblock).bounds hs
    omega
  · have himage : m.kind.isImage = false := by
      cases hk : m.kind <;> first | rfl | (rw [hk] at hcode; cases hcode)
    obtain ⟨q, content, range, cs, hq, hin, hrun, k₀, hinline, hk⟩ :=
      hproper.running_of_isTextCode hm hcode (hopened.isImage hm himage)
    have hcode₀ : k₀.isTextCode = true := by
      rwa [hk, Anchor.isTextCode_placeKind] at hcode
    rw [hk] at hs
    obtain ⟨s₀, hs₀, rfl⟩ := Anchor.span?_placeKind hs hcode₀
    have hbounds := (hinline hcode₀).bounds hs₀
    exact ⟨p, Source.ofString content, range.first, s₀, hm,
      ⟨q, content, range, cs, hq, hin, rfl, rfl⟩, hrun, hbounds.1, hbounds.2, rfl⟩

/-- **A node that is looked at fails exactly if its span overshoots.** -/
theorem Document.fault?_eq_some_iff {e : RenderError} (h : d.read = .ok root)
    (hm : m ∈ root.shown components) :
    m.kind.fault? = some e ↔
      ∃ s, root.Overshoots d.source m s ∧ e = .badSpan (.reversed s.start s.stop) := by
  constructor
  · intro hfault
    cases hs : m.kind.span? with
    | none =>
      rw [Kind.fault?_of_none hs] at hfault
      cases hfault
    | some s =>
      rw [Kind.fault?_of_some hs] at hfault
      split at hfault
      · next hlt =>
        cases hfault
        obtain ⟨p, content, first, s₀, hp, hruns, hrun, hs₀, hsize, rfl⟩ :=
          Document.exists_running h hm hs hlt
        exact ⟨_, ⟨p, content, first, s₀, hp, hruns, hs, rfl,
          (hrun.reversed_iff_overshoots hs₀ hsize).mp hlt⟩, rfl⟩
      · cases hfault
  · rintro ⟨s, ⟨p, content, first, s₀, hp, hruns, hs, rfl, hover⟩, rfl⟩
    rw [Kind.fault?_of_some hs, if_pos hover.lt]

/-- **No node that is looked at fails** if no line ends in odd white space. -/
theorem Document.not_overshoots (h : d.read = .ok root) (hm : m ∈ root.shown components)
    (hends : d.source.EndsPlain Text.isPadding) : ¬ root.Overshoots d.source m s := by
  rintro ⟨p, content, first, s₀, hp, hruns, hs, rfl, hover⟩
  obtain ⟨p', content', first', s₁, hp', hruns', hrun, hs₁, hsize, heq⟩ :=
    Document.exists_running h hm hs hover.lt
  have hlt := hover.lt
  rw [heq] at hlt
  exact hrun.not_overshoots hends hs₁ ((hrun.reversed_iff_overshoots hs₁ hsize).mp hlt)

end

theorem Node.RunsIn.exists_onLine {d : Document} {root : Node} {p : List Nat} {content : Source}
    {first o : Nat} (hruns : root.RunsIn p content first) (h : d.read = .ok root)
    (ho : o ≤ content.size) :
    ∃ a part start line, Anchor.OnLine d.source content first o a part start line := by
  obtain ⟨q, text, range, cs, -, hin, rfl, rfl⟩ := hruns
  have hrun : Running d.source (Source.ofString text).toList range.first :=
    (Document.read_spec h).1.running_of_inline hin
  exact hrun.exists_onLine ho

/-! ### Conversions -/

theorem Node.failure?_renderRoot (d : Document) (components : Option (List String))
    (ns : List Node) :
    failure? ((mk .root none ns).renderRoot (Embedded.handlers d components)) =
      ((mk .root none ns).shown components).findSome? (·.kind.fault?) := by
  rw [renderRoot, failure?_bind (e := none) fun _ => rfl, Option.or_none, Rendering.failure?_join]
  exact failure?_renderEach d components ns

theorem Document.render_eq_unrenderable_iff {d : Document} {components : Option (List String)}
    {e : RenderError} :
    d.render components = .error (.unrenderable e) ↔ ∃ root, d.read = .ok root ∧
      (root.shown components).findSome? (·.kind.fault?) = some e := by
  rw [render]
  cases h : d.read with
  | error e' => exact ⟨nofun, fun ⟨_, h, _⟩ => nomatch h⟩
  | ok root =>
    obtain ⟨-, ns, rfl, -⟩ := Document.read_spec h
    have hfail := Node.failure?_renderRoot d components ns
    show ((Node.mk .root none ns).renderRoot _).mapError _ = _ ↔ _
    cases hr : (Node.mk .root none ns).renderRoot (Embedded.handlers d components) with
    | error e' =>
      rw [hr] at hfail
      show Except.error (ConversionError.unrenderable e') = _ ↔ _
      simp [← hfail, failure?]
    | ok r =>
      rw [hr] at hfail
      show Except.ok r = _ ↔ _
      simp [← hfail, failure?]

theorem convert_html_eq_error_iff {text : String} {framework : Option String}
    {settings : Settings} {e : ConversionError} :
    (convert text framework settings).html = .error e ↔
      (Document.ofString text).render
        ((Document.ofString text).components? (framework.or settings.framework)) = .error e := by
  rw [convert, Document.convert]
  cases (Document.ofString text).render
    ((Document.ofString text).components? (framework.or settings.framework)) with
  | error e' => simp
  | ok r => simp

theorem Program.convert_spec (text : String) (framework : Option String) (settings : Settings) :
    ((convert text framework settings).status = 0 ∨
        (convert text framework settings).status = 1) ∧
      ∀ e, (convert text framework settings).uncaught = some e ↔
        (MdxProse.convert text framework settings).html = .error (.unrenderable e) := by
  rw [convert]
  cases (MdxProse.convert text framework settings).html with
  | ok html => simp
  | error e =>
    cases e with
    | invalid e => simp [failing, Report.exitCode]
    | unrenderable e => simp

/-- A program that is to convert a text ends with the outcome of the conversion, but for the log. -/
theorem Program.run_spec {s : Surroundings} {args : List String} {o : Options} {text : String}
    (hargs : Options.ofArguments args = .ok (.convert o)) (htext : Program.text s o = .ok text)
    (hlevel : (level? o (Settings.ofVariables s.environment)).isSome = true) :
    ∃ out, run s args = some out ∧ (out.status = 0 ∨ out.status = 1) ∧
      ∀ e, out.uncaught = some e ↔ (MdxProse.convert text o.framework
        (Settings.ofVariables s.environment)).html = .error (.unrenderable e) := by
  obtain ⟨hstatus, huncaught⟩ :=
    convert_spec text o.framework (Settings.ofVariables s.environment)
  obtain ⟨level, hlevel⟩ := Option.isSome_iff_exists.mp hlevel
  rw [run, hargs]
  simp only [runWith, hlevel, htext, Option.map_some]
  split
  · exact ⟨_, rfl, hstatus, huncaught⟩
  · exact ⟨_, rfl, hstatus, huncaught⟩

theorem Document.findSome?_fault?_iff {d : Document} {root : Node}
    {components : Option (List String)} {e : RenderError} (h : d.read = .ok root) :
    (root.shown components).findSome? (·.kind.fault?) = some e ↔
      ∃ before m after s, root.shown components = before ++ m :: after ∧
        (∀ b ∈ before, ∀ t, ¬ root.Overshoots d.source b t) ∧ root.Overshoots d.source m s ∧
        e = .badSpan (.reversed s.start s.stop) := by
  have hfault : ∀ n ∈ root.shown components, ∀ e, n.kind.fault? = some e ↔
      ∃ s, root.Overshoots d.source n s ∧ e = .badSpan (.reversed s.start s.stop) :=
    fun n hn e => fault?_eq_some_iff h hn
  rw [List.findSome?_eq_some_iff]
  constructor
  · rintro ⟨before, m, after, hshown, hm, hbefore⟩
    rw [hshown] at hfault
    obtain ⟨s, hover, rfl⟩ := (hfault m (by simp) _).mp hm
    refine ⟨before, m, after, s, hshown, fun b hb t ht => ?_, hover, rfl⟩
    have := (hfault b (by simp [hb]) _).mpr ⟨t, ht, rfl⟩
    rw [hbefore b hb] at this
    cases this
  · rintro ⟨before, m, after, s, hshown, hbefore, hover, rfl⟩
    rw [hshown] at hfault
    refine ⟨before, m, after, hshown, (hfault m (by simp) _).mpr ⟨s, hover, rfl⟩,
      fun b hb => ?_⟩
    apply Option.eq_none_iff_forall_ne_some.mpr
    intro e he
    obtain ⟨t, ht, -⟩ := (hfault b (by simp [hb]) _).mp he
    exact hbefore b hb t ht

theorem convert_html_eq_unrenderable_iff (text : String) (framework : Option String)
    (settings : Settings) (e : RenderError) :
    (convert text framework settings).html = .error (.unrenderable e) ↔
      ∃ root before m after s, (Document.ofString text).read = .ok root ∧
        root.shown ((Document.ofString text).components? (framework.or settings.framework)) =
          before ++ m :: after ∧
        (∀ b ∈ before, ∀ t, ¬ root.Overshoots (Document.ofString text).source b t) ∧
        root.Overshoots (Document.ofString text).source m s ∧
        e = .badSpan (.reversed s.start s.stop) := by
  rw [convert_html_eq_error_iff, Document.render_eq_unrenderable_iff]
  constructor
  · rintro ⟨root, hroot, hfirst⟩
    obtain ⟨before, m, after, s, hrest⟩ := (Document.findSome?_fault?_iff hroot).mp hfirst
    exact ⟨root, before, m, after, s, hroot, hrest⟩
  · rintro ⟨root, before, m, after, s, hroot, hrest⟩
    exact ⟨root, hroot, (Document.findSome?_fault?_iff hroot).mpr ⟨before, m, after, s, hrest⟩⟩

/-- **A conversion fails for another reason than its text exactly if a span overshoots** among the
nodes that are looked at; the first one that does is reported.  Every offset of a running text is
looked up on some line, and no span overshoots where no line ends in odd white space.  The program
ends with 0 or 1 then, and otherwise meets that error. -/
theorem unrenderable_iff_overshoots (text : String) (framework : Option String)
    (settings : Settings) :
    (∀ e, (convert text framework settings).html = .error (.unrenderable e) ↔
      ∃ root before m after s, (Document.ofString text).read = .ok root ∧
        root.shown ((Document.ofString text).components? (framework.or settings.framework)) =
          before ++ m :: after ∧
        (∀ b ∈ before, ∀ t, ¬ root.Overshoots (Document.ofString text).source b t) ∧
        root.Overshoots (Document.ofString text).source m s ∧
        e = .badSpan (.reversed s.start s.stop)) ∧
    (∀ root p content first o, (Document.ofString text).read = .ok root →
      root.RunsIn p content first → o ≤ content.size → ∃ a part start line,
        Anchor.OnLine (Document.ofString text).source content first o a part start line) ∧
    ((Document.ofString text).source.EndsPlain Text.isPadding →
      ∀ e, (convert text framework settings).html ≠ .error (.unrenderable e)) ∧
    ∀ s args o, Options.ofArguments args = .ok (.convert o) → Program.text s o = .ok text →
      (Program.level? o (Settings.ofVariables s.environment)).isSome = true →
      o.framework = framework → Settings.ofVariables s.environment = settings →
      ∃ out, Program.run s args = some out ∧ (out.status = 0 ∨ out.status = 1) ∧
        ∀ e, out.uncaught = some e ↔
          (convert text framework settings).html = .error (.unrenderable e) := by
  have hiff := fun e => convert_html_eq_unrenderable_iff text framework settings e
  refine ⟨hiff, fun root p content first o hroot hruns ho => hruns.exists_onLine hroot ho,
    fun hends e he => ?_, ?_⟩
  · obtain ⟨root, before, m, after, s, hroot, hshown, -, hover, -⟩ := (hiff e).mp he
    have hm : m ∈ root.shown _ := hshown ▸ List.mem_append_right before List.mem_cons_self
    exact Document.not_overshoots hroot hm hends hover
  · rintro s args o hargs htext hlevel rfl rfl
    exact Program.run_spec hargs htext hlevel

/-- A text without odd white space is converted, and so the program says. -/
theorem unrenderable_iff_overshoots_plain :
    (Document.ofString "a\n\nb {c}").source.EndsPlain Text.isPadding ∧
      ∃ out, Program.run ⟨[], "a\n\nb {c}", fun _ => none⟩ [] = some out ∧
        (out.status = 0 ∨ out.status = 1) ∧ out.uncaught = none := by
  have hends : (Document.ofString "a\n\nb {c}").source.EndsPlain Text.isPadding := by
    decide +kernel
  obtain ⟨-, -, hplain, hprogram⟩ :=
    unrenderable_iff_overshoots "a\n\nb {c}" none (Settings.ofVariables [])
  obtain ⟨out, hout, hstatus, huncaught⟩ :=
    hprogram ⟨[], "a\n\nb {c}", fun _ => none⟩ [] Options.none rfl (by decide +kernel)
      (by decide +kernel) rfl rfl
  refine ⟨hends, out, hout, hstatus, ?_⟩
  apply Option.eq_none_iff_forall_ne_some.mpr
  intro e he
  exact hplain hends e ((huncaught e).mp he)

/-- **A line of one no-break space makes a span overshoot**: the running text is trimmed to start on
the next line, but is still looked up from that line on. -/
theorem unrenderable_of_blank_line :
    (convert "\u00a0\nabcd\x7b\n\x7d" none (Settings.ofVariables [])).html =
      .error (.unrenderable (.badSpan (.reversed 4 3))) := by
  decide +kernel

end MdxProse
