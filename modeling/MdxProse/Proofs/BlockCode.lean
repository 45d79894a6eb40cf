import MdxProse.Proofs.DocumentTree

/-!
# The spans of block code

The layout of a document, read off its tree.

* `span_exact_of_isBlockCode`: **the span of block code covers exactly the statement, the
  expression or the element** that the node stands for, at any depth.
* `spans_laminar_of_isBlockCode`: **of two pieces of block code, one is the content of the other or
  comes before it**, and which one is told by their paths.
-/

namespace MdxProse

/-- What the span of block code has to cover. -/
def Kind.Covers (src : Source) : Kind → Prop
  | .esm content s => content = src.cover s ∧ IsStatement src s
  | .flowExpression content s => content = src.cover s ∧
    Expression.stop? src s.start src.size = some s.stop
  | .flowElement name s => ∃ t, Tag.scan? src s.start src.size = some t ∧ t.form ≠ .closing ∧
    t.name = name ∧
    (t.form = .selfClosing ∧ t.span.stop = s.stop ∨
      ∃ pos c, t.span.stop ≤ pos ∧ Tag.scan? src pos src.size = some c ∧ c.form = .closing ∧
        c.name = name ∧ c.span.stop = s.stop)
  | _ => True

theorem Kind.Exact.covers {src : Source} {k : Kind} (h : k.Exact src) : k.Covers src := by
  cases h with
  | statement h => exact ⟨rfl, h⟩
  | expression h => exact ⟨rfl, h⟩
  | single h => exact ⟨_, h.scan, by simp [h.form], rfl, .inl ⟨h.form, rfl⟩⟩
  | pair h =>
    exact ⟨_, h.opener, by simp [h.opening], rfl,
      .inr ⟨_, _, h.le, h.closer, h.closing, h.name, rfl⟩⟩

theorem Kind.Exact.exists_span {src : Source} {k : Kind} (h : k.Exact src) :
    ∃ s, k.span? = some s := by
  cases h with
  | statement | expression | single | pair => exact ⟨_, rfl⟩

/-- **The span of block code covers exactly what the node stands for.**  It is not empty and stays
in the text; a module statement is a child of the root. -/
theorem span_exact_of_isBlockCode (text : String) {root n : Node} {p : List Nat}
    (h : (Document.ofString text).read = .ok root) (hn : root.at? p = some n)
    (hb : n.kind.isBlockCode = true) :
    (∃ s, n.kind.span? = some s ∧ s.start < s.stop ∧
      s.stop ≤ (Document.ofString text).source.size) ∧
    n.kind.Covers (Document.ofString text).source ∧
    (n.type = .esm → p.length = 1) := by
  obtain ⟨-, ns, rfl, hlaid⟩ := Document.read_spec h
  have hn := Node.among?_of_isBlockCode hn hb
  have hexact := hlaid.exact hn hb
  obtain ⟨s, hs⟩ := hexact.exists_span
  refine ⟨⟨s, hs, hexact.bounds hs⟩, hexact.covers, fun htype => ?_⟩
  obtain ⟨c, s', hk⟩ : ∃ c s', n.kind = .esm c s' := by
    rw [Node.type] at htype
    cases hk : n.kind <;> rw [hk] at htype <;> first | exact ⟨_, _, rfl⟩ | cases htype
  exact (hlaid.top_of_esm hn hk).2

/-- An expression in a quote in an element in a list. -/
theorem span_exact_of_isBlockCode_nested :
    ∃ root n, (Document.ofString "import a\n\n- <A>\n  > {y}\n  </A> <B/>\n").read = .ok root ∧
      root.at? [1, 0, 0, 0, 0] = some n ∧ n.kind = .flowExpression "{y}" ⟨20, 23⟩ ∧
      n.kind.Covers (Document.ofString "import a\n\n- <A>\n  > {y}\n  </A> <B/>\n").source := by
  have hkind : (Document.ofString "import a\n\n- <A>\n  > {y}\n  </A> <B/>\n").kind?
      [1, 0, 0, 0, 0] = some (.flowExpression "{y}" ⟨20, 23⟩) := by
    decide +kernel
  obtain ⟨root, n, hr, hn, hk⟩ := Document.exists_of_kind? hkind
  exact ⟨root, n, hr, hn, hk, (span_exact_of_isBlockCode _ hr hn (by rw [hk]; rfl)).2.1⟩

/-- **Of two pieces of block code, one is the content of the other or comes before it.**  The path
`p` comes before `q` in the order in which nodes are entered; the second node is below the first
one if its path goes on from there. -/
theorem spans_laminar_of_isBlockCode (text : String) {root m n : Node} {p q : List Nat}
    {s t : Span} (h : (Document.ofString text).read = .ok root) (hm : root.at? p = some m)
    (hn : root.at? q = some n) (hpq : p < q) (hbm : m.kind.isBlockCode = true)
    (hbn : n.kind.isBlockCode = true) (hs : m.kind.span? = some s) (ht : n.kind.span? = some t) :
    (p <+: q → ∃ o c, IsPair (Document.ofString text).source o c ∧
      m.kind = .flowElement o.name s ∧ o.span.start = s.start ∧ c.span.stop = s.stop ∧
      o.span.stop ≤ t.start ∧ t.stop ≤ c.span.start) ∧
    (¬ p <+: q → s.stop ≤ t.start) ∧
    ∀ i, s.start ≤ i → i < s.stop → t.start ≤ i → i < t.stop → p <+: q := by
  obtain ⟨-, ns, rfl, hlaid⟩ := Document.read_spec h
  have hm' := Node.among?_of_isBlockCode hm hbm
  have hn' := Node.among?_of_isBlockCode hn hbn
  have hbefore := fun hno => hlaid.before hm' hn' hpq hno hbm hbn hs ht
  refine ⟨?_, hbefore, fun i _ hi hti _ => ?_⟩
  · rintro ⟨q', rfl⟩
    rw [Node.at?_append, hm, Option.bind_some] at hn
    have hq : Node.among? m.children q' = some n := by
      cases q' with
      | nil =>
        rw [List.append_nil] at hpq
        exact absurd hpq (List.lt_irrefl p)
      | cons i q' => exact hn
    obtain ⟨o, c, hk, hpair, hle⟩ := hlaid.inside hm' hq hbm hbn ht
    rw [hk] at hs
    cases hs
    exact ⟨o, c, hpair, hk, rfl, rfl, hle⟩
  · apply Decidable.byContradiction
    intro hno
    have := hbefore hno
    omega

/-- An element in a list, and an expression in a quote inside it. -/
theorem spans_laminar_of_isBlockCode_nested :
    ∃ root m n o c, (Document.ofString "- <A>\n  > {y}\n  </A> <B/>\n").read = .ok root ∧
      root.at? [0, 0, 0] = some m ∧ root.at? [0, 0, 0, 0, 0] = some n ∧
      n.kind = .flowExpression "{y}" ⟨10, 13⟩ ∧ m.kind = .flowElement o.name ⟨2, 20⟩ ∧
      IsPair (Document.ofString "- <A>\n  > {y}\n  </A> <B/>\n").source o c ∧
      o.span.stop ≤ 10 ∧ 13 ≤ c.span.start := by
  have hm : (Document.ofString "- <A>\n  > {y}\n  </A> <B/>\n").kind? [0, 0, 0] =
      some (.flowElement (some "A") ⟨2, 20⟩) := by
    decide +kernel
  have hn : (Document.ofString "- <A>\n  > {y}\n  </A> <B/>\n").kind? [0, 0, 0, 0, 0] =
      some (.flowExpression "{y}" ⟨10, 13⟩) := by
    decide +kernel
  obtain ⟨root, m, hr, hm, hkm⟩ := Document.exists_of_kind? hm
  obtain ⟨root', n, hr', hn, hkn⟩ := Document.exists_of_kind? hn
  cases hr.symm.trans hr'
  obtain ⟨o, c, hpair, hk, -, -, hle⟩ :=
    (spans_laminar_of_isBlockCode _ hr hm hn (by decide) (by rw [hkm]; rfl) (by rw [hkn]; rfl)
      (by rw [hkm]; rfl) (by rw [hkn]; rfl)).1 (by decide)
  exact ⟨root, m, n, o, c, hr, hm, hn, hkn, hk, hpair, hle⟩

end MdxProse
