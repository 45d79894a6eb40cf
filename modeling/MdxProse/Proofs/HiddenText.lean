import MdxProse.Proofs.CommentEnds
import MdxProse.Proofs.Unwrapping

/-!
# What comments hide

Flow expressions between comment marks, and front matter, are rendered as comments.  A comment is
written with its text as it is, so what it hides may end it.

* `Html.comments`: the comments of an HTML tree.  `Node.hidden?`: the text that a node hides, and
  `Node.comment?`: the comment that hides it.
* `commentsAll_renderRoot`: **the comments of a rendering are those of the visible nodes**, in their
  order.
* `comment_leaks_iff`: **a comment of a conversion leaks if and only if a text leaks that a visible
  node hides**, and HTML cuts a comment short if and only if a visible node hides a text with which
  it does.
* `comment_leaks_arrow`: an arrow in a comment is enough.
-/

namespace MdxProse

/-! ### Comments -/

namespace Html

/-- The comment that a node is, if it is one. -/
def comment? : Html → Option String
  | .comment value => some value
  | _ => none

mutual
/-- The comments from a node down, in the order in which they are written. -/
def comments : Html → List String
  | .element _ _ children => commentsAll children
  | .text _ => []
  | .comment value => [value]
/-- The comments from several nodes down. -/
def commentsAll : List Html → List String
  | [] => []
  | n :: ns => comments n ++ commentsAll ns
end

mutual
theorem comments_eq_filterMap (parent : Option String) :
    (n : Html) → n.comments = (n.marked parent).filterMap fun m => m.2.comment?
  | .element tag attributes children => by
    rw [comments, marked, List.filterMap_append, ← commentsAll_eq_filterMap (some tag) children]
    split <;> rfl
  | .text _ => rfl
  | .comment _ => rfl
theorem commentsAll_eq_filterMap (parent : Option String) :
    (ns : List Html) → commentsAll ns = (markedAll parent ns).filterMap fun m => m.2.comment?
  | [] => rfl
  | n :: ns => by
    rw [commentsAll, markedAll, List.filterMap_append, ← comments_eq_filterMap parent n,
      ← commentsAll_eq_filterMap parent ns]
end

end Html

theorem infix_append_cons_iff {α : Type} {needle a b : List α} {sep : α} (h : sep ∉ needle) :
    needle <:+: a ++ sep :: b ↔ needle <:+: a ∨ needle <:+: b := by
  constructor
  · rintro ⟨u, v, huv⟩
    rw [List.append_assoc] at huv
    rcases List.append_eq_append_iff.mp huv with ⟨a', rfl, hrest⟩ | ⟨u', rfl, hrest⟩
    · left
      rcases List.append_eq_append_iff.mp hrest with ⟨a'', rfl, -⟩ | ⟨w, rfl, hw⟩
      · exact ⟨u, a'', by rw [List.append_assoc]⟩
      · cases w with
        | nil => exact ⟨u, [], by simp⟩
        | cons c w =>
          have hc : sep = c := (List.cons.inj hw).1
          exact absurd (List.mem_append_right a' (hc ▸ List.mem_cons_self)) h
    · right
      cases u' with
      | nil =>
        cases needle with
        | nil => exact List.nil_infix
        | cons c needle =>
          have hc : sep = c := (List.cons.inj hrest).1
          exact absurd (hc ▸ List.mem_cons_self) h
      | cons c u' =>
        have hb : b = u' ++ (needle ++ v) := (List.cons.inj hrest).2
        exact ⟨u', v, by rw [hb, List.append_assoc]⟩
  · rintro (h | h)
    · exact h.trans (List.prefix_append _ _).isInfix
    · exact h.trans ⟨a ++ [sep], [], by simp⟩

/-! ### Hidden text -/

namespace Node

variable {d : Document} {components : Option (List String)}

/-- The text that a node hides: what stands between the marks of a comment or of front matter. -/
def hidden? (d : Document) (n : Node) : Option String :=
  match n.kind with
  | .flowExpression _ s =>
    if Embedded.isComment (d.source.cover s) then some (Embedded.commentText (d.source.cover s))
    else none
  | .frontMatter content => some content
  | _ => none

/-- The comment that hides the text; around front matter it keeps the marks. -/
def comment? (d : Document) (n : Node) : Option String :=
  (n.hidden? d).map fun text =>
    if n.type = .frontMatter then "---\n" ++ text ++ "\n---" else text

/-- HTML cuts the comment short that hides the text of the node.  The comment around front matter
starts with the marks of that, so it is cut short only inside. -/
def IsCut (d : Document) (n : Node) : Prop :=
  ∃ text ∈ n.hidden? d, if n.type = .frontMatter then Html.HoldsEnd text else Html.CutShort text

/-- The marks of front matter are no part of a mark that ends comments. -/
theorem infix_frontMatter {m : List Char} (hm : m ∈ Html.endMarks) (content : String) :
    m <:+: ("---\n" ++ content ++ "\n---").toList ↔ m <:+: content.toList := by
  have hlist : ("---\n" ++ content ++ "\n---").toList =
      "---".toList ++ '\n' :: (content.toList ++ '\n' :: "---".toList) := by
    simp
  obtain ⟨hbreak, hmark⟩ : '\n' ∉ m ∧ ¬ m <:+: "---".toList :=
    (by decide : ∀ m ∈ Html.endMarks, '\n' ∉ m ∧ ¬ m <:+: "---".toList) m hm
  rw [hlist, infix_append_cons_iff hbreak, infix_append_cons_iff hbreak, or_iff_right hmark,
    or_iff_left hmark]

theorem leaks_frontMatter (content : String) :
    Html.Leaks ("---\n" ++ content ++ "\n---") ↔ Html.Leaks content :=
  infix_frontMatter List.mem_cons_self content

theorem cutShort_frontMatter (content : String) :
    Html.CutShort ("---\n" ++ content ++ "\n---") ↔ Html.HoldsEnd content := by
  have hstart : ¬ ∃ m ∈ Html.startMarks, m <+: ("---\n" ++ content ++ "\n---").toList := by
    simp [Html.startMarks]
  rw [Html.CutShort, or_iff_left hstart]
  exact exists_congr fun m => and_congr_right fun hm => infix_frontMatter hm content

theorem leaks_comment?_iff (n : Node) :
    (∃ value ∈ n.comment? d, Html.Leaks value) ↔ ∃ text ∈ n.hidden? d, Html.Leaks text := by
  rw [comment?]
  cases n.hidden? d with
  | none => simp
  | some text =>
    by_cases htype : n.type = .frontMatter
    · simp [htype, leaks_frontMatter]
    · simp [htype]

theorem cutShort_comment?_iff (n : Node) :
    (∃ value ∈ n.comment? d, Html.CutShort value) ↔ n.IsCut d := by
  rw [comment?, IsCut]
  cases n.hidden? d with
  | none => simp
  | some text =>
    by_cases htype : n.type = .frontMatter
    · simp [htype, cutShort_frontMatter]
    · simp [htype]

end Node

/-- **A node is shown by a comment if and only if it hides a text**, and that is the comment. -/
theorem Shows.comment?_eq {d : Document} {components : Option (List String)} {n : Node}
    {parent : Option String} {m : Html} (h : Shows d components n parent m) :
    m.comment? = n.comment? d := by
  obtain ⟨k, l, cs⟩ := n
  cases h with
  | unwrapped hprose htype _ =>
    obtain ⟨_, -, hname, -⟩ := Embedded.unwrapped?_eq_some_iff.mp hprose
    cases k <;> first | rfl | cases hname
  | code _ htype hs _ hcode _ =>
    cases k with
    | flowExpression content s =>
      cases hs
      simp [Html.comment?, Node.comment?, Node.hidden?, Node.kind, hcode rfl]
    | _ => first | rfl | cases hs
  | comment hk _ hcomment =>
    cases hk
    simp [Html.comment?, Node.comment?, Node.hidden?, Node.kind, Node.type, Kind.type, hcomment]
  | frontMatter hk =>
    cases hk
    rfl

/-- **The comments of a rendering are those of the visible nodes**, in their order. -/
theorem commentsAll_renderRoot {d : Document} {components : Option (List String)} {root : Node}
    {x : Rendered} (hroot : d.read = .ok root)
    (hx : root.renderRoot (Embedded.handlers d components) = .ok x) :
    Html.commentsAll x.nodes = (root.visible components).filterMap (Node.comment? d) := by
  obtain ⟨hproper, ns, rfl, -⟩ := Document.read_spec hroot
  obtain ⟨-, hcs⟩ := hproper.fits
  rw [Node.renderRoot, Except.bind_eq_ok] at hx
  obtain ⟨y, hy, hx⟩ := hx
  cases hx
  have hnone : (none : Option String) ≠ some "pre" := (Option.some_ne_none _).symm
  have hshown := Node.areShown_renderEach ns (hcs rfl) hnone hy
  show Html.commentsAll (Html.separate y.nodes) =
    (Node.visibleEach components ns).filterMap (Node.comment? d)
  rw [Html.commentsAll_eq_filterMap none, Html.markedAll_separate]
  generalize Node.visibleEach components ns = shown at hshown
  generalize Html.markedAll none y.nodes = marked at hshown
  induction hshown with
  | nil => rfl
  | cons hm _ ih => rw [List.filterMap_cons, List.filterMap_cons, hm.comment?_eq, ih]

theorem exists_mem_filterMap_iff {α β : Type} {f : α → Option β} {p : β → Prop} {l : List α} :
    (∃ b ∈ l.filterMap f, p b) ↔ ∃ a ∈ l, ∃ b ∈ f a, p b := by
  simp only [List.mem_filterMap]
  constructor
  · rintro ⟨b, ⟨a, ha, hb⟩, hp⟩
    exact ⟨a, ha, b, hb, hp⟩
  · rintro ⟨a, ha, b, hb, hp⟩
    exact ⟨b, ⟨a, ha, hb⟩, hp⟩

theorem exists_of_convert_html {text : String} {framework : Option String} {settings : Settings}
    {html : String} (h : (convert text framework settings).html = .ok html) : ∃ root x,
      (Document.ofString text).read = .ok root ∧
      root.renderRoot (Embedded.handlers (Document.ofString text)
        ((Document.ofString text).components? (framework.or settings.framework))) = .ok x ∧
      html = Html.writeAll x.nodes := by
  rw [convert, Document.convert] at h
  generalize (Document.ofString text).components? (framework.or settings.framework) = components
    at *
  cases hr : (Document.ofString text).render components with
  | error e =>
    rw [hr] at h
    cases h
  | ok x =>
    rw [hr] at h
    cases h
    rw [Document.render, Except.bind_eq_ok] at hr
    obtain ⟨root, hroot, hx⟩ := hr
    cases hread : (Document.ofString text).read with
    | error e =>
      rw [hread] at hroot
      cases hroot
    | ok root' =>
      rw [hread] at hroot
      cases hroot
      cases hrender : root.renderRoot (Embedded.handlers (Document.ofString text) components) with
      | error e =>
        rw [hrender] at hx
        cases hx
      | ok x' =>
        rw [hrender] at hx
        cases hx
        exact ⟨root, x, rfl, hrender, rfl⟩

/-- **A comment leaks if and only if a visible node hides a text that does.**  The comments of a
conversion are those of the flow expressions between comment marks, and of front matter, among the
visible nodes.  The first `-->` after the start of a comment is the one that is written for it if
the comment does not leak, and only then; HTML, which knows more marks, takes all of its text for
the comment if none of them cuts it short, and only then. -/
theorem comment_leaks_iff {text : String} {framework : Option String} {settings : Settings}
    {html : String} (h : (convert text framework settings).html = .ok html) : ∃ components root x,
      components = (Document.ofString text).components? (framework.or settings.framework) ∧
      (Document.ofString text).read = .ok root ∧
      root.renderRoot (Embedded.handlers (Document.ofString text) components) = .ok x ∧
      html = Html.writeAll x.nodes ∧
      Html.commentsAll x.nodes =
        (root.visible components).filterMap (Node.comment? (Document.ofString text)) ∧
      (∀ value ∈ Html.commentsAll x.nodes, (Html.EndsItself value ↔ ¬ Html.Leaks value) ∧
        (Html.ReadsWhole value ↔ ¬ Html.CutShort value)) ∧
      ((∃ value ∈ Html.commentsAll x.nodes, Html.Leaks value) ↔
        ∃ n ∈ root.visible components, ∃ hidden ∈ n.hidden? (Document.ofString text),
          Html.Leaks hidden) ∧
      ((∃ value ∈ Html.commentsAll x.nodes, Html.CutShort value) ↔
        ∃ n ∈ root.visible components, n.IsCut (Document.ofString text)) := by
  obtain ⟨root, x, hroot, hx, hhtml⟩ := exists_of_convert_html h
  have hcomments := commentsAll_renderRoot hroot hx
  refine ⟨_, root, x, rfl, hroot, hx, hhtml, hcomments,
    fun value _ => ⟨Html.endsItself_iff value, Html.readsWhole_iff value⟩, ?_, ?_⟩
  · simp only [← Node.leaks_comment?_iff, hcomments]
    exact exists_mem_filterMap_iff
  · simp only [← Node.cutShort_comment?_iff, hcomments]
    exact exists_mem_filterMap_iff

/-- Front matter, and an expression between comment marks in an element. -/
theorem comment_leaks_iff_nested :
    ∃ (text html : String) (root : Node) (x : Rendered),
      (convert text none ⟨some "starlight", "WARNING"⟩).html = .ok html ∧
      (Document.ofString text).read = .ok root ∧ html = Html.writeAll x.nodes ∧
      ((∃ value ∈ Html.commentsAll x.nodes, Html.Leaks value) ↔
        ∃ n ∈ root.visible (some Framework.starlight.components),
          ∃ hidden ∈ n.hidden? (Document.ofString text), Html.Leaks hidden) ∧
      ((∃ value ∈ Html.commentsAll x.nodes, Html.CutShort value) ↔
        ∃ n ∈ root.visible (some Framework.starlight.components),
          n.IsCut (Document.ofString text)) := by
  let text := "---\na: b\n---\n<Card>\n\x7b/* c */\x7d\n</Card>"
  let card := "<div class=\"mdxNode mdxJsxFlowElement\" data-component=\"Card\"><!-- c --></div>"
  have h : (convert text none ⟨some "starlight", "WARNING"⟩).html =
      .ok ("<!-----\na: b\n----->\n" ++ card) := by decide +kernel
  have hchoice : (Document.ofString text).components? (some "starlight") =
      some Framework.starlight.components := by decide +kernel
  obtain ⟨components, root, x, hcomponents, hroot, -, hhtml, -, -, hleaks, hcut⟩ :=
    comment_leaks_iff h
  obtain rfl : components = some Framework.starlight.components := hcomponents.trans hchoice
  exact ⟨text, _, root, x, h, hroot, hhtml, hleaks, hcut⟩

/-- An arrow in a comment is enough: what the comment holds after it is outside the comment. -/
theorem comment_leaks_arrow :
    ∃ (text : String) (root : Node) (x : Rendered),
      text = "\x7b/* --> a */\x7d" ∧ (Document.ofString text).read = .ok root ∧
      root.renderRoot (Embedded.handlers (Document.ofString text) none) = .ok x ∧
      Html.commentsAll x.nodes = [" --> a "] ∧ Html.Leaks " --> a " ∧
      ¬ Html.EndsItself " --> a " ∧
      (convert text none ⟨none, "WARNING"⟩).html = .ok "<!-- --> a -->" := by
  let d := Document.ofString "\x7b/* --> a */\x7d"
  have hcomments : (d.read.toOption.bind fun root =>
      (root.renderRoot (Embedded.handlers d none)).toOption.map fun x =>
        Html.commentsAll x.nodes) = some [" --> a "] := by
    decide +kernel
  have hhtml : (convert "\x7b/* --> a */\x7d" none ⟨none, "WARNING"⟩).html =
      .ok "<!-- --> a -->" := by
    decide +kernel
  cases hroot : d.read with
  | error e =>
    rw [hroot] at hcomments
    cases hcomments
  | ok root =>
    rw [hroot] at hcomments
    cases hx : root.renderRoot (Embedded.handlers d none) with
    | error e =>
      change ((root.renderRoot (Embedded.handlers d none)).toOption.map _) = _ at hcomments
      rw [hx] at hcomments
      cases hcomments
    | ok x =>
      change ((root.renderRoot (Embedded.handlers d none)).toOption.map _) = _ at hcomments
      rw [hx] at hcomments
      exact ⟨_, root, x, rfl, hroot, hx, Option.some.inj hcomments, by decide,
        fun hends => (Html.endsItself_iff _).mp hends (by decide), hhtml⟩

end MdxProse
