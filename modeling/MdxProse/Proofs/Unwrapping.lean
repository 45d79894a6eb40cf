import Mathlib.Data.List.Forall2
import MdxProse.Proofs.Failures

/-!
# What becomes of embedded code

Rendering shows each piece of embedded code once, where it stands: an element that holds prose as a
container around its rendered children, an expression between comment marks as a comment, and all
other code as code.  Only below images, and below elements that are shown as code, nothing is shown.

* `Html.marked`: the elements that show code, and the comments.  `Node.visible`: the nodes that are
  shown.  `Shows`: how a node is shown.
* `Rendering.marked_usual`: the usual rendering adds nothing to what the children of a node show.
* `Node.areShown_render`: **a rendering shows exactly the visible nodes, in their order, each in its
  own way.**
* `Node.render_pruned`: it does not depend on what is below an element that is shown as code.
* `rendering_shows_visible`: both, for the tree of a document.
-/

namespace MdxProse

variable {parent : Option String}

/-! ### What shows code -/

namespace Html

/-- Do the attributes of an element mark it as embedded code? -/
def isMarked (attributes : List (String × String)) : Bool :=
  attributes.any fun (name, value) =>
    name == "class" && "mdxNode".toList.isPrefixOf value.toList

mutual
/-- The marked elements and the comments from a node down, in the order in which they start, each
with the tag of the element right around it. -/
def marked (parent : Option String) : Html → List (Option String × Html)
  | .element tag attributes children =>
    (if isMarked attributes then [(parent, .element tag attributes children)] else []) ++
      markedAll (some tag) children
  | .text _ => []
  | .comment value => [(parent, .comment value)]
/-- The marked elements and the comments from several nodes down. -/
def markedAll (parent : Option String) : List Html → List (Option String × Html)
  | [] => []
  | n :: ns => marked parent n ++ markedAll parent ns
end

@[simp]
theorem markedAll_append (ns ns' : List Html) :
    markedAll parent (ns ++ ns') = markedAll parent ns ++ markedAll parent ns' := by
  induction ns with
  | nil => rfl
  | cons n ns ih => rw [List.cons_append, markedAll, markedAll, ih, List.append_assoc]

@[simp]
theorem markedAll_newline (ns : List Html) :
    markedAll parent (newline :: ns) = markedAll parent ns :=
  rfl

@[simp]
theorem markedAll_separate (ns : List Html) :
    markedAll parent (separate ns) = markedAll parent ns := by
  induction ns with
  | nil => rfl
  | cons n ns ih =>
    cases ns with
    | nil => rfl
    | cons n' ns =>
      have hsep : separate (n :: n' :: ns) = n :: newline :: separate (n' :: ns) := rfl
      rw [hsep, markedAll, markedAll_newline, ih]
      rfl

@[simp]
theorem markedAll_surround (ns : List Html) :
    markedAll parent (surround ns) = markedAll parent ns := by
  cases ns with
  | nil => rfl
  | cons n ns =>
    have hsurround : surround (n :: ns) = newline :: (separate (n :: ns) ++ [newline]) := rfl
    rw [hsurround, markedAll_newline, markedAll_append, markedAll_separate, markedAll_newline,
      markedAll, List.append_nil]

theorem markedAll_element {tag : String} {attributes : List (String × String)}
    {children : List Html} (h : isMarked attributes = false) :
    markedAll parent [.element tag attributes children] = markedAll (some tag) children := by
  rw [markedAll, marked, h, markedAll]
  simp

end Html

/-! ### What renderings show -/

namespace Rendering

/-- The marked elements and the comments of a rendering. -/
def marked (parent : Option String) (r : Rendering) :
    Except RenderError (List (Option String × Html)) :=
  r.map fun x => Html.markedAll parent x.nodes

theorem marked_join_cons (r : Rendering) (rs : List Rendering) :
    marked parent (join (r :: rs)) =
      marked parent r >>= fun a => marked parent (join rs) >>= fun b => pure (a ++ b) := by
  rw [join]
  cases r with
  | error e => rfl
  | ok a =>
    cases join rs with
    | error e => rfl
    | ok b => exact congrArg Except.ok (Html.markedAll_append _ _)

theorem marked_join_break (rs : List Rendering) :
    marked parent (join (plain [Html.newline] :: rs)) = marked parent (join rs) := by
  rw [marked_join_cons]
  cases join rs <;> rfl

theorem marked_join_itemParts (loose first breaksAtEnd : Bool) {cs : List Node}
    {rs : List Rendering} (h : rs.length = cs.length) :
    marked parent (join (itemParts loose first cs rs ++
      if breaksAtEnd then [plain [Html.newline]] else [])) = marked parent (join rs) := by
  induction cs generalizing first rs with
  | nil =>
    cases List.eq_nil_of_length_eq_zero h
    cases breaksAtEnd with
    | false => rfl
    | true => exact marked_join_break []
  | cons c cs ih =>
    cases rs with
    | nil => cases h
    | cons r rs =>
      rw [itemParts]
      split
      · rw [List.cons_append, List.nil_append, List.cons_append, marked_join_break,
          List.cons_append, marked_join_cons, marked_join_cons, ih false (Nat.succ.inj h)]
      · rw [List.nil_append, List.cons_append, marked_join_cons, marked_join_cons,
          ih false (Nat.succ.inj h)]

theorem marked_within {tag : String} {attributes : List (String × String)} (r : Rendering)
    (h : Html.isMarked attributes = false) :
    marked parent (within tag attributes r) = marked (some tag) r := by
  cases r with
  | error e => rfl
  | ok x => exact congrArg Except.ok (Html.markedAll_element h)

theorem marked_surround (r : Rendering) :
    marked parent (r.map (·.map Html.surround)) = marked parent r := by
  cases r with
  | error e => rfl
  | ok x => exact congrArg Except.ok (Html.markedAll_surround x.nodes)

theorem isMarked_titleAttribute (title : String) :
    Html.isMarked (titleAttribute title) = false := by
  rw [titleAttribute]
  split <;> rfl

/-- **The usual rendering adds nothing to what the children show**, and puts them in no element for
preformatted text. -/
theorem marked_usual {n : Node} {rs : List Rendering} (h : rs.length = n.children.length)
    (hk : n.kind.showsChildren = true) (hp : parent ≠ some "pre") :
    ∃ q, q ≠ some "pre" ∧ marked parent (usual n rs) = marked q (join rs) := by
  obtain ⟨k, l, cs⟩ := n
  cases k with
  | paragraph tight =>
    cases tight with
    | true => exact ⟨parent, hp, rfl⟩
    | false => exact ⟨some "p", by decide, marked_within _ rfl⟩
  | heading level =>
    refine ⟨some s!"h{level}", fun heq => ?_, marked_within _ rfl⟩
    have hhead : (("h" ++ toString level).toList.head?) = some 'p' := by
      rw [show "h" ++ toString level = "pre" from Option.some.inj heq]
      rfl
    rw [String.toList_append] at hhead
    cases hhead
  | blockquote =>
    exact ⟨some "blockquote", by decide, (marked_within _ rfl).trans (marked_surround _)⟩
  | bulletList => exact ⟨some "ul", by decide, (marked_within _ rfl).trans (marked_surround _)⟩
  | orderedList start =>
    refine ⟨some "ol", by decide, (marked_within _ ?_).trans (marked_surround _)⟩
    split <;> rfl
  | listItem =>
    exact ⟨some "li", by decide, (marked_within _ rfl).trans (marked_join_itemParts _ _ _ h)⟩
  | emphasis => exact ⟨some "em", by decide, marked_within _ rfl⟩
  | strong => exact ⟨some "strong", by decide, marked_within _ rfl⟩
  | link href title =>
    exact ⟨some "a", by decide, marked_within _ (isMarked_titleAttribute title)⟩
  | root | inline | escaped | esm | flowExpression | textExpression | flowElement | textElement =>
    exact ⟨parent, hp, rfl⟩
  | _ => cases hk

theorem isMarked_codeAttributes (info : String) : Html.isMarked (codeAttributes info) = false := by
  unfold codeAttributes
  split
  · rfl
  · next word _ =>
    simp only [Html.isMarked, List.any_cons, List.any_nil, String.toList_append, Bool.or_false]
    rfl

/-- The usual rendering of other nodes shows nothing, but for front matter. -/
theorem marked_usual_leaf {n : Node} (rs : List Rendering) (hk : n.kind.showsChildren = false)
    (hf : ∀ content, n.kind ≠ .frontMatter content) : marked parent (usual n rs) = .ok [] := by
  obtain ⟨k, l, cs⟩ := n
  cases k with
  | fence info content =>
    have hcode : Html.markedAll parent [codeBlock (codeAttributes info) content] = [] := by
      rw [codeBlock, Html.markedAll_element (by rfl),
        Html.markedAll_element (isMarked_codeAttributes info)]
      rfl
    exact congrArg Except.ok hcode
  | image target title content =>
    refine congrArg Except.ok ?_
    exact Html.markedAll_element (isMarked_titleAttribute title)
  | frontMatter content => exact absurd rfl (hf content)
  | thematicBreak | mathBlock | labelledMathBlock | text | softBreak | hardBreak | code | math =>
    rfl
  | _ => cases hk

end Rendering

/-! ### What is shown -/

namespace Node

variable {d : Document} {components : Option (List String)}

/-- Is the node an element that is shown as code, with nothing of what is below it? -/
def isEscaped (components : Option (List String)) (n : Node) : Bool :=
  match n.kind with
  | .flowElement .. | .textElement .. => (Embedded.unwrapped? components n).isNone
  | _ => false

/-- Is the node shown by an element or a comment of its own? -/
def isNoted (n : Node) : Bool :=
  match n.kind with
  | .frontMatter _ => true
  | k => k.span?.isSome

mutual
/-- The embedded code and the front matter from a node down, in the order in which they start,
without what is below images and below elements that are shown as code. -/
def visible (components : Option (List String)) : Node → List Node
  | .mk k l cs =>
    (if isNoted (.mk k l cs) then [.mk k l cs] else []) ++
      if k.isImage || isEscaped components (.mk k l cs) then [] else visibleEach components cs
/-- The embedded code and the front matter from several nodes down. -/
def visibleEach (components : Option (List String)) : List Node → List Node
  | [] => []
  | c :: cs => visible components c ++ visibleEach components cs
end

mutual
/-- The tree without what is below elements that are shown as code. -/
def pruned (components : Option (List String)) : Node → Node
  | .mk k l cs =>
    if isEscaped components (.mk k l cs) then .mk k l []
    else if k.isImage then .mk k l cs
    else .mk k l (prunedEach components cs)
/-- The trees without what is below elements that are shown as code. -/
def prunedEach (components : Option (List String)) : List Node → List Node
  | [] => []
  | c :: cs => pruned components c :: prunedEach components cs
end

end Node

/-- **How a node is shown** by an element or comment that stands right inside an element of the tag
`parent`: an element that holds prose by a container around its rendered children, an expression
between comment marks by a comment, and other code by an element around its exact source, which is
preformatted if it has several lines. -/
inductive Shows (d : Document) (components : Option (List String)) (n : Node) :
    (parent : Option String) → Html → Prop
  | unwrapped {parent : Option String} {name : String} {e : Embedded} {r : Rendered} :
      Embedded.unwrapped? components n = some name → n.type = e.nodeType →
      Rendering.join (Node.renderEach (Embedded.handlers d components) n.children) = .ok r →
      Shows d components n parent
        (.element "div" [("class", e.cssClass), ("data-component", name)] r.nodes)
  | code {parent : Option String} {e : Embedded} {s : Span} :
      Embedded.unwrapped? components n = none → n.type = e.nodeType → n.kind.span? = some s →
      s.start ≤ s.stop →
      (n.type = .flowExpression → Embedded.isComment (d.source.cover s) = false) →
      (parent = some "pre" ↔ '\n' ∈ (d.source.cover s).toList) →
      Shows d components n parent
        (.element "code" [("class", e.cssClass)] [.text (d.source.cover s)])
  | comment {parent : Option String} {content : String} {s : Span} :
      n.kind = .flowExpression content s → s.start ≤ s.stop →
      Embedded.isComment (d.source.cover s) = true →
      Shows d components n parent (.comment (Embedded.commentText (d.source.cover s)))
  | frontMatter {parent : Option String} {content : String} : n.kind = .frontMatter content →
      Shows d components n parent (.comment ("---\n" ++ content ++ "\n---"))

namespace Embedded

variable {d : Document} {components : Option (List String)} {n : Node} {s : Span} {x : Rendered}

/-- **The elements that hold prose**: those that have a name among the given ones, and children. -/
theorem unwrapped?_eq_some_iff {name : String} :
    unwrapped? components n = some name ↔
      ∃ names, components = some names ∧ n.kind.elementName? = some name ∧ name ∈ names ∧
        n.children ≠ [] := by
  unfold unwrapped?
  constructor
  · intro h
    split at h
    · next names name' hname =>
      split at h
      · next hprose =>
        cases h
        rw [Bool.and_eq_true, List.contains_iff_mem, Bool.not_eq_true',
          List.isEmpty_eq_false_iff] at hprose
        exact ⟨names, rfl, hname, hprose.2, hprose.1⟩
      · cases h
    · cases h
  · rintro ⟨names, rfl, hname, hmem, hcs⟩
    simp [hname, hmem, hcs]

theorem sourceOf_eq_ok {source : String} (hs : n.kind.span? = some s)
    (h : sourceOf d n = .ok source) : source = d.source.cover s ∧ s.start ≤ s.stop := by
  have hsource : sourceOf d n = sourceBetween d n.type.name (some (s.start : Int))
      (some (s.stop : Int)) := by
    rw [sourceOf, hs]
    rfl
  rw [hsource, sourceBetween, Span.ofInts, if_neg (Int.not_lt.mpr (Int.natCast_nonneg _))] at h
  by_cases hlt : (s.stop : Int) < s.start
  · rw [if_pos hlt] at h
    cases h
  · rw [if_neg hlt] at h
    cases h
    exact ⟨rfl, by omega⟩

theorem markedAll_escapeAsCode (e : Embedded) (source : String) :
    Html.markedAll parent (escapeAsCode source e) =
      [(if '\n' ∈ source.toList then some "pre" else parent,
        .element "code" [("class", e.cssClass)] [.text source])] := by
  have hclass : Html.isMarked [("class", e.cssClass)] = true := by
    cases e <;> decide
  have hcode : ∀ q, Html.markedAll q [.element "code" [("class", e.cssClass)] [.text source]] =
      [(q, .element "code" [("class", e.cssClass)] [.text source])] := by
    intro q
    rw [Html.markedAll, Html.marked, if_pos hclass]
    rfl
  rw [escapeAsCode]
  split
  · next h =>
    rw [if_pos (List.contains_iff_mem.mp h), Html.markedAll_element rfl, hcode]
  · next h =>
    rw [if_neg fun hm => h (List.contains_iff_mem.mpr hm), hcode]

theorem handlers_eq_some (hs : n.kind.span? = some s) :
    ∃ e, n.type = e.nodeType ∧ handlers d components n.type = some (handler d components e) ∧
      (e.isElement = false → unwrapped? components n = none ∧ n.kind.holdsNodes = false) ∧
      (n.isEscaped components = (e.isElement && (unwrapped? components n).isNone)) := by
  obtain ⟨k, l, cs⟩ := n
  have hcode : k.elementName? = none → unwrapped? components (.mk k l cs) = none := by
    intro hname
    cases components <;> simp [unwrapped?, Node.kind, hname]
  cases k with
  | esm => exact ⟨.esm, rfl, rfl, fun _ => ⟨hcode rfl, rfl⟩, rfl⟩
  | flowExpression => exact ⟨.flowExpression, rfl, rfl, fun _ => ⟨hcode rfl, rfl⟩, rfl⟩
  | textExpression => exact ⟨.textExpression, rfl, rfl, fun _ => ⟨hcode rfl, rfl⟩, rfl⟩
  | flowElement => exact ⟨.flowElement, rfl, rfl, fun h => absurd h (by decide), rfl⟩
  | textElement => exact ⟨.textElement, rfl, rfl, fun h => absurd h (by decide), rfl⟩
  | _ => cases hs

theorem shows_escapeAsCode {e : Embedded} (hp : parent ≠ some "pre")
    (hs : n.kind.span? = some s) (htype : n.type = e.nodeType) (hle : s.start ≤ s.stop)
    (hcode : unwrapped? components n = none)
    (hcomment : n.type = .flowExpression → isComment (d.source.cover s) = false) :
    ∃ m, Html.markedAll parent (escapeAsCode (d.source.cover s) e) = [m] ∧
      Shows d components n m.1 m.2 := by
  refine ⟨_, markedAll_escapeAsCode e _, .code hcode htype hs hle hcomment ?_⟩
  dsimp only
  split
  · next h => exact ⟨fun _ => h, fun _ => rfl⟩
  · next h => exact ⟨fun heq => absurd heq hp, fun hm => absurd hm h⟩

theorem shows_handleCode {e : Embedded} {r : Rendering} (hp : parent ≠ some "pre")
    (hs : n.kind.span? = some s) (htype : n.type = e.nodeType)
    (hcode : unwrapped? components n = none) (hx : handleCode d e n r = .ok x) :
    ∃ m, Html.markedAll parent x.nodes = [m] ∧ Shows d components n m.1 m.2 := by
  rw [handleCode, Except.bind_eq_ok] at hx
  obtain ⟨source, hsource, hx⟩ := hx
  obtain ⟨rfl, hle⟩ := sourceOf_eq_ok hs hsource
  split at hx
  · next h =>
    rw [Bool.and_eq_true, decide_eq_true_eq] at h
    obtain ⟨rfl, hcomment⟩ := h
    cases hx
    obtain ⟨k, l, cs⟩ := n
    cases k with
    | flowExpression content span =>
      cases hs
      exact ⟨_, rfl, .comment rfl hle hcomment⟩
    | _ => cases htype
  · next h =>
    cases hx
    refine shows_escapeAsCode hp hs htype hle hcode fun hflow => ?_
    have he : e = .flowExpression := by
      rw [htype] at hflow
      cases e <;> first | rfl | cases hflow
    simpa [he] using h

theorem shows_handleElement {e : Embedded} {r : Rendering} (hp : parent ≠ some "pre")
    (hs : n.kind.span? = some s) (htype : n.type = e.nodeType) (helement : e.isElement = true)
    (hcode : unwrapped? components n = none) (hx : handleElement d components e n r = .ok x) :
    ∃ m, Html.markedAll parent x.nodes = [m] ∧ Shows d components n m.1 m.2 := by
  rw [handleElement, Except.bind_eq_ok] at hx
  obtain ⟨source, hsource, hx⟩ := hx
  obtain ⟨rfl, hle⟩ := sourceOf_eq_ok hs hsource
  rw [hcode] at hx
  cases hx
  refine shows_escapeAsCode hp hs htype hle hcode fun hflow => ?_
  rw [htype] at hflow
  cases e <;> first | exact absurd helement (by decide) | exact absurd hflow (by decide)

theorem unwrapped_handleElement {e : Embedded} {r : Rendering} {name : String}
    (hprose : unwrapped? components n = some name)
    (hx : handleElement d components e n r = .ok x) :
    ∃ y, r = .ok y ∧ ∀ q, Html.markedAll q x.nodes =
      (q, .element "div" [("class", e.cssClass), ("data-component", name)] y.nodes) ::
        Html.markedAll (some "div") y.nodes := by
  rw [handleElement, Except.bind_eq_ok] at hx
  obtain ⟨source, -, hx⟩ := hx
  rw [hprose] at hx
  dsimp only at hx
  rw [Except.bind_eq_ok] at hx
  obtain ⟨inner, hinner, hx⟩ := hx
  rw [Rendering.within, Except.bind_eq_ok] at hinner
  obtain ⟨y, hy, hinner⟩ := hinner
  cases hinner
  cases hx
  refine ⟨y, hy, fun q => ?_⟩
  have hclass : Html.isMarked [("class", e.cssClass), ("data-component", name)] = true := by
    rw [Html.isMarked, List.any_cons, Bool.or_eq_true]
    left
    cases e <;> decide
  show Html.markedAll q [_] = _
  rw [Html.markedAll, Html.marked, if_pos hclass]
  exact List.append_nil _

end Embedded

namespace Node

variable {d : Document} {components : Option (List String)}

theorem isEscaped_of_none {n : Node} (h : n.kind.span? = none) :
    n.isEscaped components = false := by
  obtain ⟨k, l, cs⟩ := n
  cases k <;> first | rfl | cases h

theorem isImage_of_span? {k : Kind} {s : Span} (h : k.span? = some s) : k.isImage = false := by
  cases k <;> first | rfl | cases h

/-- The visible nodes of a piece of embedded code start with that, and go on with those below it if
it holds prose. -/
theorem visible_of_some {k : Kind} {l : Option LineRange} {cs : List Node} {s : Span}
    (hs : k.span? = some s) :
    visible components (.mk k l cs) = .mk k l cs ::
      if isEscaped components (.mk k l cs) then [] else visibleEach components cs := by
  have hnoted : isNoted (.mk k l cs) = true := by
    cases k <;> first | rfl | cases hs
  rw [visible, hnoted, isImage_of_span? hs]
  rfl

/-- The marked elements and the comments are those that show the nodes, in their order. -/
def AreShown (d : Document) (components : Option (List String)) (ns : List Node)
    (ms : List (Option String × Html)) : Prop :=
  List.Forall₂ (fun n m => Shows d components n m.1 m.2) ns ms

section

variable {k : Kind} {l : Option LineRange} {cs : List Node} {x : Rendered}
  (hp : parent ≠ some "pre") (hholds : cs = [] ∨ k.holdsNodes = true)
  (hx : (mk k l cs).render (Embedded.handlers d components) = .ok x)

include hp hholds hx

theorem areShown_of_some {s : Span} (hs : (mk k l cs).kind.span? = some s)
    (hcs : ∀ {q : Option String} {y : Rendered}, q ≠ some "pre" →
      Rendering.join (renderEach (Embedded.handlers d components) cs) = .ok y →
      AreShown d components (visibleEach components cs) (Html.markedAll q y.nodes)) :
    AreShown d components (visible components (.mk k l cs)) (Html.markedAll parent x.nodes) := by
  obtain ⟨e, htype, hhandler, hcode, hescaped⟩ :=
    @Embedded.handlers_eq_some d components _ _ hs
  have hhandler : Embedded.handlers d components k.type = _ := hhandler
  rw [render, hhandler, Embedded.handler] at hx
  rw [visible_of_some (k := k) hs, hescaped]
  dsimp only at hx
  split at hx
  · next helement =>
    rw [helement, Bool.true_and]
    cases hprose : Embedded.unwrapped? components (.mk k l cs) with
    | none =>
      obtain ⟨m, hm, hshows⟩ := Embedded.shows_handleElement hp hs htype helement hprose hx
      rw [hm]
      exact .cons hshows .nil
    | some name =>
      obtain ⟨y, hy, hm⟩ := Embedded.unwrapped_handleElement hprose hx
      rw [hm]
      have hdiv : some "div" ≠ some "pre" := by decide
      exact .cons (.unwrapped hprose htype hy) (hcs hdiv hy)
  · next helement =>
    obtain ⟨hprose, hno⟩ := hcode (Bool.eq_false_iff.mpr helement)
    obtain ⟨m, hm, hshows⟩ := Embedded.shows_handleCode hp hs htype hprose hx
    -- statements and expressions have nothing below them
    obtain rfl : cs = [] := hholds.resolve_right (by simpa [kind] using hno)
    rw [hm, visibleEach, ite_self]
    exact .cons hshows .nil

/-- A node of another kind shows what its children show, unless it is an image. -/
theorem areShown_of_none (hs : (mk k l cs).kind.span? = none)
    (hcs : k.isImage = false → ∀ {q : Option String} {y : Rendered}, q ≠ some "pre" →
      Rendering.join (renderEach (Embedded.handlers d components) cs) = .ok y →
      AreShown d components (visibleEach components cs) (Html.markedAll q y.nodes)) :
    AreShown d components (visible components (.mk k l cs)) (Html.markedAll parent x.nodes) := by
  have hnone : Embedded.handlers d components k.type = none := Embedded.handlers_eq_none hs
  rw [render, hnone] at hx
  have hx : Rendering.marked parent (.usual (.mk k l cs)
      (renderEach (Embedded.handlers d components) cs)) = .ok (Html.markedAll parent x.nodes) :=
    congrArg (Rendering.marked parent) hx
  rw [visible, isEscaped_of_none hs, Bool.or_false]
  cases hk : k.showsChildren with
  | true =>
    have hnoted : isNoted (.mk k l cs) = false := by
      cases k with
      | frontMatter => cases hk
      | esm | flowExpression | textExpression | flowElement | textElement => cases hs
      | _ => rfl
    have himage : k.isImage = false := by
      cases k <;> first | rfl | cases hk
    obtain ⟨q, hq, hmarked⟩ := Rendering.marked_usual (n := .mk k l cs)
      (length_renderEach (Embedded.handlers d components) cs) hk hp
    rw [hmarked] at hx
    cases hjoin : Rendering.join (renderEach (Embedded.handlers d components) cs) with
    | error e =>
      rw [hjoin] at hx
      cases hx
    | ok y =>
      rw [hjoin] at hx
      rw [hnoted, himage, ← Except.ok.inj hx]
      exact hcs himage hq hjoin
  | false =>
    by_cases hf : ∃ content, k = .frontMatter content
    · obtain ⟨content, rfl⟩ := hf
      obtain rfl : cs = [] := hholds.resolve_right Bool.false_ne_true
      rw [← Except.ok.inj hx]
      exact .cons (.frontMatter rfl) .nil
    · rw [Rendering.marked_usual_leaf (n := .mk k l cs) _ hk fun content heq =>
        hf ⟨content, heq⟩] at hx
      rw [← Except.ok.inj hx]
      cases k with
      | image => exact .nil
      | frontMatter content => exact absurd ⟨content, rfl⟩ hf
      | fence | thematicBreak | mathBlock | labelledMathBlock | text | softBreak | hardBreak
      | code | math =>
        obtain rfl : cs = [] := hholds.resolve_right Bool.false_ne_true
        exact .nil
      | _ => cases hk

end

mutual
/-- **A rendering shows exactly the visible nodes**, in their order and each in its own way. -/
theorem areShown_render : (n : Node) → n.Fits → {parent : Option String} → {x : Rendered} →
    parent ≠ some "pre" → n.render (Embedded.handlers d components) = .ok x →
    AreShown d components (n.visible components) (Html.markedAll parent x.nodes)
  | .mk k l cs, .mk hholds hcs, _, _, hp, hx => by
    cases hs : (mk k l cs).kind.span? with
    | some s =>
      exact areShown_of_some hp hholds hx hs fun hq =>
        areShown_renderEach cs (hcs (isImage_of_span? hs)) hq
    | none =>
      exact areShown_of_none hp hholds hx hs fun himage {_ _} hq =>
        areShown_renderEach cs (hcs himage) hq
theorem areShown_renderEach : (cs : List Node) → (∀ c ∈ cs, c.Fits) →
    {parent : Option String} → {x : Rendered} → parent ≠ some "pre" →
    Rendering.join (renderEach (Embedded.handlers d components) cs) = .ok x →
    AreShown d components (visibleEach components cs) (Html.markedAll parent x.nodes)
  | [], _, _, _, _, hx => by
    cases hx
    exact .nil
  | c :: cs, h, parent, x, hp, hx => by
    obtain ⟨hc, hcs⟩ := List.forall_mem_cons.mp h
    rw [renderEach, Rendering.join, Except.bind_eq_ok] at hx
    obtain ⟨a, ha, hx⟩ := hx
    rw [Except.bind_eq_ok] at hx
    obtain ⟨b, hb, hx⟩ := hx
    cases hx
    show AreShown _ _ _ (Html.markedAll parent (a.nodes ++ b.nodes))
    rw [visibleEach, Html.markedAll_append]
    exact List.rel_append (areShown_render c hc hp ha) (areShown_renderEach cs hcs hp hb)
end

/-! ### What is not shown does not count -/

theorem prunedEach_eq_map (cs : List Node) :
    prunedEach components cs = cs.map (pruned components) := by
  induction cs with
  | nil => rfl
  | cons c cs ih => rw [prunedEach, ih, List.map_cons]

theorem kind_pruned (n : Node) : (n.pruned components).kind = n.kind := by
  obtain ⟨k, l, cs⟩ := n
  rw [pruned]
  split
  · rfl
  · split <;> rfl

theorem isParagraph_pruned (n : Node) :
    Rendering.isParagraph (n.pruned components) = Rendering.isParagraph n := by
  rw [Rendering.isParagraph, Rendering.isParagraph, type, type, kind_pruned]

theorem isLooseParagraph_pruned (n : Node) :
    Rendering.isLooseParagraph (n.pruned components) = Rendering.isLooseParagraph n := by
  rw [Rendering.isLooseParagraph, Rendering.isLooseParagraph, kind_pruned]

theorem itemParts_map_pruned (loose first : Bool) (cs : List Node) (rs : List Rendering) :
    Rendering.itemParts loose first (cs.map (pruned components)) rs =
      Rendering.itemParts loose first cs rs := by
  induction cs generalizing first rs with
  | nil => rfl
  | cons c cs ih =>
    cases rs with
    | nil => rfl
    | cons r rs =>
      rw [List.map_cons, Rendering.itemParts, Rendering.itemParts, isParagraph_pruned, ih]

theorem item_map_pruned (cs : List Node) (rs : List Rendering) :
    Rendering.item (cs.map (pruned components)) rs = Rendering.item cs rs := by
  have hloose : (cs.map (pruned components)).any Rendering.isLooseParagraph =
      cs.any Rendering.isLooseParagraph := by
    rw [List.any_map]
    exact congrArg cs.any (funext isLooseParagraph_pruned)
  rw [Rendering.item, Rendering.item, hloose, itemParts_map_pruned, List.getLast?_map]
  cases cs.getLast? with
  | none => rfl
  | some c =>
    simp only [Option.map_some, isParagraph_pruned]

theorem render_of_isEscaped {k : Kind} {l : Option LineRange} {cs : List Node}
    (h : isEscaped components (.mk k l cs) = true) :
    (mk k l []).render (Embedded.handlers d components) =
      (mk k l cs).render (Embedded.handlers d components) := by
  have hnil : Embedded.unwrapped? components (.mk k l []) = none := by
    rw [Option.eq_none_iff_forall_ne_some]
    intro name hname
    obtain ⟨_, _, _, _, hcs⟩ := Embedded.unwrapped?_eq_some_iff.mp hname
    exact hcs rfl
  have helement (e : Embedded) (r r' : Rendering)
      (h : (Embedded.unwrapped? components (.mk k l cs)).isNone = true) :
      Embedded.handleElement d components e (.mk k l []) r =
        Embedded.handleElement d components e (.mk k l cs) r' := by
    rw [Embedded.handleElement, Embedded.handleElement, hnil, Option.isNone_iff_eq_none.mp h]
    rfl
  cases k with
  | flowElement name s => exact helement .flowElement _ _ h
  | textElement name s => exact helement .textElement _ _ h
  | _ => cases h

theorem render_of_renderEach {k : Kind} {l : Option LineRange} {cs : List Node}
    (himage : k.isImage = false)
    (h : renderEach (Embedded.handlers d components) (cs.map (pruned components)) =
      renderEach (Embedded.handlers d components) cs) :
    (mk k l (cs.map (pruned components))).render (Embedded.handlers d components) =
      (mk k l cs).render (Embedded.handlers d components) := by
  have hprose : Embedded.unwrapped? components (.mk k l (cs.map (pruned components))) =
      Embedded.unwrapped? components (.mk k l cs) := by
    cases cs <;> rfl
  have helement (e : Embedded) (r : Rendering) :
      Embedded.handleElement d components e (.mk k l (cs.map (pruned components))) r =
        Embedded.handleElement d components e (.mk k l cs) r := by
    rw [Embedded.handleElement, Embedded.handleElement, hprose]
    rfl
  rw [render, render, h]
  cases k with
  | flowElement name s => exact helement .flowElement _
  | textElement name s => exact helement .textElement _
  | listItem => exact item_map_pruned cs _
  | paragraph tight => cases tight <;> rfl
  | image => cases himage
  | _ => rfl

mutual
/-- **What is below an element that is shown as code does not count.** -/
theorem render_pruned : (n : Node) → (n.pruned components).render (Embedded.handlers d components) =
    n.render (Embedded.handlers d components)
  | .mk k l cs => by
    rw [pruned]
    split
    · next hescaped => exact render_of_isEscaped hescaped
    · split
      · rfl
      · next himage =>
        rw [prunedEach_eq_map]
        exact render_of_renderEach (Bool.eq_false_iff.mpr himage) (renderEach_pruned cs)
theorem renderEach_pruned : (cs : List Node) →
    renderEach (Embedded.handlers d components) (cs.map (pruned components)) =
      renderEach (Embedded.handlers d components) cs
  | [] => rfl
  | c :: cs => by
    rw [List.map_cons, renderEach, renderEach, render_pruned c, renderEach_pruned cs]
end

end Node

/-- **The rendering of a document shows exactly the visible nodes**, in their order and each in its
own way; and it is the same without all that is below elements that are shown as code. -/
theorem rendering_shows_visible {d : Document} {components : Option (List String)} {root : Node}
    {x : Rendered} (hroot : d.read = .ok root)
    (hx : root.renderRoot (Embedded.handlers d components) = .ok x) :
    List.Forall₂ (fun n m => Shows d components n m.1 m.2) (root.visible components)
        (Html.markedAll none x.nodes) ∧
      (root.pruned components).renderRoot (Embedded.handlers d components) = .ok x := by
  obtain ⟨hproper, ns, rfl, -⟩ := Document.read_spec hroot
  obtain ⟨-, hcs⟩ := hproper.fits
  rw [Node.renderRoot, Except.bind_eq_ok] at hx
  obtain ⟨y, hy, hx⟩ := hx
  cases hx
  constructor
  · have hnone : (none : Option String) ≠ some "pre" := (Option.some_ne_none _).symm
    show List.Forall₂ _ (Node.visibleEach components ns)
      (Html.markedAll none (Html.separate y.nodes))
    rw [Html.markedAll_separate]
    exact Node.areShown_renderEach ns (hcs rfl) hnone hy
  · have hpruned : (Node.mk .root none ns).pruned components =
        .mk .root none (ns.map (Node.pruned components)) := by
      have hescaped : ¬ Node.isEscaped components (.mk .root none ns) = true := Bool.false_ne_true
      have himage : ¬ Kind.root.isImage = true := Bool.false_ne_true
      rw [Node.pruned, if_neg hescaped, if_neg himage, Node.prunedEach_eq_map]
    have hy : Rendering.join (Node.renderEach (Embedded.handlers d components) ns) = .ok y := hy
    rw [hpruned, Node.renderRoot]
    show Rendering.join (Node.renderEach _ (ns.map (Node.pruned components))) >>= _ = _
    rw [Node.renderEach_pruned, hy]
    rfl

/-- An element that holds prose with two pieces of code in it, an element of several lines and an
expression between comment marks. -/
theorem rendering_shows_visible_nested :
    ∃ (d : Document) (root : Node) (x : Rendered), d.read = .ok root ∧
      root.renderRoot (Embedded.handlers d (some ["A"])) = .ok x ∧
      (root.visible (some ["A"])).length = 5 ∧
      List.Forall₂ (fun n m => Shows d (some ["A"]) n m.1 m.2) (root.visible (some ["A"]))
        (Html.markedAll none x.nodes) := by
  let d := Document.ofString "<A>\nb \x7bc\x7d <D>e</D>\n</A>\n\n<F>\ng\n</F>\n\n\x7b/* h */\x7d"
  have hlength : (d.read.toOption.map fun root =>
      ((root.renderRoot (Embedded.handlers d (some ["A"]))).toOption.isSome,
        (root.visible (some ["A"])).length)) = some (true, 5) := by
    decide +kernel
  cases hroot : d.read with
  | error e =>
    rw [hroot] at hlength
    cases hlength
  | ok root =>
    rw [hroot] at hlength
    obtain ⟨hrender, hlength⟩ := Prod.mk.inj (Option.some.inj hlength)
    cases hx : root.renderRoot (Embedded.handlers d (some ["A"])) with
    | error e =>
      rw [hx] at hrender
      cases hrender
    | ok x => exact ⟨d, root, x, hroot, hx, hlength, (rendering_shows_visible hroot hx).1⟩

end MdxProse
