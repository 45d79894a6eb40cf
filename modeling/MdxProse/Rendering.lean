import MdxProse.Error
import MdxProse.Html
import MdxProse.Node

/-! # Rendering

Each type of node is rendered in its own way, which a handler may replace. What a handler gets is
the node and what its children would be rendered to; it need not use that. Rendering also takes
notes of the decisions on the way, in the order in which they are made.
-/

namespace MdxProse

/-- A decision on the rendering of an element. -/
inductive Decision
  /-- The children of the element are shown. -/
  | unwrapped (name : String) (marker : String)
  /-- The source of the element is shown. -/
  | escaped (name : String) (marker : String)
  deriving DecidableEq, Repr

/-- HTML nodes, and the decisions that led to them. -/
structure Rendered where
  nodes : List Html
  decisions : List Decision
  deriving Inhabited

namespace Rendered

/-- Nodes that took no decision. -/
def plain (nodes : List Html) : Rendered :=
  ⟨nodes, []⟩

/-- Other nodes made of these. -/
def map (f : List Html → List Html) (r : Rendered) : Rendered :=
  ⟨f r.nodes, r.decisions⟩

/-- One after the other. -/
def append (a b : Rendered) : Rendered :=
  ⟨a.nodes ++ b.nodes, a.decisions ++ b.decisions⟩

end Rendered

/-- A rendering, or the reason why there is none. -/
abbrev Rendering := Except RenderError Rendered

namespace Rendering

/-- Nodes that took no decision. -/
def plain (nodes : List Html) : Rendering :=
  .ok (.plain nodes)

/-- All renderings, one after the other. -/
def join : List Rendering → Rendering
  | [] => plain []
  | r :: rs => do
    let a ← r
    let b ← join rs
    pure (a.append b)

/-- One element around what was rendered. -/
def within (tag : String) (attributes : List (String × String)) (r : Rendering) : Rendering := do
  let inner ← r
  pure (inner.map fun nodes => [.element tag attributes nodes])

end Rendering

/-- A way to render a node, given the rendering of its children. -/
abbrev Handler := Node → Rendering → Rendering

/-- The handlers that replace the usual rendering. -/
abbrev Handlers := NodeType → Option Handler

/-- No handlers. -/
def Handlers.none : Handlers := fun _ => .none

/-- The same handlers, but for one type. -/
def Handlers.set (hs : Handlers) (t : NodeType) (h : Handler) : Handlers := fun t' =>
  if t' = t then some h else hs t'

namespace Rendering

/-! ### The usual rendering -/

/-- A paragraph that stands in space of its own. -/
def isLooseParagraph (n : Node) : Bool :=
  match n.kind with
  | .paragraph tight => !tight
  | _ => false

/-- Is the node a paragraph? -/
def isParagraph (n : Node) : Bool :=
  n.type == .paragraph

/-- What a list item holds: a line break before each child, but in a tight item none before a
paragraph that comes first. -/
def itemParts (loose : Bool) : (isFirst : Bool) → List Node → List Rendering → List Rendering
  | first, c :: cs, r :: rs =>
    let breaks := loose || !first || !isParagraph c
    (if breaks then [plain [Html.newline]] else []) ++ r :: itemParts loose false cs rs
  | _, _, _ => []

/-- A list item. A line break at its end is left out after the last paragraph of a tight item. -/
def item (children : List Node) (parts : List Rendering) : Rendering :=
  let loose := children.any isLooseParagraph
  let breaksAtEnd :=
    match children.getLast? with
    | some c => loose || !isParagraph c
    | none => false
  within "li" [] (join (itemParts loose true children parts ++
    if breaksAtEnd then [plain [Html.newline]] else []))

/-- The class of a block of code: the first word of its info. -/
def codeAttributes (info : String) : List (String × String) :=
  match (info.toList.dropWhile Text.isBlank).takeWhile (!Text.isBlank ·) with
  | [] => []
  | word => [("class", "language-" ++ String.ofList word)]

/-- A text without the line breaks at its ends. -/
def trimBreaks (s : String) : String :=
  let isBreak (c : Char) : Bool := c == '\n'
  String.ofList ((s.toList.dropWhile isBreak).reverse.dropWhile isBreak).reverse

/-- A block of code. -/
def codeBlock (attributes : List (String × String)) (content : String) : Html :=
  .element "pre" [] [.element "code" attributes [.text content]]

/-- The attribute of a title, unless it is empty. -/
def titleAttribute (title : String) : List (String × String) :=
  if title.isEmpty then [] else [("title", title)]

/-- The usual rendering of a node whose children are rendered to `parts`. -/
def usual (n : Node) (parts : List Rendering) : Rendering :=
  let inner := join parts
  match n.kind with
  | .paragraph true => inner
  | .paragraph false => within "p" [] inner
  | .heading level => within s!"h{level}" [] inner
  | .blockquote => within "blockquote" [] (inner.map (·.map Html.surround))
  | .bulletList => within "ul" [] (inner.map (·.map Html.surround))
  | .orderedList start =>
    within "ol" (if start = 1 then [] else [("start", toString start)])
      (inner.map (·.map Html.surround))
  | .listItem => item n.children parts
  | .fence info content => plain [codeBlock (codeAttributes info) content]
  | .thematicBreak => plain [.element "hr" [] []]
  | .mathBlock content =>
    plain [codeBlock [("class", "language-math math-display")] (trimBreaks content)]
  | .labelledMathBlock content =>
    plain [codeBlock [("class", "language-math math-display")] (trimBreaks content)]
  | .frontMatter content => plain [.comment ("---\n" ++ content ++ "\n---")]
  | .text content => plain [.text content]
  | .softBreak => plain [Html.newline]
  | .hardBreak => plain [.element "br" [] [], Html.newline]
  | .emphasis => within "em" [] inner
  | .strong => within "strong" [] inner
  | .code content => plain [.element "code" [] [.text content]]
  | .math content =>
    plain [.element "code" [("class", "language-math math-inline")] [.text content]]
  | .link href title => within "a" (("href", href) :: titleAttribute title) inner
  | .image target title _ =>
    plain [.element "img" (("src", target) :: ("alt", n.plainText) :: titleAttribute title) []]
  | _ => inner

end Rendering

mutual
/-- The rendering of a node. -/
def Node.render (hs : Handlers) : Node → Rendering
  | .mk k l cs =>
    match hs k.type with
    | some h => h (.mk k l cs) (Rendering.join (Node.renderEach hs cs))
    | none => Rendering.usual (.mk k l cs) (Node.renderEach hs cs)
/-- The renderings of several nodes. -/
def Node.renderEach (hs : Handlers) : List Node → List Rendering
  | [] => []
  | c :: cs => Node.render hs c :: Node.renderEach hs cs
end

/-- The rendering of a whole document: its blocks with line breaks between them. -/
def Node.renderRoot (hs : Handlers) (n : Node) : Rendering := do
  let r ← Rendering.join (Node.renderEach hs n.children)
  pure (r.map Html.separate)

end MdxProse
