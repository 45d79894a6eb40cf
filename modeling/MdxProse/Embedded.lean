import MdxProse.Document
import MdxProse.Rendering

/-! # Embedded code

Prose is rendered to HTML so that it can be checked; the code embedded in it is shown as code, with
its exact source, and marked by a class. Two things are not shown as code: an element whose name is
known to hold prose has its children rendered instead, in a marked container, and an expression
between comment marks, one that starts with `{/*` and ends with `*/}`, becomes an HTML comment.
-/

namespace MdxProse

/-- The five kinds of embedded code. -/
inductive Embedded
  | esm
  | flowExpression
  | textExpression
  | flowElement
  | textElement
  deriving DecidableEq, Repr

namespace Embedded

/-- All kinds. -/
def all : List Embedded :=
  [esm, flowExpression, textExpression, flowElement, textElement]

/-- The name that marks code of the kind. -/
def marker : Embedded → String
  | esm => "mdxjsEsm"
  | flowExpression => "mdxFlowExpression"
  | textExpression => "mdxTextExpression"
  | flowElement => "mdxJsxFlowElement"
  | textElement => "mdxJsxTextElement"

/-- The type of the nodes of the kind. -/
def nodeType : Embedded → NodeType
  | esm => .esm
  | flowExpression => .flowExpression
  | textExpression => .textExpression
  | flowElement => .flowElement
  | textElement => .textElement

/-- Is the kind an element? -/
def isElement : Embedded → Bool
  | flowElement => true
  | textElement => true
  | _ => false

/-- The kind that a marker names. -/
def ofMarker? (s : String) : Option Embedded :=
  all.find? (·.marker == s)

/-- The class of what is rendered for code of the kind. -/
def cssClass (e : Embedded) : String :=
  "mdxNode " ++ e.marker

/-- Source shown as code: a block if it has several lines. -/
def escapeAsCode (source : String) (e : Embedded) : List Html :=
  let code : Html := .element "code" [("class", e.cssClass)] [.text source]
  if source.toList.contains '\n' then [.element "pre" [] [code]] else [code]

/-- Does the source of an expression start with `{/*` and end with `*/}`? Nothing is asked of what
stands between these marks: it may hold the end of a comment and code after it. -/
def isComment (source : String) : Bool :=
  "\x7b/*".toList.isPrefixOf source.toList && "*/\x7d".toList.isSuffixOf source.toList

/-- What stands between the comment marks of an expression. -/
def commentText (source : String) : String :=
  let w := source.toList
  String.ofList ((w.drop 3).take (w.length - 6))

/-- The source between two offsets that may be missing. -/
def sourceBetween (d : Document) (nodeType : String) (start stop : Option Int) :
    Except RenderError String :=
  match start, stop with
  | some start, some stop =>
    match Span.ofInts start stop with
    | .ok s => .ok (d.source.cover s)
    | .error e => .error (.badSpan e)
  | _, _ => .error (.noSpan nodeType)

/-- The exact source of a node. -/
def sourceOf (d : Document) (n : Node) : Except RenderError String :=
  let span := n.kind.span?
  sourceBetween d n.type.name (span.map (Int.ofNat ·.start)) (span.map (Int.ofNat ·.stop))

/-- Statements and expressions are never rendered but as code or comment. -/
def handleCode (d : Document) (e : Embedded) : Handler := fun n _ => do
  let source ← sourceOf d n
  if e = .flowExpression && isComment source then
    Rendering.plain [.comment (commentText source)]
  else Rendering.plain (escapeAsCode source e)

/-- The name of an element whose children are rendered: it is among the names of components that
hold prose, and has children. -/
def unwrapped? (components : Option (List String)) (n : Node) : Option String :=
  match components, n.kind.elementName? with
  | some names, some name => if !n.children.isEmpty && names.contains name then some name else none
  | _, _ => none

/-- Elements are rendered by their children if they hold prose, and as code otherwise. -/
def handleElement (d : Document) (components : Option (List String)) (e : Embedded) : Handler :=
  fun n children => do
    let source ← sourceOf d n
    match unwrapped? components n with
    | some name => do
      let inner ← Rendering.within "div" [("class", e.cssClass), ("data-component", name)] children
      pure ⟨inner.nodes, .unwrapped name e.marker :: inner.decisions⟩
    | none =>
      pure ⟨escapeAsCode source e, [.escaped (n.kind.elementName?.getD "") e.marker]⟩

/-- The handler of code of a kind. -/
def handler (d : Document) (components : Option (List String)) (e : Embedded) : Handler :=
  if e.isElement then handleElement d components e else handleCode d e

/-- The handlers of all embedded code of a document. -/
def handlers (d : Document) (components : Option (List String)) : Handlers := fun t =>
  (all.find? (·.nodeType = t)).map (handler d components)

end Embedded

end MdxProse
