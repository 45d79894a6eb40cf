import MdxProse.Source

/-! # The document tree

A document is read into a tree of nodes. Blocks record the lines they come from; the nodes of
embedded code (module statements, expressions and elements) record the exact span of the source
they cover.
-/

namespace MdxProse

/-- What a node is, with all that belongs to it besides its children. -/
inductive Kind
  | root
  /-- The paragraphs of a tight list are set without space between them. -/
  | paragraph (tight : Bool)
  | heading (level : Nat)
  | blockquote
  | bulletList
  | orderedList (start : Nat)
  | listItem
  /-- `info` is everything after the opening marker. -/
  | fence (info content : String)
  | thematicBreak
  | mathBlock (content : String)
  | labelledMathBlock (content : String)
  | frontMatter (content : String)
  /-- The running text of a paragraph or heading. -/
  | inline (content : String)
  | text (content : String)
  /-- A character written as an escape or entity, before it is joined to the text around it. -/
  | escaped (content : String)
  | softBreak
  | hardBreak
  | emphasis
  | strong
  | code (content : String)
  | math (content : String)
  /-- An empty title is no title. -/
  | link (href title : String)
  | image (target title content : String)
  | esm (content : String) (span : Span)
  | flowExpression (content : String) (span : Span)
  | textExpression (content : String) (span : Span)
  | flowElement (name : Option String) (span : Span)
  | textElement (name : Option String) (span : Span)
  deriving DecidableEq, Repr, Inhabited

/-- What a node is, without its data. -/
inductive NodeType
  | root | paragraph | heading | blockquote | bulletList | orderedList | listItem | fence
  | thematicBreak | mathBlock | labelledMathBlock | frontMatter | inline | text | escaped
  | softBreak | hardBreak | emphasis | strong | code | math | link | image | esm
  | flowExpression | textExpression | flowElement | textElement
  deriving DecidableEq, Repr, Inhabited

namespace NodeType

/-- All node types. -/
def all : List NodeType := [
  root, paragraph, heading, blockquote, bulletList, orderedList, listItem, fence, thematicBreak,
  mathBlock, labelledMathBlock, frontMatter, inline, text, escaped, softBreak, hardBreak, emphasis,
  strong, code, math, link, image, esm, flowExpression, textExpression, flowElement, textElement]

/-- The name by which messages and configuration refer to a type. -/
def name : NodeType → String
  | root => "root"
  | paragraph => "paragraph"
  | heading => "heading"
  | blockquote => "blockquote"
  | bulletList => "bullet_list"
  | orderedList => "ordered_list"
  | listItem => "list_item"
  | fence => "fence"
  | thematicBreak => "hr"
  | mathBlock => "math_block"
  | labelledMathBlock => "math_block_label"
  | frontMatter => "front_matter"
  | inline => "inline"
  | text => "text"
  | escaped => "text_special"
  | softBreak => "softbreak"
  | hardBreak => "hardbreak"
  | emphasis => "em"
  | strong => "strong"
  | code => "code_inline"
  | math => "math_inline"
  | link => "link"
  | image => "image"
  | esm => "mdxjs_esm"
  | flowExpression => "mdx_flow_expression"
  | textExpression => "mdx_text_expression"
  | flowElement => "mdx_jsx_flow_element"
  | textElement => "mdx_jsx_text_element"

/-- The type of a name. -/
def ofName? (s : String) : Option NodeType :=
  all.find? (·.name == s)

end NodeType

namespace Kind

/-- The type of a kind. -/
def type : Kind → NodeType
  | root => .root
  | paragraph _ => .paragraph
  | heading _ => .heading
  | blockquote => .blockquote
  | bulletList => .bulletList
  | orderedList _ => .orderedList
  | listItem => .listItem
  | fence .. => .fence
  | thematicBreak => .thematicBreak
  | mathBlock _ => .mathBlock
  | labelledMathBlock _ => .labelledMathBlock
  | frontMatter _ => .frontMatter
  | inline _ => .inline
  | text _ => .text
  | escaped _ => .escaped
  | softBreak => .softBreak
  | hardBreak => .hardBreak
  | emphasis => .emphasis
  | strong => .strong
  | code _ => .code
  | math _ => .math
  | link .. => .link
  | image .. => .image
  | esm .. => .esm
  | flowExpression .. => .flowExpression
  | textExpression .. => .textExpression
  | flowElement .. => .flowElement
  | textElement .. => .textElement

/-- The node's own text, empty for nodes that only hold others. -/
def content : Kind → String
  | fence _ c => c
  | mathBlock c => c
  | labelledMathBlock c => c
  | frontMatter c => c
  | inline c => c
  | text c => c
  | escaped c => c
  | code c => c
  | math c => c
  | image _ _ c => c
  | esm c _ => c
  | flowExpression c _ => c
  | textExpression c _ => c
  | _ => ""

/-- The name of an element; a fragment has none. -/
def elementName? : Kind → Option String
  | flowElement n _ => n
  | textElement n _ => n
  | _ => none

/-- The span of embedded code. -/
def span? : Kind → Option Span
  | esm _ s => some s
  | flowExpression _ s => some s
  | textExpression _ s => some s
  | flowElement _ s => some s
  | textElement _ s => some s
  | _ => none

/-- The same kind with another span; kinds without a span stay as they are. -/
def withSpan (s : Span) : Kind → Kind
  | esm c _ => esm c s
  | flowExpression c _ => flowExpression c s
  | textExpression c _ => textExpression c s
  | flowElement n _ => flowElement n s
  | textElement n _ => textElement n s
  | k => k

end Kind

/-- The lines from `first` to just before `past`. -/
structure LineRange where
  first : Nat
  past : Nat
  deriving DecidableEq, Repr, Inhabited

/-- A node of the document tree. -/
inductive Node
  | mk (kind : Kind) (lines : Option LineRange) (children : List Node)
  deriving Repr, Inhabited

namespace Node

/-- What the node is. -/
def kind : Node → Kind
  | mk k _ _ => k

/-- The lines a block comes from. -/
def lines : Node → Option LineRange
  | mk _ l _ => l

/-- The nodes right below. -/
def children : Node → List Node
  | mk _ _ cs => cs

/-- The type of the node. -/
def type (n : Node) : NodeType :=
  n.kind.type

mutual
/-- The text of a node with all markup taken away; line breaks are line feeds. -/
def plainText : Node → String
  | mk .softBreak _ _ => "\n"
  | mk .hardBreak _ _ => "\n"
  | mk k _ [] => k.content
  | mk _ _ (c :: cs) => plainText c ++ plainTexts cs
/-- The texts of several nodes, one after the other. -/
def plainTexts : List Node → String
  | [] => ""
  | c :: cs => plainText c ++ plainTexts cs
end

end Node

end MdxProse
