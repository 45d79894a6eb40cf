import MdxProse.Text.Blank

/-! # HTML

What a document is rendered to: elements with attributes in a fixed order, text and comments. Text
and attribute values are escaped when the tree is written down; names and comments are not.
-/

namespace MdxProse

/-- A node of an HTML tree. -/
inductive Html
  | element (tag : String) (attributes : List (String × String)) (children : List Html)
  | text (value : String)
  | comment (value : String)
  deriving Repr, Inhabited

namespace Html

/-! ### Writing -/

/-- A character as it stands in text and attribute values. -/
def escapeChar (c : Char) : List Char :=
  if c == '&' then "&amp;".toList
  else if c == '<' then "&lt;".toList
  else if c == '>' then "&gt;".toList
  else if c == '"' then "&quot;".toList
  else [c]

/-- A text as it stands in text and attribute values. -/
def escape (s : String) : String :=
  String.ofList (s.toList.flatMap escapeChar)

/-- Elements without content and without a closing tag. -/
def isVoid (tag : String) : Bool :=
  tag == "br" || tag == "hr" || tag == "img"

/-- Attributes as they stand in an opening tag. -/
def writeAttributes : List (String × String) → String
  | [] => ""
  | (name, value) :: rest => " " ++ name ++ "=\"" ++ escape value ++ "\"" ++ writeAttributes rest

mutual
/-- A tree as text. -/
def write : Html → String
  | text value => escape value
  | comment value => "<!--" ++ value ++ "-->"
  | element tag attributes children =>
    let opening := "<" ++ tag ++ writeAttributes attributes ++ ">"
    if isVoid tag then opening else opening ++ writeAll children ++ "</" ++ tag ++ ">"
/-- Trees as text, one after the other. -/
def writeAll : List Html → String
  | [] => ""
  | n :: ns => write n ++ writeAll ns
end

/-! ### Line breaks between nodes -/

/-- A line break. -/
def newline : Html :=
  text "\n"

/-- The nodes with line breaks between them. -/
def separate (nodes : List Html) : List Html :=
  nodes.intersperse newline

/-- The nodes with line breaks between them and at both ends; for no nodes, a single one. -/
def surround : List Html → List Html
  | [] => [newline]
  | nodes => newline :: separate nodes ++ [newline]

end Html

end MdxProse
