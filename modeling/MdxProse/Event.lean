import MdxProse.Node

/-! # Streams of events

The readers of blocks and of running text do not build trees. They report events: entering a node,
leaving it, or passing a node without an inside of its own. A stream is *nested* when every leaving
event answers the nearest entering one that is still open, and nothing stays open; exactly the
nested streams are the walks of trees. Running text and images carry the stream of their content
inside one event.
-/

namespace MdxProse

/-- The level below which nothing is read any more: blocks are dropped, and characters are plain
text. -/
def maxDepth : Nat := 20

/-- A step of the walk through a document. -/
inductive Event
  | enter (kind : Kind) (lines : Option LineRange)
  | leave (type : NodeType) (name : Option String)
  | leaf (kind : Kind) (lines : Option LineRange) (inner : List Event)
  deriving Repr, Inhabited

namespace Event

/-- Leaving the node that was entered as `k`. -/
def leaving (k : Kind) : Event :=
  leave k.type k.elementName?

/-- A node without lines and without content of its own. -/
def atom (k : Kind) : Event :=
  leaf k none []

/-- The running text of a block, not yet read. -/
def running (content : String) (lines : LineRange) : Event :=
  leaf (.inline content) (some lines) []

/-- A node around a stream. -/
def around (k : Kind) (lines : Option LineRange) (inside : List Event) : List Event :=
  enter k lines :: inside ++ [leaving k]

/-- The kind of node that an event tells of, if it starts one. -/
def kind? : Event → Option Kind
  | enter k _ => some k
  | leaf k _ _ => some k
  | leave .. => none

end Event

/-- A node that has been entered: its kind and lines, and its earlier siblings, last first. -/
structure OpenNode where
  kind : Kind
  lines : Option LineRange
  before : List Node

mutual
/-- The nodes of the stream inside an event; `none` if that is not nested. -/
def Event.inside? : Event → Option (List Node)
  | .leaf _ _ inner => Node.build? inner [] []
  | _ => some []
termination_by structural e => e
/-- The nodes of a stream, read on from `done`, the nodes so far at this level, last first, inside
the nodes `open_`, innermost first. -/
def Node.build? : List Event → List OpenNode → List Node → Option (List Node)
  | [], [], done => some done.reverse
  | [], _ :: _, _ => none
  | .enter k l :: es, open_, done => Node.build? es (⟨k, l, done⟩ :: open_) []
  | .leave t n :: es, o :: open_, done =>
    if o.kind.type = t ∧ o.kind.elementName? = n then
      Node.build? es open_ (.mk o.kind o.lines done.reverse :: o.before)
    else none
  | .leave _ _ :: _, [], _ => none
  | .leaf k l inner :: es, open_, done =>
    match Event.inside? (.leaf k l inner) with
    | some cs => Node.build? es open_ (.mk k l cs :: done)
    | none => none
termination_by structural es => es
end

/-- The nodes that a nested stream walks through; `none` if it is not nested. -/
def Node.ofEvents? (es : List Event) : Option (List Node) :=
  Node.build? es [] []

end MdxProse
