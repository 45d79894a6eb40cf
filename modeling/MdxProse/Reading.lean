import MdxProse.Anchor
import MdxProse.Block.Content
import MdxProse.Inline.Content

/-! # Reading documents

A document is read in two passes. The first finds the blocks and the link definitions; the second
reads the running text of the blocks, for which it needs all definitions, and tells where in the
document its embedded code stands. The resulting stream of events is the walk of a tree.
-/

namespace MdxProse

namespace Document

/-- The running text of a block, read. -/
def fill (lines : List (Nat × List Char)) (definitions : List Block.Definition) :
    Event → Except SyntaxError Event
  | .leaf (.inline content) (some range) _ => do
    let es ← Inline.events definitions (Source.ofString content)
    let anchors := Anchor.ofText lines content.toList range.first
    pure (.leaf (.inline content) (some range) ((Inline.joinEscapes es).map (Anchor.place anchors)))
  | e => .ok e

/-- The events of a document. -/
def events (d : Document) : Except SyntaxError (List Event) := do
  let o ← Block.readSource d.source
  o.events.mapM (fill (Anchor.lines d.source) o.definitions)

/-- The tree of a document. -/
def read (d : Document) : Except SyntaxError Node := do
  let es ← d.events
  pure (.mk .root none ((Node.ofEvents? es).getD []))

end Document

end MdxProse
