import MdxProse.Block.Container
import MdxProse.Block.Definition
import MdxProse.Block.Paragraph

/-! # Reading blocks

The content of a document or container is a sequence of blocks. Each line with text starts the
first kind of block, in a fixed order, that recognises it; a paragraph always does. Containers read
their content in the same way one level further in, or two for lists, whose items are containers
too. At the deepest level nothing is read any more.
-/

namespace MdxProse.Block

/-- The block that starts on line `i`. The content of quotes and elements is read by `one`, that of
list items by `two`. -/
def readBlock (one two : Reader) (r : Region) (i past : Nat) : Except SyntaxError Outcome :=
  match FrontMatter.read? r i past <|> MathBlock.read? r i past <|> Esm.read? r i past <|>
      FlowExpression.read? r i past with
  | some o => .ok o
  | none =>
    match Element.shape? r i past with
    | some shape => Element.read one r i past shape
    | none =>
      match Fence.read? r i past with
      | some o => .ok o
      | none =>
        if Quote.starts r i then Quote.read one r i past
        else
          match ThematicBreak.read? r i with
          | some o => .ok o
          | none =>
            match Marker.ofLine? r i with
            | some m => Items.read two r m i past
            | none =>
              .ok ((Definition.ofLine? r i <|> Heading.read? r i <|>
                Underline.read? r i past).getD (Paragraph.read r i))

/-- The line after `i` if that is empty, or else `i` itself. -/
def passEmpty (r : Region) (past i : Nat) : Nat :=
  if i < past && r.isEmpty i then i + 1 else i

/-- The blocks from line `i` on. `blank` tells whether an empty line came before, and `tight`
whether the blocks so far are set tight. -/
def readBlocks (block : Region → Nat → Nat → Except SyntaxError Outcome) (r : Region) (past : Nat)
    (blank tight : Bool) (i : Nat) : Except SyntaxError Content := do
  if i < past then
    let start := r.skipEmpty i
    if past ≤ start || (r.line start).indent < r.indent then pure ⟨⟨[], [], start⟩, tight⟩
    else
      let o ← block r start past
      let blank' := blank || (decide (o.next - 1 < past) && r.isEmpty (o.next - 1))
      if _h : i < passEmpty r past o.next then
        let c ← readBlocks block r past (blank' || o.next < passEmpty r past o.next) (!blank)
          (passEmpty r past o.next)
        pure ⟨⟨o.events ++ c.events, o.definitions ++ c.definitions, c.next⟩, c.tight⟩
      else pure ⟨o, !blank⟩
  else pure ⟨⟨[], [], i⟩, tight⟩
termination_by past - i

/-- The content of a container that may hold `room` levels of containers. -/
def read : Nat → Reader
  | 0 => fun r i past =>
    let start := r.skipEmpty i
    .ok ⟨⟨[], [], if past ≤ start || (r.line start).indent < r.indent then start else past⟩, true⟩
  | 1 => fun r i past => readBlocks (readBlock (read 0) (read 0)) r past false true i
  | n + 2 => fun r i past => readBlocks (readBlock (read (n + 1)) (read n)) r past false true i

/-- The blocks of a source and its link definitions. -/
def readSource (src : Source) : Except SyntaxError Outcome := do
  let r := Region.ofSource src
  let c ← read maxDepth r 0 r.height
  pure c.toOutcome

end MdxProse.Block
