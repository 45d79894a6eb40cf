import MdxProse.Block.Interrupt

/-! # Paragraphs and underlined headings

A paragraph runs on until an empty line or a block that interrupts it. Deeply indented lines and
lines marked as continuing always belong to it. If a line of it is an underline, the lines before
that line are a heading.
-/

namespace MdxProse.Block

namespace Paragraph

/-- The line after a paragraph that has run on to line `i`. -/
def stop (r : Region) (i : Nat) : Nat :=
  if i < r.height then
    let l := r.line i
    if l.isEmpty then i
    else if 3 < l.indent - r.indent || l.indent < 0 then stop r (i + 1)
    else if interrupts r .paragraph i r.height then i
    else stop r (i + 1)
  else i
termination_by r.height - i

/-- A paragraph. -/
def read (r : Region) (i : Nat) : Outcome :=
  let past := stop r (i + 1)
  let lines : LineRange := ⟨i, past⟩
  ⟨Event.around (.paragraph false) (some lines) [.running (r.runningText i past) lines], [], past⟩

end Paragraph

namespace Underline

/-- The level of the heading that the line underlines: one for `=`, two for `-`. -/
def level? (r : Region) (i : Nat) : Option Nat :=
  match r.lineText i with
  | [] => none
  | c :: text =>
    if c == '=' || c == '-' then
      if (text.dropWhile (· == c)).all Text.isSpace then some (if c == '=' then 1 else 2) else none
    else none

/-- The underline below text that has run on to line `i`, and the level it gives. -/
def find? (r : Region) (past i : Nat) : Option (Nat × Nat) :=
  if i < past then
    let l := r.line i
    if l.isEmpty then none
    else if 3 < l.indent - r.indent then find? r past (i + 1)
    else
      match if r.indent ≤ l.indent then level? r i else none with
      | some n => some (i, n)
      | none =>
        if l.indent < 0 then find? r past (i + 1)
        else if interrupts r .paragraph i past then none
        else find? r past (i + 1)
  else none
termination_by past - i

/-- An underlined heading. -/
def read? (r : Region) (i past : Nat) : Option Outcome :=
  (find? r past (i + 1)).map fun (line, n) =>
    ⟨Heading.events n (r.runningText i line) i (line + 1) line, [], line + 1⟩

end Underline

end MdxProse.Block
