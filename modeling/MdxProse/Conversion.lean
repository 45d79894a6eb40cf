import MdxProse.Embedded
import MdxProse.Framework
import MdxProse.Reading
import MdxProse.Settings
import MdxProse.Text.Quoted

/-! # Conversion

The whole way from a text to HTML. Notes are taken on the way: how the framework was chosen, what
became of each element, and how long the texts are. They are there also when the conversion fails.
-/

namespace MdxProse

/-- A note on a conversion. -/
inductive Note
  | choice (c : Framework.Choice)
  | decision (d : Decision)
  /-- The numbers of characters before and after. -/
  | lengths (before after : Nat)
  | failed (e : SyntaxError)
  deriving DecidableEq, Repr

/-- A text as notes show it. -/
def Note.quote (s : String) : String :=
  String.ofList (Text.quoted s.toList)

/-- The wording of a note on the choice of a framework. -/
def Framework.Choice.message : Framework.Choice → String
  | requested f => s!"Framework {Note.quote f.name} selected by override"
  | unknown request => s!"Ignoring unknown framework override {Note.quote request}"
  | detected f => s!"Framework {Note.quote f.name} detected from imports"
  | undetected => "No framework detected, all JSX will be escaped"

/-- The wording of a note on an element. -/
def Decision.message : Decision → String
  | unwrapped name marker => s!"Unwrapping <{name}> ({marker})"
  | escaped name marker => s!"Escaping <{name}> ({marker})"

/-- A line number as notes show it. -/
def Note.line : Option Nat → String
  | none => "None"
  | some n => toString n

/-- The wording of a note. -/
def Note.message : Note → String
  | choice c => c.message
  | decision d => d.message
  | lengths before after => s!"Converted {before} chars of MDX to {after} chars of HTML"
  | failed e =>
    "Parse failed: \x7b'detail': " ++ quote e.message ++ ", 'line': " ++ line e.line ++ "\x7d"

/-- Why a text is not converted. -/
inductive ConversionError
  | invalid (e : SyntaxError)
  | unrenderable (e : RenderError)
  deriving DecidableEq, Repr

/-- What came of a conversion, and the notes taken. -/
structure Conversion where
  html : Except ConversionError String
  notes : List Note

namespace Document

/-- The components of a document that hold prose, if it has a framework. -/
def components? (d : Document) (request : Option String) : Option (List String) :=
  (Framework.governing? d.source.toList request).map Framework.components

/-- The document as an HTML tree. -/
def render (d : Document) (components : Option (List String)) :
    Except ConversionError Rendered := do
  let root ← d.read.mapError .invalid
  (root.renderRoot (Embedded.handlers d components)).mapError .unrenderable

/-- The conversion of a document for the framework that is asked for. -/
def convert (d : Document) (request : Option String) : Conversion :=
  let choices := (Framework.choices d.source.toList request).map Note.choice
  match d.render (d.components? request) with
  | .error e => ⟨.error e, choices⟩
  | .ok r =>
    let html := Html.writeAll r.nodes
    ⟨.ok html, choices ++ r.decisions.map .decision ++ [.lengths d.source.size html.length]⟩

end Document

/-- The conversion of a text. A framework that is asked for comes before one that is set. -/
def convert (text : String) (framework : Option String) (settings : Settings) : Conversion :=
  (Document.ofString text).convert (framework.or settings.framework)

end MdxProse
