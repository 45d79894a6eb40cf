import MdxProse.Text.CaseMap
import MdxProse.Text.Blank

/-! # Documentation frameworks

A framework offers components, some of which hold prose. A document is governed by at most one
framework: the one that is asked for, if there is such a framework, or else the first whose imports
occur in the text.
-/

namespace MdxProse

/-- A documentation framework. -/
inductive Framework
  | starlight
  | fern
  | mintlify
  deriving DecidableEq, Repr

namespace Framework

/-- All frameworks; the earlier ones are recognised first. -/
def all : List Framework :=
  [starlight, fern, mintlify]

/-- The name of a framework. -/
def name : Framework → String
  | starlight => "starlight"
  | fern => "fern"
  | mintlify => "mintlify"

/-- What an import from the framework's packages contains. -/
def importMark : Framework → String
  | starlight => "@astrojs/"
  | fern => "@fern-ui/"
  | mintlify => "@mintlify/"

/-- The components that hold prose, in alphabetical order. -/
def components : Framework → List String
  | starlight => ["Aside", "Card", "CardGrid", "FileTree", "LinkCard", "Steps", "TabItem", "Tabs"]
  | fern => [
    "Accordion", "AccordionGroup", "Aside", "Card", "Check", "Error", "Frame", "Indent", "Info",
    "Launch", "Note", "ParamField", "Step", "Steps", "Success", "Tab", "Tabs", "Tip", "Tooltip",
    "Warning"]
  | mintlify => [
    "Accordion", "AccordionGroup", "Aside", "Callout", "Card", "CardGroup", "Check", "Column",
    "Columns", "Definition", "Expandable", "Frame", "Info", "Note", "Param", "ParamField",
    "ResponseField", "Step", "Steps", "Tab", "Tabs", "Tip", "Tooltip", "Update", "Warning"]

/-- The framework of a name, whatever its case. -/
def ofName? (s : String) : Option Framework :=
  all.find? (·.name.toList == Text.lower s.toList)

/-- Does the text import from the framework? -/
def occursIn (f : Framework) (text : List Char) : Bool :=
  (Text.indexOf? f.importMark.toList text).isSome

/-- The first framework from which the text imports. -/
def detect? (text : List Char) : Option Framework :=
  all.find? (·.occursIn text)

/-! ### Choosing a framework -/

/-- A step on the way to the framework of a document. -/
inductive Choice
  | requested (f : Framework)
  | unknown (request : String)
  | detected (f : Framework)
  | undetected
  deriving DecidableEq, Repr

/-- The framework of a choice. -/
def Choice.framework? : Choice → Option Framework
  | requested f => some f
  | detected f => some f
  | _ => none

/-- The choice by what the text imports. -/
def Choice.ofText (text : List Char) : Choice :=
  match detect? text with
  | some f => detected f
  | none => undetected

/-- The steps to the framework of a text. An empty request is none, and one that nothing answers is
passed over. -/
def choices (text : List Char) (request : Option String) : List Choice :=
  match request with
  | none => [.ofText text]
  | some s =>
    if s.isEmpty then [.ofText text]
    else
      match ofName? s with
      | some f => [.requested f]
      | none => [.unknown s, .ofText text]

/-- The framework of a text. -/
def governing? (text : List Char) (request : Option String) : Option Framework :=
  (choices text request).findSome? Choice.framework?

end Framework

end MdxProse
