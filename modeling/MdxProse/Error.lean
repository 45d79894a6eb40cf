import MdxProse.Document

/-! # Errors

What can go wrong, by cause. The wording of each error is in one place.
-/

namespace MdxProse

/-- What is wrong with the embedded code of a document. -/
inductive SyntaxFault
  /-- A closing tag that closes nothing. -/
  | strayClosingTag (tag : String)
  /-- An opening tag that nothing closes. -/
  | unclosedTag (tag : String)
  /-- An opening brace that nothing balances. -/
  | unclosedExpression
  deriving DecidableEq, Repr

/-- The wording of a fault. -/
def SyntaxFault.message : SyntaxFault → String
  | strayClosingTag tag => "Unexpected closing tag `" ++ tag ++ "`"
  | unclosedTag tag => "Expected a closing tag for `" ++ tag ++ "`"
  | unclosedExpression => "Could not find the end of the `\x7b` expression"

/-- A fault in a document. Only block rules know the line, counted from one. -/
structure SyntaxError where
  fault : SyntaxFault
  line : Option Nat
  deriving DecidableEq, Repr

/-- Why there is nothing to convert. -/
inductive InputError
  | empty
  | noFile
  | unreadable (reason : String)
  deriving DecidableEq, Repr

/-- The wording of an input error. -/
def InputError.message : InputError → String
  | empty => "No input provided."
  | noFile => "File does not exist or the path is incorrect."
  | unreadable reason => "Error reading the file: " ++ reason

/-- Why a node cannot be rendered. -/
inductive RenderError
  /-- A node of this type has no span. -/
  | noSpan (nodeType : String)
  | badSpan (reason : PositionError)
  deriving DecidableEq, Repr

/-! ### Reports

A report is what a failure looks like from outside: a message, a few fields for the log and an exit
code.
-/

/-- A failure as it is reported. -/
inductive Report
  | failure (text : String)
  | invalidInput (text : String)
  | invalidSyntax (text : String) (line : Option Int)
  | noPosition (nodeType : String) (text : Option String)
  deriving DecidableEq, Repr

namespace Report

/-- The message: a syntax report ends with its line, if that is known; a missing position has a
wording of its own unless another one is given. -/
def message : Report → String
  | failure text => text
  | invalidInput text => text
  | invalidSyntax text none => text
  | invalidSyntax text (some line) => s!"{text} (line {line})"
  | noPosition nodeType text =>
    match text with
    | some "" => s!"{nodeType} node has no source position"
    | some t => t
    | none => s!"{nodeType} node has no source position"

/-- The status with which a program that met the failure ends. -/
def exitCode : Report → Nat :=
  fun _ => 1

end Report

/-- The report of a syntax error. -/
def SyntaxError.report (e : SyntaxError) : Report :=
  .invalidSyntax e.fault.message (e.line.map Int.ofNat)

/-- The message of a syntax error. -/
def SyntaxError.message (e : SyntaxError) : String :=
  e.report.message

/-- The message of a render error. -/
def RenderError.message : RenderError → String
  | noSpan nodeType => (Report.noPosition nodeType none).message
  | badSpan reason => reason.message

/-! ### Success -/

/-- What runs without an error does so in each of its steps. -/
theorem Except.bind_eq_ok {ε α β : Type} {x : Except ε α} {f : α → Except ε β} {b : β} :
    (x >>= f) = .ok b ↔ ∃ a, x = .ok a ∧ f a = .ok b := by
  cases x with
  | error e => exact ⟨nofun, fun ⟨_, h, _⟩ => nomatch h⟩
  | ok a => exact ⟨fun h => ⟨a, rfl, h⟩, fun ⟨_, h, hf⟩ => by cases h; exact hf⟩

end MdxProse
