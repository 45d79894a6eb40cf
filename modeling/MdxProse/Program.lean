import MdxProse.Conversion
import MdxProse.Options
import MdxProse.Text.Utf8

/-! # The program

What the program does with its arguments, its environment and its input, short of reading and
writing: what it writes to its two outputs, what it logs, and the status it ends with.
-/

namespace MdxProse

/-- What the program finds around it. -/
structure Surroundings where
  environment : List (String × String)
  input : String
  /-- The bytes of a file, if there is one. -/
  file : String → Option (List Nat)

/-- How the program ends. -/
structure Outcome where
  status : Nat
  output : String
  errors : String
  notes : List Note
  /-- The error that stopped the program, if it met one that it has no report for. -/
  uncaught : Option RenderError

namespace Program

/-- The name of the program. -/
def name : String := "mdx2vast"

/-- The version of the program. -/
def version : String := "0.4.0"

/-- How to use the program, in one line. -/
def usage : String :=
  "usage: " ++ name ++ " [-h] [--framework FRAMEWORK] [--verbose] [--version] [file]\n"

/-- How to use the program, at length. -/
def help : String :=
  String.join (usage :: [
    "",
    "Convert MDX to HTML for the Vale linter",
    "",
    "positional arguments:",
    "  file                  MDX file to convert (default: read stdin)",
    "",
    "options:",
    "  -h, --help            show this help message and exit",
    "  --framework FRAMEWORK",
    "                        Framework whose prose components are unwrapped",
    "                        (starlight, fern, mintlify); overrides",
    "                        MDX2VAST_FRAMEWORK and import detection",
    "  --verbose, -v         Log conversion decisions to stderr",
    "  --version             show program's version number and exit"].map (· ++ "\n"))

/-- The text to convert: the input unless it is blank, or a file. -/
def text (s : Surroundings) (o : Options) : Except InputError String :=
  match o.file with
  | none =>
    let w := unifyBreaks s.input.toList
    if w.all Text.isBlank then .error .empty else .ok (String.ofList w)
  | some path =>
    match s.file path with
    | none => .error .noFile
    | some bytes =>
      match Text.Utf8.decode bytes with
      | .ok w => .ok (String.ofList (unifyBreaks w))
      | .error e => .error (.unreadable e.message)

/-- A program that ends with a failure. -/
def failing (message : String) (notes : List Note) : Outcome :=
  ⟨(Report.failure message).exitCode, "", message ++ "\n", notes, none⟩

/-- The outcome of converting a text. Only what is wrong with the text is reported. -/
def convert (text : String) (framework : Option String) (settings : Settings) : Outcome :=
  let c := MdxProse.convert text framework settings
  match c.html with
  | .ok html => ⟨0, html ++ "\n", "", c.notes, none⟩
  | .error (.invalid e) => failing ("Error: " ++ e.message) (c.notes ++ [.failed e])
  | .error (.unrenderable e) => ⟨1, "", "", c.notes, some e⟩

/-- The level of the log, if there is a level of that name. -/
def level? (o : Options) (settings : Settings) : Option Level :=
  if o.verbose then some .debug else Level.ofName? settings.logLevel

/-- The program with options: `none` if the level of the log is not known. All notes are logged at
the level `debug`. -/
def runWith (s : Surroundings) (o : Options) : Option Outcome :=
  let settings := Settings.ofVariables s.environment
  (level? o settings).map fun level =>
    let outcome :=
      match text s o with
      | .ok t => convert t o.framework settings
      | .error e => failing e.message []
    if level.shows .debug then outcome else { outcome with notes := [] }

/-- The program with arguments. -/
def run (s : Surroundings) (args : List String) : Option Outcome :=
  match Options.ofArguments args with
  | .error e => some ⟨2, "", usage ++ name ++ ": error: " ++ e.message ++ "\n", [], none⟩
  | .ok .help => some ⟨0, help, "", [], none⟩
  | .ok .version => some ⟨0, name ++ " " ++ version ++ "\n", "", [], none⟩
  | .ok (.convert o) => runWith s o

end Program

end MdxProse
