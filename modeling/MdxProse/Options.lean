import MdxProse.Text.Blank
import MdxProse.Text.Digit
import MdxProse.Text.Quoted

/-! # Options

The arguments of the program: options, and the name of one file. An option may be shortened as long
as no other starts the same way, a value may follow after `=`, and short options may be written
together. After `--` nothing is an option.
-/

namespace MdxProse

/-- An option of the program. -/
inductive Flag
  | help
  | framework
  | verbose
  | version
  deriving DecidableEq, Repr

namespace Flag

/-- All options and the ways to write them. -/
def spellings : List (String × Flag) := [
  ("-h", help), ("--help", help), ("--framework", framework), ("--verbose", verbose),
  ("-v", verbose), ("--version", version)]

/-- The option written as `s`. -/
def ofSpelling? (s : List Char) : Option Flag :=
  (spellings.find? (·.1.toList == s)).map (·.2)

/-- The option as usage errors name it. -/
def title (f : Flag) : String :=
  "/".intercalate ((spellings.filter (·.2 = f)).map (·.1))

end Flag

/-- Why arguments are refused. -/
inductive UsageError
  | ambiguous (argument : String) (candidates : List String)
  | missingValue (f : Flag)
  | unusedValue (f : Flag) (value : String)
  | unrecognized (arguments : List String)
  deriving DecidableEq, Repr

/-- The wording of a usage error. -/
def UsageError.message : UsageError → String
  | ambiguous argument candidates =>
    s!"ambiguous option: {argument} could match " ++ ", ".intercalate candidates
  | missingValue f => s!"argument {f.title}: expected one argument"
  | unusedValue f value =>
    s!"argument {f.title}: ignored explicit argument " ++
      String.ofList (Text.quoted value.toList)
  | unrecognized arguments => "unrecognized arguments: " ++ " ".intercalate arguments

/-! ### Single arguments -/

/-- What an argument is, seen by itself. -/
inductive Argument
  /-- A word: a file or the value of an option. -/
  | word (s : String)
  /-- An option with two dashes, and its value after `=`. -/
  | long (f : Flag) (value : Option String)
  /-- An option with one dash, and the characters written together with it. -/
  | short (f : Flag) (attached : List Char)
  | unknown (s : String)
  /-- The end of all options. -/
  | stop
  deriving DecidableEq, Repr

namespace Argument

/-- A negative number: an integer, or a decimal number with digits after the point. -/
def isNegativeNumber : List Char → Bool
  | '-' :: s =>
    let s := if s.getLast? == some '\n' then s.dropLast else s
    let fraction := (s.dropWhile Text.isDecimal)
    match fraction with
    | [] => !s.isEmpty
    | '.' :: r => !r.isEmpty && r.all Text.isDecimal
    | _ => false
  | _ => false

/-- The parts of an argument before and after the first `=`. -/
def splitValue (s : List Char) : List Char × Option String :=
  match s.dropWhile (· != '=') with
  | [] => (s, none)
  | _ :: value => (s.takeWhile (· != '='), some (String.ofList value))

/-- An argument that starts with a dash but with no option. -/
def dashed (s : String) : Argument :=
  if isNegativeNumber s.toList || s.toList.contains ' ' then word s else unknown s

/-- An argument that starts with two dashes: an option in full, or the start of just one. -/
def ofLong (s : String) : Except UsageError Argument :=
  let (spelling, value) := splitValue s.toList
  match Flag.ofSpelling? spelling with
  | some f => .ok (long f value)
  | none =>
    match Flag.spellings.filter (spelling.isPrefixOf ·.1.toList) with
    | [] => .ok (dashed s)
    | [(_, f)] => .ok (long f value)
    | several => .error (.ambiguous s (several.map (·.1)))

/-- What an argument is. -/
def ofString (s : String) : Except UsageError Argument :=
  match s.toList with
  | '-' :: '-' :: _ => ofLong s
  | '-' :: c :: attached =>
    match Flag.ofSpelling? ['-', c] with
    | some f => .ok (short f attached)
    | none => .ok (dashed s)
  | _ => .ok (word s)

/-- What several arguments are; after `--` they are words. -/
def ofStrings : List String → Except UsageError (List Argument)
  | [] => .ok []
  | "--" :: rest => .ok (stop :: rest.map word)
  | s :: rest => do
    let a ← ofString s
    let as ← ofStrings rest
    pure (a :: as)

end Argument

/-! ### All arguments -/

/-- How the program is to convert. Without a file, it reads its input. -/
structure Options where
  file : Option String
  framework : Option String
  verbose : Bool
  deriving DecidableEq, Repr

/-- What the program is to do. -/
inductive Request
  | help
  | version
  | convert (o : Options)
  deriving DecidableEq, Repr

namespace Options

/-- Nothing is asked for. -/
def none : Options :=
  ⟨.none, .none, false⟩

/-- The options that `f`, with one dash, and the characters after it stand for, and what is left as
an argument that is not known. These options have no values. -/
def cluster (f : Flag) : List Char → Except UsageError (List Flag × Option String)
  | [] => .ok ([f], .none)
  | '=' :: value => .error (.unusedValue f (String.ofList value))
  | '-' :: rest => .error (.unusedValue f (String.ofList ('-' :: rest)))
  | c :: rest =>
    match Flag.ofSpelling? ['-', c] with
    | .none => .ok ([f], some (String.ofList ('-' :: c :: rest)))
    | some g => do
      let (gs, left) ← cluster g rest
      pure (f :: gs, left)

/-- Options without values are met: the first that asks for an answer gets it. -/
def meet (o : Options) : List Flag → Request ⊕ Options
  | [] => .inr o
  | .help :: _ => .inl .help
  | .version :: _ => .inl .version
  | .verbose :: fs => meet { o with verbose := true } fs
  | .framework :: fs => meet o fs

/-- What the arguments ask for, given the options so far, the words for which there is no use, last
first, and whether the last argument was taken as the file. -/
def gather (o : Options) (unused : List String) (atFile : Bool) :
    List Argument → Except UsageError Request
  | [] => if unused.isEmpty then .ok (.convert o) else .error (.unrecognized unused.reverse)
  | .word s :: as =>
    if o.file.isNone then gather { o with file := some s } unused true as
    else gather o (s :: unused) false as
  | .unknown s :: as => gather o (s :: unused) false as
  | .stop :: as =>
    if o.file.isNone || atFile then gather o unused false as else gather o ("--" :: unused) false as
  | .long .framework .none :: .word s :: as =>
    gather { o with framework := some s } unused false as
  | .long .framework .none :: _ => .error (.missingValue .framework)
  | .long .framework (some s) :: as => gather { o with framework := some s } unused false as
  | .long f (some s) :: _ => .error (.unusedValue f s)
  | .long f .none :: as =>
    match o.meet [f] with
    | .inl r => .ok r
    | .inr o => gather o unused false as
  | .short f attached :: as => do
    let (fs, left) ← cluster f attached
    match o.meet fs with
    | .inl r => .ok r
    | .inr o => gather o (left.toList ++ unused) false as

/-- What the arguments ask for. -/
def ofArguments (args : List String) : Except UsageError Request := do
  let as ← Argument.ofStrings args
  gather none [] false as

end Options

end MdxProse
