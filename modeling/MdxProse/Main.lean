import MdxProse.Path
import MdxProse.Program

/-! # The command line

The program itself: it gathers what is around it, runs, and writes what came of that.
-/

open MdxProse

/-- The environment variables that settings come from. -/
def settingVariables : IO (List (String × String)) := do
  let names := ["mdx2vast_framework", "mdx2vast_log_level", "MDX2VAST_FRAMEWORK",
    "MDX2VAST_LOG_LEVEL"]
  names.filterMapM fun name => do
    let value ← IO.getEnv name
    pure (value.map (name, ·))

/-- The bytes of the file that the arguments name. -/
def fileContent (args : List String) : IO (Option (List Nat)) :=
  match Options.ofArguments args with
  | .ok (.convert o) =>
    match o.file with
    | some path =>
      try
        let bytes ← IO.FS.readBinFile (Path.simplify path)
        pure (some (bytes.toList.map UInt8.toNat))
      catch _ => pure none
    | none => pure none
  | _ => pure none

/-- All of the input, if the arguments ask for it. -/
def wholeInput (args : List String) : IO String :=
  match Options.ofArguments args with
  | .ok (.convert o) =>
    if o.file.isNone then do (← IO.getStdin).readToEnd else pure ""
  | _ => pure ""

def main (args : List String) : IO UInt32 := do
  let environment ← settingVariables
  let content ← fileContent args
  let input ← wholeInput args
  match Program.run ⟨environment, input, fun _ => content⟩ args with
  | none =>
    IO.eprintln "The log level is not known."
    pure 1
  | some outcome =>
    for note in outcome.notes do
      IO.eprintln s!"{Level.debug.name} | {note.message}"
    IO.print outcome.output
    IO.eprint outcome.errors
    if let some e := outcome.uncaught then IO.eprintln e.message
    pure outcome.status.toUInt32
