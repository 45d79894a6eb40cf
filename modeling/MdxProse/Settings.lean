import MdxProse.Text.CaseMap

/-! # Settings

Settings come from environment variables, whose names may be in any case. An empty value is a value.
-/

namespace MdxProse

/-- How much a program logs: all that is at least as severe. -/
inductive Level
  | trace
  | debug
  | info
  | success
  | warning
  | error
  | critical
  deriving DecidableEq, Repr

namespace Level

/-- All levels, from the least severe on. -/
def all : List Level :=
  [trace, debug, info, success, warning, error, critical]

/-- The name of a level. -/
def name : Level → String
  | trace => "TRACE"
  | debug => "DEBUG"
  | info => "INFO"
  | success => "SUCCESS"
  | warning => "WARNING"
  | error => "ERROR"
  | critical => "CRITICAL"

/-- The level of a name, whatever its case. -/
def ofName? (s : String) : Option Level :=
  all.find? (·.name.toList == Text.upper s.toList)

/-- The severity of a level. -/
def severity : Level → Nat
  | trace => 5
  | debug => 10
  | info => 20
  | success => 25
  | warning => 30
  | error => 40
  | critical => 50

/-- Does a program at this level log what is of the level `l`? -/
def shows (threshold l : Level) : Bool :=
  threshold.severity ≤ l.severity

end Level

/-- The settings of a program. -/
structure Settings where
  framework : Option String
  logLevel : String
  deriving DecidableEq, Repr

namespace Settings

/-- What the names of all variables start with. -/
def variablePrefix : String := "mdx2vast_"

/-- The value of a setting; of several variables for it the last counts. -/
def lookup? (environment : List (String × String)) (setting : String) : Option String :=
  let name := (variablePrefix ++ setting).toList
  (environment.reverse.find? fun v => Text.lower v.1.toList == name).map (·.2)

/-- The settings that environment variables make. -/
def ofVariables (environment : List (String × String)) : Settings where
  framework := lookup? environment "framework"
  logLevel := (lookup? environment "log_level").getD Level.warning.name

end Settings

end MdxProse
