import Sigil.Loading
import Sigil.Operators.Host
import Sigil.Program

/-!
# The command line

`dsl-run` evaluates a program file and prints the result as JSON.
-/

namespace Sigil.CommandLine

structure Options where
  program : String
  /-- A JSON file with the initial environment. -/
  env : Option String := none
  /-- A TOML file with settings. -/
  config : Option String := none
  /-- Let timers go on after the result is printed. -/
  wait : Bool := false
deriving DecidableEq, Repr

inductive UsageError where
  | needsFile (flag : String)
  | unknownFlag (flag : String)
  | unexpected (arg : String)
  | noProgram
deriving DecidableEq, Repr

def UsageError.message : UsageError → String
  | .needsFile flag => s!"{flag} needs a file"
  | .unknownFlag flag => s!"unknown flag {flag}"
  | .unexpected arg => s!"unexpected argument {arg}"
  | .noProgram => "missing program file"

def usage : String :=
  "usage: dsl-run [--env <env.json>] [--config <host.toml>] [--wait] <program>"

/-- Options as far as they have been read. -/
structure Draft where
  program : Option String := none
  env : Option String := none
  config : Option String := none
  wait : Bool := false

def isFlag (arg : String) : Bool := arg.toList.take 2 = ['-', '-']

/-- Reads arguments from left to right. The last one of a repeated flag counts. -/
def readOptions : Draft → List String → Except UsageError Options
  | d, [] =>
    match d.program with
    | none => .error .noProgram
    | some program => .ok { program, env := d.env, config := d.config, wait := d.wait }
  | d, "--env" :: file :: rest => readOptions { d with env := some file } rest
  | d, "--config" :: file :: rest => readOptions { d with config := some file } rest
  | d, arg :: rest =>
    if arg = "--env" || arg = "--config" then .error (.needsFile arg)
    else if arg = "--wait" then readOptions { d with wait := true } rest
    else if isFlag arg then .error (.unknownFlag arg)
    else if d.program.isNone then readOptions { d with program := some arg } rest
    else .error (.unexpected arg)

def options (args : List String) : Except UsageError Options := readOptions {} args

/-- What a run needs from its files: the settings, the program and the environment, looked for in
this order. -/
structure Job where
  config : Config
  form : Json
  env : Json

def Job.load (files : Files) (var? : String → Option String) (o : Options) :
    Except SetupError Job := do
  let config ← files.config o.config var?
  let form ← files.program o.program
  let env ← match o.env with
    | none => .ok .null
    | some path => do Files.readJson (← files.read path)
  return { config, form, env }

def Job.run (job : Job) : EvalM Value := do
  let env ← Env.ofJson job.env
  Registry.host.run env job.form

/-- How a run ended, with the text that it printed on the way. -/
inductive Ending where
  | finished (printed : String) (result : Json)
  | failed (printed : String) (error : SetupError)
  | misused (error : UsageError)
  | crashed (printed : String)

namespace Ending

def code : Ending → Nat
  | .finished .. => 0
  | .failed .. => 1
  | .misused _ => 2
  | .crashed _ => 101

def output : Ending → String
  | .finished printed result => printed ++ result.render ++ "\n"
  | .failed printed _ => printed
  | .misused _ => ""
  | .crashed printed => printed

/-- The text on the error stream. A crash is reported by the runtime. -/
def errorOutput : Ending → String
  | .finished .. => ""
  | .failed _ error => error.message ++ "\n"
  | .misused error => error.message ++ "\n" ++ usage ++ "\n"
  | .crashed _ => ""

end Ending

/-- Runs the program that the options ask for, from a given state. `none` means that the evaluation
went too deep. -/
def execute (files : Files) (var? : String → Option String) (start : State) (o : Options) :
    Option (Ending × State) :=
  match Job.load files var? o with
  | .error e => some (.failed "" e, start)
  | .ok job =>
    match job.run start with
    | .ended ⟨.ok v, s⟩ => some (.finished s.printed (v.toJson s.heap), s)
    | .ended ⟨.error e, s⟩ => some (.failed s.printed (.program e), s)
    | .crashed s => some (.crashed s.printed, s)
    | .tooDeep => none

end Sigil.CommandLine
