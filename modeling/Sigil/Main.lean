import Std.Time.DateTime.Timestamp
import Sigil.CommandLine

/-!
# The executable

Reads the files that the options name, runs the program, prints what came of it and, if asked to,
goes on with the timers.
-/

namespace Sigil.CommandLine

/-- Reads files, as far as they can be read. -/
def readFiles : List String → IO Files
  | [] => return fun _ => none
  | path :: rest => do
    let text ← try some <$> IO.FS.readFile path catch _ => pure none
    let others ← readFiles rest
    return fun name => if name = path then text else others name

/-- The files that the options name. -/
def Options.paths (o : Options) : List String := o.program :: (o.env.toList ++ o.config.toList)

/-- Looks up the environment variables that settings may come from. -/
def readVariables : IO (String → Option String) := do
  let timeout ← IO.getEnv Config.timeoutVariable
  let userAgent ← IO.getEnv Config.userAgentVariable
  return fun name =>
    if name = Config.timeoutVariable then timeout
    else if name = Config.userAgentVariable then userAgent
    else none

def currentTime : IO Int64 := do
  let time ← Std.Time.Timestamp.now
  return Int64.ofInt time.toMillisecondsSinceUnixEpoch.val

/-- Timers that are not cancelled, with their periods in milliseconds. -/
def runningTimers (h : Heap) : List (Nat × Nat) :=
  (List.range h.natives.size).filterMap fun i =>
    match h.native ⟨i⟩ with
    | .timer t => if t.cancelled then none else some (i, max 1 (t.period / Operators.minPeriod))
    | _ => none

/-- Prints text at once. -/
def printNow (text : String) : IO Unit := do
  IO.print text
  (← IO.getStdout).flush

/-- The state of the timers, and those whose threads have crashed. -/
structure Clockwork where
  state : State
  dead : List Nat := []

/-- Lets a timer tick, and prints what it printed. -/
def tickNow (c : Clockwork) (timer : Nat) : IO Clockwork := do
  let clock ← currentTime
  match Registry.host.tick ⟨timer⟩ { c.state with clock, printed := "" } with
  | .ended outcome => do
    printNow outcome.state.printed
    return { c with state := outcome.state }
  | .crashed state => do
    printNow state.printed
    return { state, dead := timer :: c.dead }
  | .tooDeep => return c

/-- Goes on with the timers for ever. A timer that is new to `due` waits for one period first. -/
partial def keepTicking (due : List (Nat × Nat)) (c : Clockwork) : IO Unit := do
  let time ← IO.monoMsNow
  let alive := (runningTimers c.state.heap).filter fun (timer, _) => !c.dead.contains timer
  let next := alive.map fun (timer, period) =>
    (timer, period, (due.lookup timer).getD (time + period))
  let ready := next.filter fun (_, _, at_) => at_ ≤ time
  let c ← ready.foldlM (fun c (timer, _, _) => tickNow c timer) c
  let due := next.map fun (timer, period, at_) =>
    (timer, if at_ ≤ time then at_ + period else at_)
  let wake := due.foldl (fun wake (_, at_) => min wake at_) (time + 1000)
  IO.sleep (UInt32.ofNat (wake - time))
  keepTicking due c

/-- Prints how a run ended. -/
def report (ending : Ending) : IO UInt32 := do
  printNow ending.output
  IO.eprint ending.errorOutput
  return UInt32.ofNat ending.code

end Sigil.CommandLine

open Sigil.CommandLine in
def main (args : List String) : IO UInt32 := do
  match options args with
  | .error e => report (.misused e)
  | .ok o => do
    let files ← readFiles o.paths
    let vars ← readVariables
    let clock ← currentTime
    match execute files vars { clock } o with
    | none => do
      IO.eprintln "evaluation is nested too deeply"
      return 1
    | some (ending, s) => do
      let code ← report ending
      if o.wait && code = 0 then keepTicking [] { state := s }
      return code
