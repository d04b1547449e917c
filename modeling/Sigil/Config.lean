import Sigil.Error
import Sigil.Text.Blank
import Sigil.Text.Quoted
import Sigil.Toml.Document

/-!
# Settings and what can go wrong before a program runs

Settings come from defaults, then from a TOML file, then from environment variables.
-/

namespace Sigil

/-- Settings that make no sense. -/
inductive ConfigFault where
  | timeoutText (raw : String)
  | noTimeout

/-- Why a program did not run, or how it failed. -/
inductive SetupError where
  | missingFile (path : String)
  | config (fault : ConfigFault)
  | toml
  | yaml
  | json
  | program (error : EvalError)

structure Config where
  /-- For connecting, reading and writing, each on its own, in milliseconds. -/
  timeout : Nat := 30000
  userAgent : String := "dsl-host/0.1.0"
deriving DecidableEq, Repr

namespace Config

def timeoutVariable : String := "DSL_HTTP_TIMEOUT_MS"
def userAgentVariable : String := "DSL_HTTP_USER_AGENT"

end Config

def ConfigFault.message : ConfigFault → String
  | .timeoutText raw => Config.timeoutVariable ++ " must be an integer, got " ++ Text.quoted raw
  | .noTimeout => "http.timeout_ms must be positive"

def SetupError.message : SetupError → String
  | .missingFile path => s!"cannot read {path}: No such file or directory (os error 2)"
  | .config fault => "invalid configuration: " ++ fault.message
  | .toml => "invalid TOML"
  | .yaml => "invalid YAML"
  | .json => "invalid JSON"
  | .program error => error.message

namespace Config

def timeoutOf? : Toml → Option Nat
  | .integer n => if 0 ≤ n then some n.toNat else none
  | _ => none

def userAgentOf? : Toml → Option String
  | .string s => some s
  | _ => none

/-- Takes over settings by name; there are no others. -/
def ofFields? : Config → Toml.Table → Option Config
  | c, [] => some c
  | c, (name, v) :: rest =>
    if name = "timeout_ms" then
      (timeoutOf? v).bind fun timeout => ofFields? { c with timeout } rest
    else if name = "user_agent" then
      (userAgentOf? v).bind fun userAgent => ofFields? { c with userAgent } rest
    else none

/-- Takes over settings by position. Further items are not looked at. -/
def ofItems? (c : Config) : List Toml → Option Config
  | [] => some c
  | [v] => (timeoutOf? v).map fun timeout => { c with timeout }
  | v :: w :: _ => do
    let timeout ← timeoutOf? v
    let userAgent ← userAgentOf? w
    return { timeout, userAgent }

/-- Reads the settings under `http`. -/
def ofSection? : Toml → Option Config
  | .table _ fields => ofFields? {} fields
  | .array items => ofItems? {} items
  | _ => none

/-- Reads a document, whose only field is `http`. -/
def ofTable? : Toml.Table → Option Config
  | [] => some {}
  | [("http", v)] => ofSection? v
  | _ => none

/-- Reads a TOML text. -/
def ofToml (text : String) : Except SetupError Config :=
  match (Toml.read? text).bind ofTable? with
  | some c => .ok c
  | none => .error .toml

/-- Applies the environment variables and checks the result. -/
def override (c : Config) (var? : String → Option String) : Except SetupError Config := do
  let c ← match var? timeoutVariable with
    | none => .ok c
    | some raw =>
      match Number.readWord? (Text.trim raw.toList) with
      | some timeout => .ok { c with timeout }
      | none => .error (.config (.timeoutText raw))
  let c := match var? userAgentVariable with
    | none => c
    | some userAgent => { c with userAgent }
  if c.timeout = 0 then .error (.config .noTimeout) else .ok c

end Config

end Sigil
