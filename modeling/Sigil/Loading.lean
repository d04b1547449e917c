import Sigil.Config
import Sigil.Yaml.Document

/-!
# Reading files

Files are given as a function from names to contents.
-/

namespace Sigil

/-- The contents of files by name. -/
abbrev Files := String → Option String

namespace Files

def read (files : Files) (path : String) : Except SetupError String :=
  match files path with
  | some text => .ok text
  | none => .error (.missingFile path)

/-- Splits a path at its slashes and drops parts that stand for the same place. -/
def parts (path : List Char) : List (List Char) :=
  (path.splitOn '/').filter fun part => part ≠ [] && part ≠ ['.']

/-- What follows the last point in the last part of a path. A point at the beginning does not
count. -/
def extension? (path : List Char) : Option (List Char) :=
  match (parts path).getLast? with
  | none => none
  | some name =>
    if name = ['.', '.'] then none
    else
      let ending := name.reverse.takeWhile (· ≠ '.')
      if ending.length + 1 < name.length then some ending.reverse else none

/-- The path ends in `.json`, in letters of either case. -/
def isJsonPath (path : String) : Bool :=
  match extension? path.toList with
  | some ending => ending.map Char.toLower = "json".toList
  | none => false

def readJson (text : String) : Except SetupError Json :=
  match Json.read? text with
  | some j => .ok j
  | none => .error .json

def readYaml (text : String) : Except SetupError Json :=
  match Yaml.read? text with
  | some j => .ok j
  | none => .error .yaml

/-- Loads a program: JSON by the name of the file, YAML otherwise. -/
def program (files : Files) (path : String) : Except SetupError Json := do
  let text ← files.read path
  if isJsonPath path then readJson text else readYaml text

/-- Loads the settings from a file, if one is given, and applies the environment variables. -/
def config (files : Files) (path? : Option String) (var? : String → Option String) :
    Except SetupError Config := do
  let c ← match path? with
    | none => .ok {}
    | some path => do Config.ofToml (← files.read path)
  c.override var?

end Files

end Sigil
