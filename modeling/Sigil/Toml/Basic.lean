import Sigil.Fields

/-!
# TOML documents

A document is a table. How a table came about decides how it may still be added to, so tables carry
their origin.
-/

namespace Sigil

/-- How a table was introduced. -/
inductive Toml.Origin where
  /-- By a header of its own. -/
  | header
  /-- On the way to the table of a header. -/
  | path
  /-- On the way to a dotted key. -/
  | dotted
  /-- Between braces. -/
  | inline
deriving DecidableEq, Repr

inductive Toml where
  | string (s : String)
  | integer (n : Int)
  | float (x : Float)
  | boolean (b : Bool)
  /-- A date, a time or both, as written. -/
  | moment (text : String)
  | array (items : List Toml)
  | table (origin : Toml.Origin) (fields : List (String × Toml))
  /-- The tables under repeated headers in double brackets, the last one last. -/
  | tables (rows : List (List (String × Toml)))

namespace Toml

abbrev Table := List (String × Toml)

/-- Adds a value under a dotted key below a table. Tables on the way are made, but not those of a
header or between braces, and the innermost one has to be the work of a dotted key as well. -/
def Table.add? (value : Toml) (key : String) : List String → Table → Option Table
  | [], t =>
    match t.lookup key with
    | none => some (overwrite key value t)
    | some _ => none
  | next :: more, t =>
    match t.lookup key with
    | none =>
      (Table.add? value next more []).map fun inner => overwrite key (.table .dotted inner) t
    | some (.table .dotted inner) =>
      (Table.add? value next more inner).map fun inner => overwrite key (.table .dotted inner) t
    | some (.table .path inner) =>
      if more.isEmpty then none
      else (Table.add? value next more inner).map fun inner => overwrite key (.table .path inner) t
    | some _ => none

/-- Changes the table at a path of header names. Tables on the way are made; of repeated tables the
last one is meant. -/
def Table.modify? (f : Table → Option Table) : List String → Table → Option Table
  | [], t => f t
  | key :: rest, t =>
    match t.lookup key with
    | none => (Table.modify? f rest []).map fun inner => overwrite key (.table .path inner) t
    | some (.table .inline _) => none
    | some (.table origin inner) =>
      (Table.modify? f rest inner).map fun inner => overwrite key (.table origin inner) t
    | some (.tables rows) =>
      match rows.getLast? with
      | none => none
      | some row =>
        (Table.modify? f rest row).map fun row => overwrite key (.tables (rows.dropLast ++ [row])) t
    | some _ => none

/-- Begins the table of a header, which may so far only have been on the way to another. -/
def Table.open? (key : String) (t : Table) : Option Table :=
  match t.lookup key with
  | none => some (overwrite key (.table .header []) t)
  | some (.table .path inner) => some (overwrite key (.table .header inner) t)
  | some _ => none

/-- Begins the next table of a header in double brackets. -/
def Table.openRow? (key : String) (t : Table) : Option Table :=
  match t.lookup key with
  | none => some (overwrite key (.tables [[]]) t)
  | some (.tables rows) => some (overwrite key (.tables (rows ++ [[]])) t)
  | some _ => none

end Toml

end Sigil
