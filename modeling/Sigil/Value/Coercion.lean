import Sigil.Value.Document
import Sigil.Error
import Sigil.Number.Numeral
import Sigil.Text.Blank
import Sigil.Text.Quoted

/-!
# Coercions, members and assignment

How a value is used where a number, a text, a sequence, a key or a container is wanted.
-/

namespace Sigil.Value

/-- The integer of a numeral between blanks; decimals lose their fraction. -/
def intOfText? (s : String) : Option Int64 :=
  let cs := Text.trim s.toList
  Number.readInt64? cs <|> (Number.readFinite? cs).map Number.truncate64

/-- Integer coercion: numerals are read and doubles lose their fraction. -/
def toInt (h : Heap) : Value → Except EvalError Int64
  | .int n => .ok n
  | .string s =>
    match intOfText? s with
    | some n => .ok n
    | none => .error (.typeMismatch (.notNumeral s))
  | .float x =>
    if (Number.Parts.ofFloat x).isFinite then .ok (Number.truncate64 x)
    else .error (.typeMismatch (.notInteger "float"))
  | v => .error (.typeMismatch (.notInteger (v.kind h)))

/-- Text coercion: strings as they are, numbers as integers, anything else as its document. -/
def toText (h : Heap) : Value → String
  | .string s => s
  | .int n => String.ofList (Json.intText n.toInt)
  | .float x =>
    if (Number.Parts.ofFloat x).isFinite then
      String.ofList (Json.intText (Number.truncate64 x).toInt)
    else (toJson h (.float x)).render
  | .pattern p => p.source
  | v => (toJson h v).render

/-- Sequence coercion: a list as it is now, nothing for null, otherwise the value alone. -/
def toElements (h : Heap) : Value → List Value
  | .list r => h.list r
  | .null => []
  | v => [v]

/-- The position in a list that a value denotes. -/
def index? : Value → Option Nat
  | .int n => if 0 ≤ n.toInt then some n.toInt.toNat else none
  | .float x =>
    let parts := Number.Parts.ofFloat x
    if parts.isInteger && 0 ≤ parts.truncate then some parts.truncate.toNat else none
  | .string s => Number.readWord? s.toList
  | _ => none

/-- The name of a field that a value denotes. -/
def key? : Value → Option String
  | .string s => some s
  | .int n => some (String.ofList (Json.intText n.toInt))
  | .float x =>
    if (Number.Parts.ofFloat x).isInteger then
      some (String.ofList (Json.intText (Number.truncate64 x).toInt))
    else none
  | _ => none

/-- The value of a member of a native object, which may be new. -/
def ofMember (h : Heap) : Member → Value × Heap
  | .held v => (v, h)
  | .document j => ofJson j h
  | .function f =>
    let (r, h) := h.newFunction f
    (.host r, h)

def nativeMember (h : Heap) (r : NativeRef) (name : String) : Option (Value × Heap) :=
  ((h.native r).member? r name).map (ofMember h)

/-- Reads a member; `none` if there is none. -/
def member (h : Heap) (v key : Value) : Option (Value × Heap) :=
  match v with
  | .list r => (key.index?.bind fun i => (h.list r)[i]?).map (·, h)
  | .map r => (key.key?.bind (h.map r).get?).map (·, h)
  | .native r => key.string?.bind (nativeMember h r)
  | _ => none

/-- Writes a member in place. A position beyond the end of a list is ignored. -/
def assign (h : Heap) (v key value : Value) : Except EvalError Heap :=
  match v with
  | .list r =>
    match key.index? with
    | some i => .ok (h.setList r ((h.list r).set i value))
    | none => .error (.typeMismatch (.listIndex (key.kind h)))
  | .map r =>
    match key.key? with
    | some name => .ok (h.setMap r ((h.map r).set name value))
    | none => .error (.typeMismatch (.mapKey (key.kind h)))
  | v => .error (.typeMismatch (.notContainer (v.kind h)))

/-- The value as error messages show it. -/
def display (h : Heap) : Value → String
  | .null => "null"
  | .bool b => s!"{b}"
  | .int n => String.ofList (Json.intText n.toInt)
  | .float x => String.ofList (displayStyle.write x)
  | .string s => s
  | .pattern p => "/" ++ p.source ++ "/"
  | v => (toJson h v).render

/-- The value with the name of its constructor, for inspection. -/
def debug (h : Heap) : Value → String
  | .null => "Null"
  | .bool b => s!"Bool({b})"
  | .int n => "Int(" ++ String.ofList (Json.intText n.toInt) ++ ")"
  | .float x => "Float(" ++ String.ofList (displayStyle.write x) ++ ")"
  | .string s => "String(" ++ Text.quoted s ++ ")"
  | .list r => "List(" ++ (toJson h (.list r)).render ++ ")"
  | .map r => "Map(" ++ (toJson h (.map r)).render ++ ")"
  | .closure r =>
    "Closure([" ++ ", ".intercalate ((h.closure r).params.map Text.quoted) ++ "])"
  | .pattern p => "Pattern(" ++ Text.quoted p.source ++ ")"
  | .native r => "Native(" ++ (h.native r).kind ++ ")"
  | .host r => "Host(" ++ (h.function r).name ++ ")"

end Sigil.Value
