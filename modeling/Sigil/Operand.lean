import Sigil.Error

/-!
# Operands as written

Operators receive their operands unevaluated. A path may be written with or without the point after
its `$`; operands are normalised so that operators see the point.
-/

namespace Sigil

/-- The sigil that begins a path; alone it is the whole environment. -/
def sigil : Char := '$'

/-- Writes a path with a point after its sigil. The sigil alone and text that is no path stay. -/
def normalizePath : List Char → List Char
  | '$' :: [] => ['$']
  | '$' :: '.' :: rest => '$' :: '.' :: rest
  | '$' :: rest => '$' :: '.' :: rest
  | text => text

/-- An operand, not yet evaluated. -/
structure Operand where
  raw : Json

namespace Operand

def ofForm : Json → Operand
  | .string s => ⟨.string (String.ofList (normalizePath s.toList))⟩
  | form => ⟨form⟩

def ofText (text : List Char) : Operand := ofForm (.string (String.ofList text))

/-- The operand's text, if it is a string. -/
def text? (o : Operand) : Option String := o.raw.string?

end Operand

/-- How many operands an operator takes. -/
inductive Arity where
  | any
  | exactly (n : Nat)
  | between (least : Nat) (most : Option Nat)
deriving DecidableEq, Repr

/-- The complaint about a number of operands that does not fit. -/
def Arity.check (operator : String) : Arity → Nat → Except EvalError Unit
  | .any, _ => .ok ()
  | .exactly n, got =>
    if got = n then .ok () else .error (.badOperand (.count operator n got))
  | .between least most, got =>
    if got < least then .error (.badOperand (.tooFew operator least))
    else match most with
      | some most =>
        if most < got then .error (.badOperand (.tooMany operator most)) else .ok ()
      | none => .ok ()

end Sigil
