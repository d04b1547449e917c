import Sigil.Json.Writer

/-!
# What can go wrong in a program

Errors are causes; `EvalError.message` has their wording.
-/

namespace Sigil

/-- Doubles in messages are written positionally, without a needless point; a tie between two
shortest decimals goes up. -/
def displayStyle : Number.Style :=
  { tie := .up, positional := fun _ => true, pointed := false }

/-- A value of the wrong kind. Kinds are the names that programs see. -/
inductive Mismatch where
  | notCallable (kind : String)
  | notNumeral (text : String)
  | notInteger (kind : String)
  | listIndex (kind : String)
  | mapKey (kind : String)
  | notContainer (kind : String)
  | divisionByZero
  | condition (form : Json) (kind : String)
  | predicate (form : Json) (kind : String)
  | uniqueSource (kind : String)
  | noLength (kind : String)
  | notReversible (kind : String)
  | requestUrl (kind : String)
  | yamlText (operator kind : String)
  | document (operator : String) (got : Json)

/-- A wrong number of operands, or an operand that is not written as it should be. -/
inductive BadOperand where
  /-- An operand is used that is not there. -/
  | missing
  | count (operator : String) (expected got : Nat)
  | tooFew (operator : String) (least : Nat)
  | tooMany (operator : String) (most : Nat)
  | notLiteral (operator role : String) (form : Json)
  | names (role : String) (form : Json)
  | relation (symbol : String)
  | uniqueKind (kind : String)
  | uniqueCapacity (shown : String)
  | patternSource (kind : String)
  | pattern
  | period (shown : String)
  | periodRange (seconds : Float)
  | periodShort (seconds : Float)
  | requestMethod (form : Json)
  | collection (operator : String) (form : Json)

/-- A failure of the network, of the document store or of a text format. -/
inductive HostFault where
  | storeOffline
  | duplicateId (id : Json) (collection : String)
  | unreachable (url : String)
  | status (url : String) (code : Nat)
  | bodyNotJson (url : String)
  | yaml
  | other (text : String)

inductive EvalError where
  | typeMismatch (cause : Mismatch)
  | badOperand (cause : BadOperand)
  | noMatch (conditions : Nat)
  | host (fault : HostFault)
  | unknownOperator (name : String)

def Mismatch.message : Mismatch → String
  | .notCallable kind => s!"{kind} is not callable"
  | .notNumeral text => "\"" ++ text ++ "\" is not an integer"
  | .notInteger kind => s!"{kind} cannot be used as an integer"
  | .listIndex kind => s!"list index must be an integer, got {kind}"
  | .mapKey kind => s!"map key must be a string or integer, got {kind}"
  | .notContainer kind => s!"cannot assign into {kind}"
  | .divisionByZero => "division by zero"
  | .condition form kind =>
    "when condition " ++ form.render ++ s!" evaluated to {kind}, expected bool"
  | .predicate form kind =>
    "filter predicate " ++ form.render ++ s!" evaluated to {kind}, expected bool"
  | .uniqueSource kind => s!"toUnique source must be a list, got {kind}"
  | .noLength kind => s!"len expects a list, map or string, got {kind}"
  | .notReversible kind => s!"reverse expects a list, got {kind}"
  | .requestUrl kind => s!"request url must be a string, got {kind}"
  | .yamlText operator kind => s!"{operator} expects YAML text, got {kind}"
  | .document operator got => s!"{operator} expects a map document, got " ++ got.render

/-- Seconds as messages show them. -/
def secondsText (seconds : Float) : String := String.ofList (displayStyle.write seconds)

def BadOperand.message : BadOperand → String
  | .missing => "missing operand"
  | .count operator expected got =>
    "\"" ++ operator ++ s!"\" operator expects {expected} operands, got {got}."
  | .tooFew operator least => "\"" ++ operator ++ s!"\" operator expects at least {least} operands."
  | .tooMany operator most => "\"" ++ operator ++ s!"\" operator expects at most {most} operands."
  | .notLiteral operator role form =>
    "\"" ++ operator ++ s!"\" {role} must be a string literal, got " ++ form.render
  | .names role form =>
    s!"\"function\" {role} must be a string or a list of strings, got " ++ form.render
  | .relation symbol => "unknown comparison operator \"" ++ symbol ++ "\""
  | .uniqueKind kind => s!"toUnique kind must be a string, got {kind}"
  | .uniqueCapacity shown => s!"toUnique capacity must be a positive integer, got {shown}"
  | .patternSource kind => s!"regexp source must be a string, got {kind}"
  | .pattern => "invalid pattern"
  | .period shown => s!"timer period must be a positive number of seconds, got {shown}"
  | .periodRange seconds => "timer period of " ++ secondsText seconds ++ " seconds is out of range"
  | .periodShort seconds =>
    "timer period of " ++ secondsText seconds ++ " seconds is shorter than 1ms"
  | .requestMethod form => "request method must be a string literal, got " ++ form.render
  | .collection operator form =>
    s!"{operator} collection must be a string literal, got " ++ form.render

def HostFault.message : HostFault → String
  | .storeOffline => "store offline"
  | .duplicateId id collection => "duplicate _id " ++ id.render ++ s!" in collection {collection}"
  | .unreachable url => s!"GET {url} failed"
  | .status url code => s!"GET {url} returned status {code}"
  | .bodyNotJson url => s!"body of {url} is not JSON"
  | .yaml => "invalid YAML"
  | .other text => text

def EvalError.message : EvalError → String
  | .typeMismatch cause => "type mismatch: " ++ cause.message
  | .badOperand cause => cause.message
  | .noMatch conditions => s!"no match: when: none of {conditions} conditions matched"
  | .host fault => "host collaborator failure: " ++ fault.message
  | .unknownOperator name => s!"unknown operator: {name}"

end Sigil
