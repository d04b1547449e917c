import Sigil.Fields
import Sigil.Yaml.Node
import Sigil.Yaml.Token.Lexer

/-!
# From YAML to JSON

Aliases are replaced by what they stand for, plain scalars are resolved to null, booleans and
numbers, and keys are taken as text. The standard tags for scalars are obeyed; a tag of any other
kind that begins with `!` has no JSON counterpart.
-/

namespace Sigil.Yaml

/-! ## Scalars -/

def isNullWord (cs : List Char) : Bool :=
  ["null".toList, "Null".toList, "NULL".toList, ['~']].contains cs

def bool? (cs : List Char) : Option Bool :=
  if ["true".toList, "True".toList, "TRUE".toList].contains cs then some true
  else if ["false".toList, "False".toList, "FALSE".toList].contains cs then some false
  else none

/-- Digits after a leading zero, which make no number. -/
def isZeroPadded : List Char → Bool
  | '0' :: rest => !rest.isEmpty && rest.all Char.isDigit
  | _ => false

/-- The value of a digit in a base. -/
def digitInBase? (base : Nat) (c : Char) : Option Nat :=
  (Json.hexValue? c).bind fun d => if d < base then some d else none

/-- One or more digits in a base. -/
def natInBase? (base : Nat) (cs : List Char) : Option Nat :=
  if cs.isEmpty then none
  else cs.foldlM (fun n c => (digitInBase? base c).map (base * n + ·)) 0

/-- A natural in decimal digits, or in the base that its first two characters give. -/
def natural? (cs : List Char) : Option Nat :=
  match cs with
  | '0' :: 'x' :: digits => natInBase? 16 digits
  | '0' :: 'o' :: digits => natInBase? 8 digits
  | '0' :: 'b' :: digits => natInBase? 2 digits
  | _ => if isZeroPadded cs then none else Number.readNat? cs

/-- An integer that fits into 128 bits. -/
def integer? (cs : List Char) : Option Int :=
  match cs with
  | '-' :: rest =>
    (natural? rest).bind fun n => if n ≤ Number.pow2 127 then some (-(n : Int)) else none
  | _ =>
    let digits := if cs.head? = some '+' then cs.tail else cs
    (natural? digits).bind fun n => if n < Number.pow2 128 then some (n : Int) else none

/-- The integer as a document, which has room for 64 bits only. -/
def ofInteger? (n : Int) : Option Json :=
  if Int64.minValue.toInt ≤ n ∧ n < Number.pow2 64 then some (.int n) else none

/-- Words for infinity and for what is no number. -/
def isInfinite (cs : List Char) : Bool :=
  let (_, rest) := Number.splitSign cs
  [".inf".toList, ".Inf".toList, ".INF".toList].contains rest ||
    [".nan".toList, ".NaN".toList, ".NAN".toList].contains cs

/-- A double; one that is not finite is null in a document. -/
def float? (cs : List Char) : Option Json :=
  if isInfinite cs then some .null else (Number.readFinite? cs).map .float

/-- Resolves a plain scalar without a tag. -/
def resolve? (cs : List Char) : Option Json :=
  if cs.isEmpty || isNullWord cs then some .null
  else match bool? cs with
    | some b => some (.bool b)
    | none =>
      match integer? cs with
      | some n => ofInteger? n
      | none =>
        match if isZeroPadded (Number.splitSign cs).2 then none else float? cs with
        | some j => some j
        | none => some (.string (String.ofList cs))

def standardTag (name : String) : List Char := "tag:yaml.org,2002:".toList ++ name.toList

/-- Reads a scalar as its tag asks for. -/
def tagged? (tag : List Char) (cs : List Char) : Option Json :=
  if tag = standardTag "bool" then (bool? cs).map .bool
  else if tag = standardTag "int" then (integer? cs).bind ofInteger?
  else if tag = standardTag "float" then float? cs
  else if tag = standardTag "null" then if isNullWord cs then some .null else none
  else some (.string (String.ofList cs))

/-- A tag of the application's own. -/
def isForeign {α : Type} (props : Properties α) : Bool :=
  props.tag.any (·.head? = some '!')

def scalar? (tag : Option (List Char)) (text : List Char) (plain : Bool) : Option Json :=
  match tag with
  | some tag => tagged? tag text
  | none => if plain then resolve? text else some (.string (String.ofList text))

/-! ## Labels -/

namespace Node

/-- Numbers of the anchors met so far. -/
abbrev Labels := Fields Nat

/-- The number for a new anchor is that of the names in use, and a name that is used again gets a
new number; so a number may come to stand for a later anchor. -/
def label (labels : Labels) : Option (List Char) → Option Nat × Labels
  | none => (none, labels)
  | some name =>
    let n := labels.size
    (some n, labels.set (String.ofList name) n)

mutual

/-- Numbers the anchors in the order of the text and the aliases accordingly; `none` if an alias has
no anchor before it. -/
def number? (labels : Labels) : Node (List Char) → Option (Node Nat × Labels)
  | .alias name => (labels.get? (String.ofList name)).map fun n => (.alias n, labels)
  | .scalar props text plain =>
    let (anchor, labels) := label labels props.anchor
    some (.scalar { anchor, tag := props.tag } text plain, labels)
  | .sequence props items => do
    let (anchor, labels) := label labels props.anchor
    let (items, labels) ← numberItems? labels items
    return (.sequence { anchor, tag := props.tag } items, labels)
  | .mapping props entries => do
    let (anchor, labels) := label labels props.anchor
    let (entries, labels) ← numberEntries? labels entries
    return (.mapping { anchor, tag := props.tag } entries, labels)

def numberItems? (labels : Labels) : List (Node (List Char)) → Option (List (Node Nat) × Labels)
  | [] => some ([], labels)
  | node :: rest => do
    let (node, labels) ← number? labels node
    let (rest, labels) ← numberItems? labels rest
    return (node :: rest, labels)

def numberEntries? (labels : Labels) : List (Node (List Char) × Node (List Char)) →
    Option (List (Node Nat × Node Nat) × Labels)
  | [] => some ([], labels)
  | (k, v) :: rest => do
    let (k, labels) ← number? labels k
    let (v, labels) ← number? labels v
    let (rest, labels) ← numberEntries? labels rest
    return ((k, v) :: rest, labels)

end

def anchorOf {α : Type} : Node α → Option α
  | .alias _ => none
  | .scalar props _ _ => props.anchor
  | .sequence props _ => props.anchor
  | .mapping props _ => props.anchor

/-- The node with its number, if it has one. -/
def ownLabel (node : Node Nat) : List (Nat × Node Nat) :=
  match node.anchorOf with
  | some n => [(n, node)]
  | none => []

mutual

/-- All nodes with an anchor, in the order of the text. -/
def anchored : Node Nat → List (Nat × Node Nat)
  | .alias _ => []
  | .scalar props text plain => ownLabel (.scalar props text plain)
  | .sequence props items => ownLabel (.sequence props items) ++ anchoredItems items
  | .mapping props entries => ownLabel (.mapping props entries) ++ anchoredEntries entries

def anchoredItems : List (Node Nat) → List (Nat × Node Nat)
  | [] => []
  | node :: rest => anchored node ++ anchoredItems rest

def anchoredEntries : List (Node Nat × Node Nat) → List (Nat × Node Nat)
  | [] => []
  | (k, v) :: rest => anchored k ++ anchored v ++ anchoredEntries rest

end

mutual

/-- The number of marks it takes to write the node down: one for a leaf, two around a collection. -/
def weight {α : Type} : Node α → Nat
  | .alias _ => 1
  | .scalar .. => 1
  | .sequence _ items => weightItems items + 2
  | .mapping _ entries => weightEntries entries + 2

def weightItems {α : Type} : List (Node α) → Nat
  | [] => 0
  | node :: rest => weight node + weightItems rest

def weightEntries {α : Type} : List (Node α × Node α) → Nat
  | [] => 0
  | (k, v) :: rest => weight k + weight v + weightEntries rest

end

/-! ## Documents -/

/-- Reading with a budget of aliases to follow. -/
abbrev Budgeted := StateT Nat Option

/-- Follows an alias, at the cost of one. The last node with a number is the one that counts. -/
def follow (targets : List (Nat × Node Nat)) : Node Nat → Budgeted (Node Nat)
  | .alias n => do
    match ← get with
    | 0 => failure
    | budget + 1 =>
      set budget
      match targets.reverse.lookup n with
      | some node => return node
      | none => failure
  | node => pure node

/-- A key: the text of a scalar, whatever its tag. -/
def keyText (targets : List (Nat × Node Nat)) (node : Node Nat) : Budgeted String := do
  match ← follow targets node with
  | .scalar _ text _ => return String.ofList text
  | _ => failure

/-- Reads the entries of a mapping; a key that comes again keeps its first place. -/
def fieldsWith (targets : List (Nat × Node Nat)) (part : Node Nat → Budgeted Json) :
    List (String × Json) → List (Node Nat × Node Nat) → Budgeted (List (String × Json))
  | seen, [] => pure seen
  | seen, (k, v) :: rest => do
    let key ← keyText targets k
    let value ← part v
    fieldsWith targets part (overwrite key value seen) rest

def itemsWith (part : Node Nat → Budgeted Json) : List (Node Nat) → Budgeted (List Json)
  | [] => pure []
  | node :: rest => do
    let item ← part node
    let items ← itemsWith part rest
    return item :: items

/-- Reads a node that is no alias, with `part` for what is inside. -/
def decodeWith (targets : List (Nat × Node Nat)) (part : Node Nat → Budgeted Json) :
    Node Nat → Budgeted Json
  | .alias _ => failure
  | .scalar props text plain =>
    if isForeign props then failure else StateT.lift (scalar? props.tag text plain)
  | .sequence props items =>
    if isForeign props then failure else return .array (← itemsWith part items)
  | .mapping props entries =>
    if isForeign props then failure else return .object (← fieldsWith targets part [] entries)

def isCollection {α : Type} : Node α → Bool
  | .sequence .. => true
  | .mapping .. => true
  | _ => false

/-- Reads a node with at most `depth` levels of collections. -/
def decode (targets : List (Nat × Node Nat)) : Nat → Node Nat → Budgeted Json
  | 0, node => do
    let node ← follow targets node
    if node.isCollection then failure else decodeWith targets (fun _ => failure) node
  | depth + 1, node => do
    let node ← follow targets node
    decodeWith targets (decode targets depth) node

/-- How deep collections may be nested. -/
def maxDepth : Nat := 128

/-- Aliases that may be followed for each mark of the document. -/
def aliasesPerMark : Nat := 100

/-- The JSON document that a tree stands for. -/
def toJson? (node : Node (List Char)) : Option Json := do
  let (node, _) ← number? .empty node
  let (j, _) ← (decode node.anchored maxDepth node).run (aliasesPerMark * node.weight)
  return j

end Node

/-- Reads a YAML text as a JSON document. -/
def read? (text : String) : Option Json := do
  let tokens ← Token.scan? text
  let node ← Node.ofTokens? tokens
  node.toJson?

end Sigil.Yaml
