import Sigil.Yaml.Token

/-!
# Nodes

The tree of a YAML document. Anchors and aliases are labels on the nodes; their meaning is settled
later. A text holds at most one document.
-/

namespace Sigil.Yaml

/-- What is written in front of a node. -/
structure Properties (α : Type) where
  anchor : Option α := none
  tag : Option (List Char) := none

inductive Node (α : Type) where
  | alias (label : α)
  | scalar (props : Properties α) (text : List Char) (plain : Bool)
  | sequence (props : Properties α) (items : List (Node α))
  | mapping (props : Properties α) (entries : List (Node α × Node α))

namespace Node

/-- The node where nothing is written. -/
def empty {α : Type} : Node α := .scalar {} [] true

/-- Prefixes of tags by handle. -/
abbrev Handles := List (List Char × List Char)

def standardHandles : Handles :=
  [(['!'], ['!']), (['!', '!'], "tag:yaml.org,2002:".toList)]

def expandTag? (handles : Handles) (handle suffix : List Char) : Option (List Char) :=
  if handle.isEmpty then some suffix else (handles.lookup handle).map (· ++ suffix)

/-- Reads an anchor and a tag, each at most once, in either order. -/
def readProperties? (handles : Handles) : List Token →
    Option (Properties (List Char) × List Token)
  | .anchor name :: .tag handle suffix :: rest
  | .tag handle suffix :: .anchor name :: rest => do
    let tag ← expandTag? handles handle suffix
    return ({ anchor := some name, tag := some tag }, rest)
  | .anchor name :: rest => some ({ anchor := some name }, rest)
  | .tag handle suffix :: rest => do
    let tag ← expandTag? handles handle suffix
    return ({ tag := some tag }, rest)
  | tokens => some ({}, tokens)

/-- Nothing is written for the entry of a block collection that should begin here. -/
def blockOmitted (keys : Bool) : List Token → Bool
  | .blockEntry :: _ => true
  | .blockEnd :: _ => true
  | .key :: _ => keys
  | .value :: _ => keys
  | _ => false

/-- Nothing is written for the key or value of a block mapping that should begin here. -/
def pairOmitted : List Token → Bool
  | .key :: _ => true
  | .value :: _ => true
  | .blockEnd :: _ => true
  | _ => false

/-- Nothing is written for the part of a flow collection that should begin here. -/
def flowOmitted (close : Token) : List Token → Bool
  | t :: _ => t == .flowEntry || t == close
  | [] => false

/-- A comma, which stands before every entry of a flow collection but the first. -/
def separator? (first : Bool) (tokens : List Token) : Option (List Token) :=
  if first then some tokens
  else match tokens with
    | .flowEntry :: rest => some rest
    | _ => none

mutual

/-- Reads a node, at most `n` tokens deep. Block collections are allowed only in a `block` context;
with `indentless`, a sequence may stand at the indentation of the mapping around it. -/
def read? (handles : Handles) : Nat → (block indentless : Bool) → List Token →
    Option (Node (List Char) × List Token)
  | 0, _, _, _ => none
  | _ + 1, _, _, .alias name :: rest => some (.alias name, rest)
  | n + 1, block, indentless, tokens => do
    let (props, rest) ← readProperties? handles tokens
    let omitted : Option (Node (List Char) × List Token) :=
      if props.anchor.isNone && props.tag.isNone then none else some (.scalar props [] true, rest)
    match rest with
    | .scalar text plain :: rest => return (.scalar props text plain, rest)
    | .flowSequenceStart :: rest =>
      let (items, rest) ← flowItems? handles n true rest
      return (.sequence props items, rest)
    | .flowMappingStart :: rest =>
      let (entries, rest) ← flowEntries? handles n true rest
      return (.mapping props entries, rest)
    | .blockEntry :: _ =>
      if indentless then
        let (items, rest) ← indentlessItems? handles n rest
        return (.sequence props items, rest)
      else omitted
    | .blockSequenceStart :: rest =>
      if block then
        let (items, rest) ← blockItems? handles n rest
        return (.sequence props items, rest)
      else omitted
    | .blockMappingStart :: rest =>
      if block then
        let (entries, rest) ← blockEntries? handles n rest
        return (.mapping props entries, rest)
      else omitted
    | _ => omitted

/-- Items of a block sequence, to the end of the block. -/
def blockItems? (handles : Handles) : Nat → List Token →
    Option (List (Node (List Char)) × List Token)
  | 0, _ => none
  | n + 1, .blockEntry :: rest => do
    let (item, rest) ←
      if blockOmitted false rest then some (empty, rest) else read? handles n true false rest
    let (items, rest) ← blockItems? handles n rest
    return (item :: items, rest)
  | _ + 1, .blockEnd :: rest => some ([], rest)
  | _ + 1, _ => none

/-- Items of a sequence that has no block of its own. -/
def indentlessItems? (handles : Handles) : Nat → List Token →
    Option (List (Node (List Char)) × List Token)
  | 0, _ => none
  | n + 1, .blockEntry :: rest => do
    let (item, rest) ←
      if blockOmitted true rest then some (empty, rest) else read? handles n true false rest
    let (items, rest) ← indentlessItems? handles n rest
    return (item :: items, rest)
  | _ + 1, tokens => some ([], tokens)

/-- Entries of a block mapping, to the end of the block. -/
def blockEntries? (handles : Handles) : Nat → List Token →
    Option (List (Node (List Char) × Node (List Char)) × List Token)
  | 0, _ => none
  | n + 1, .key :: rest => do
    let (k, rest) ← if pairOmitted rest then some (empty, rest) else read? handles n true true rest
    let (v, rest) ← match rest with
      | .value :: rest =>
        if pairOmitted rest then some (empty, rest) else read? handles n true true rest
      | _ => some (empty, rest)
    let (entries, rest) ← blockEntries? handles n rest
    return ((k, v) :: entries, rest)
  | _ + 1, .blockEnd :: rest => some ([], rest)
  | _ + 1, _ => none

/-- Items of a flow sequence, to its bracket. An item may be a single pair. -/
def flowItems? (handles : Handles) : Nat → Bool → List Token →
    Option (List (Node (List Char)) × List Token)
  | 0, _, _ => none
  | _ + 1, _, .flowSequenceEnd :: rest => some ([], rest)
  | n + 1, first, tokens => do
    match ← separator? first tokens with
    | .flowSequenceEnd :: rest => return ([], rest)
    | .key :: rest =>
      let (k, rest) ←
        if flowOmitted .flowSequenceEnd rest || rest.head? = some .value then
          some (empty, rest.tail)
        else read? handles n false false rest
      let (v, rest) ← flowValue? handles n .flowSequenceEnd rest
      let (items, rest) ← flowItems? handles n false rest
      return (.mapping {} [(k, v)] :: items, rest)
    | tokens =>
      let (item, rest) ← read? handles n false false tokens
      let (items, rest) ← flowItems? handles n false rest
      return (item :: items, rest)

/-- Entries of a flow mapping, to its brace. A key without a mark for it has no value. -/
def flowEntries? (handles : Handles) : Nat → Bool → List Token →
    Option (List (Node (List Char) × Node (List Char)) × List Token)
  | 0, _, _ => none
  | _ + 1, _, .flowMappingEnd :: rest => some ([], rest)
  | n + 1, first, tokens => do
    match ← separator? first tokens with
    | .flowMappingEnd :: rest => return ([], rest)
    | .key :: rest =>
      let (k, rest) ←
        if flowOmitted .flowMappingEnd rest || rest.head? = some .value then some (empty, rest)
        else read? handles n false false rest
      let (v, rest) ← flowValue? handles n .flowMappingEnd rest
      let (entries, rest) ← flowEntries? handles n false rest
      return ((k, v) :: entries, rest)
    | tokens =>
      let (k, rest) ← read? handles n false false tokens
      let (entries, rest) ← flowEntries? handles n false rest
      return ((k, empty) :: entries, rest)

/-- The value of a flow pair, with its colon. -/
def flowValue? (handles : Handles) : Nat → Token → List Token →
    Option (Node (List Char) × List Token)
  | 0, _, _ => none
  | n + 1, close, .value :: rest =>
    if flowOmitted close rest then some (empty, rest) else read? handles n false false rest
  | _ + 1, _, tokens => some (empty, tokens)

end

/-! ## Documents -/

/-- The directives before a document: at most one version, which is 1.1 or 1.2, and prefixes for
different handles. -/
def readDirectives? : Bool → Handles → List Token → Option (Handles × List Token)
  | seen, handles, .version major minor :: rest =>
    if seen || major ≠ 1 || (minor ≠ 1 && minor ≠ 2) then none
    else readDirectives? true handles rest
  | seen, handles, .tagPrefix handle uri :: rest =>
    if (handles.lookup handle).isSome then none
    else readDirectives? seen (handles ++ [(handle, uri)]) rest
  | _, handles, tokens => some (handles, tokens)

/-- Nothing is written in the document. -/
def documentOmitted : List Token → Bool
  | [] => true
  | .version .. :: _ => true
  | .tagPrefix .. :: _ => true
  | .documentStart :: _ => true
  | .documentEnd :: _ => true
  | _ => false

/-- Bound on the recursion over tokens: each call but the last of a collection takes a token. -/
def fuel (tokens : List Token) : Nat := 2 * tokens.length + 2

/-- Reads a document, with its marks and directives if it has them. -/
def readDocument? (tokens : List Token) : Option (Node (List Char) × List Token) :=
  match tokens with
  | .version .. :: _ | .tagPrefix .. :: _ | .documentStart :: _ => do
    let (handles, rest) ← readDirectives? false [] tokens
    match rest with
    | .documentStart :: rest =>
      if documentOmitted rest then return (empty, rest)
      else read? (handles ++ standardHandles) (fuel rest) true false rest
    | _ => none
  | _ => read? standardHandles (fuel tokens) true false tokens

/-- The document of a token list. Only marks of its end may follow it, and without any token there
is an empty document. -/
def ofTokens? (tokens : List Token) : Option (Node (List Char)) :=
  if tokens.isEmpty then some empty
  else do
    let (node, rest) ← readDocument? tokens
    if rest.all (· = .documentEnd) then some node else none

end Node

end Sigil.Yaml
