import Sigil.Error

/-!
# Document store

Collections of documents in the order in which they were inserted. A document is known by its field
`_id`, which the store makes up if it is missing.
-/

namespace Sigil

/-- The fields of a stored object. -/
abbrev Document := List (String × Json)

structure Store where
  collections : Fields (List Document) := .empty
  /-- Number of identifiers made up so far. -/
  generated : UInt64 := 0

namespace Store

def idField : String := "_id"

def idOf? (doc : Document) : Option Json := doc.lookup idField

/-- The document has that identifier. -/
def hasId (id : Json) (doc : Document) : Bool :=
  match idOf? doc with
  | some other => other.same id
  | none => false

/-- All documents of a collection. A collection that was never written to is empty. -/
def find (s : Store) (collection : String) : List Document :=
  (s.collections.get? collection).getD []

def hexPadded (n : Nat) : String :=
  let digits := Nat.toDigits 16 n
  String.ofList (List.replicate (24 - digits.length) '0' ++ digits)

/-- Makes up an identifier: the running number in 24 hexadecimal digits. -/
def newId (s : Store) : Json × Store :=
  let n := s.generated + 1
  (.string (hexPadded n.toNat), { s with generated := n })

/-- The document with its identifier, made up if there is none or it is null. -/
def identify (s : Store) (doc : Document) : Json × Document × Store :=
  match idOf? doc with
  | some .null | none =>
    let (id, s) := s.newId
    (id, overwrite idField id doc, s)
  | some id => (id, doc, s)

/-- Adds a document at the end of a collection and answers its identifier. -/
def insert (s : Store) (collection : String) (doc : Document) : Except HostFault Json × Store :=
  let (id, doc, s) := s.identify doc
  let docs := s.find collection
  if docs.any (hasId id) then (.error (.duplicateId id collection), s)
  else (.ok id, { s with collections := s.collections.set collection (docs ++ [doc]) })

/-- Puts a document in the place of the first one that satisfies a test. -/
def replaceFirst (p : Document → Bool) (doc : Document) : List Document → Option (List Document)
  | [] => none
  | d :: rest => if p d then some (doc :: rest) else (replaceFirst p doc rest).map (d :: ·)

/-- Replaces the document with the same identifier; the answer says whether there was one. -/
def replace (s : Store) (collection : String) (doc : Document) : Bool × Store :=
  match idOf? doc with
  | none => (false, s)
  | some id =>
    match replaceFirst (hasId id) doc (s.find collection) with
    | none => (false, s)
    | some docs => (true, { s with collections := s.collections.set collection docs })

end Store

end Sigil
