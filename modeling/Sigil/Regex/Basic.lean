import Sigil.Text.CharSet
import Sigil.Text.Category

/-!
# Regular expressions as relations between positions

A text of `n` characters has the positions `0` to `n`. An expression relates the positions where a
match may begin to those where it may end, and `Regex.denote` computes the image of a set of
positions under that relation. A set of positions is a `Nat` read in binary. Searching is asking
whether the image of all positions is empty.
-/

namespace Sigil

open Text (CharSet)

/-- A condition on a position that consumes nothing. -/
inductive Anchor where
  | textStart
  | textEnd
  | lineStart
  | lineEnd
  /-- Lines may also end in a carriage return, alone or before a line feed. -/
  | crlfLineStart
  | crlfLineEnd
  | wordBoundary (word : CharSet)
  | notWordBoundary (word : CharSet)
  | wordStart (word : CharSet)
  | wordEnd (word : CharSet)
  | wordStartHalf (word : CharSet)
  | wordEndHalf (word : CharSet)
deriving DecidableEq, Repr

/-- Whether the condition holds between the character before a position and the one after it. -/
def Anchor.holds : Anchor → Option Char → Option Char → Bool
  | .textStart, before, _ => before.isNone
  | .textEnd, _, after => after.isNone
  | .lineStart, before, _ => before.isNone || before == some '\n'
  | .lineEnd, _, after => after.isNone || after == some '\n'
  | .crlfLineStart, before, after =>
    before.isNone || before == some '\n' || (before == some '\r' && after != some '\n')
  | .crlfLineEnd, before, after =>
    after.isNone || after == some '\r' || (after == some '\n' && before != some '\r')
  | .wordBoundary w, before, after => before.any w.contains != after.any w.contains
  | .notWordBoundary w, before, after => before.any w.contains == after.any w.contains
  | .wordStart w, before, after => !before.any w.contains && after.any w.contains
  | .wordEnd w, before, after => before.any w.contains && !after.any w.contains
  | .wordStartHalf w, before, _ => !before.any w.contains
  | .wordEndHalf w, _, after => !after.any w.contains

inductive Regex where
  | empty
  | char (set : CharSet)
  | anchor (a : Anchor)
  | seq (r s : Regex)
  | alt (r s : Regex)
  /-- At least `min` rounds and, if there is a `max`, at most that many. -/
  | loop (r : Regex) (min : Nat) (max : Option Nat)
deriving DecidableEq, Repr, Inhabited

namespace Regex

def sequence : List Regex → Regex
  | [] => .empty
  | [r] => r
  | r :: rest => .seq r (sequence rest)

/-- One of several expressions, of which there is at least one. -/
def choice (r : Regex) : List Regex → Regex
  | [] => r
  | s :: rest => .alt r (choice s rest)

/-- Number of parts once every bounded loop is written out. -/
def expandedSize : Regex → Nat
  | .empty => 1
  | .char _ => 1
  | .anchor _ => 1
  | .seq r s => r.expandedSize + s.expandedSize
  | .alt r s => r.expandedSize + s.expandedSize + 1
  | .loop r min max => r.expandedSize * Nat.max 1 (max.getD (min + 1)) + 1

/-- The characters before and after each position of a text. -/
def positions (before : Option Char) : List Char → List (Option Char × Option Char)
  | [] => [(before, none)]
  | c :: cs => (before, some c) :: positions (some c) cs

/-- The positions with a property. -/
def select (p : Option Char → Option Char → Bool) (ps : List (Option Char × Option Char)) : Nat :=
  ps.foldr (fun x set => 2 * set + if p x.1 x.2 then 1 else 0) 0

/-- `n` rounds of `f`. A round that changes nothing ends the count. -/
def rounds (f : Nat → Nat) : Nat → Nat → Nat
  | 0, set => set
  | n + 1, set =>
    let next := f set
    if next = set then set else rounds f n next

/-- All that at most `n` rounds of `f` reach: `seen` so far, of which `fresh` has not gone through
`f` yet. -/
def spread (f : Nat → Nat) : Nat → Nat → Nat → Nat
  | 0, seen, _ => seen
  | n + 1, seen, fresh =>
    let next := f fresh
    let new := next ^^^ (next &&& seen)
    if new = 0 then seen else spread f n (seen ||| new) new

/-- A relation between positions, as the function that takes a set to its image. -/
structure Relation where
  image : Nat → Nat

/-- The relation of an expression over the positions of a text. -/
def denote (ps : List (Option Char × Option Char)) : Regex → Relation
  | .empty => ⟨id⟩
  | .char set =>
    let here := select (fun _ after => after.any set.contains) ps
    ⟨fun s => 2 * (s &&& here)⟩
  | .anchor a =>
    let here := select a.holds ps
    ⟨fun s => s &&& here⟩
  | .seq r s =>
    let f := denote ps r
    let g := denote ps s
    ⟨fun s => g.image (f.image s)⟩
  | .alt r s =>
    let f := denote ps r
    let g := denote ps s
    ⟨fun s => f.image s ||| g.image s⟩
  | .loop r min max =>
    let f := denote ps r
    let more := match max with
      | some max => Nat.min (max - min) ps.length
      | none => ps.length
    ⟨fun s =>
      let set := rounds f.image min s
      spread f.image more set set⟩

/-- Some part of the text matches. -/
def isMatch (r : Regex) (text : String) : Bool :=
  let ps := positions none text.toList
  (denote ps r).image (1 <<< ps.length - 1) != 0

end Regex

end Sigil
