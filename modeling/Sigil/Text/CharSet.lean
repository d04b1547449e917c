/-!
# Sets of characters

A set is a list of ranges of code points, increasing and with gaps between them. Every operation
goes back to union and complement.
-/

namespace Sigil.Text

structure CharSet where
  ranges : List (Nat × Nat)
deriving Repr, Inhabited, DecidableEq

namespace CharSet

/-- The last code point. -/
def top : Nat := 0x10FFFF

/-- Joins ranges that overlap or touch, in a list ordered by first code point. -/
def merge : List (Nat × Nat) → List (Nat × Nat)
  | [] => []
  | (lo, hi) :: rest =>
    match merge rest with
    | [] => [(lo, hi)]
    | (lo', hi') :: merged =>
      if lo' ≤ hi + 1 then (lo, max hi hi') :: merged else (lo, hi) :: (lo', hi') :: merged

/-- The union of arbitrary ranges; one that runs backwards is empty. -/
def ofRanges (ranges : List (Nat × Nat)) : CharSet :=
  ⟨merge ((ranges.filter fun r => r.1 ≤ r.2).mergeSort fun a b => a.1 ≤ b.1)⟩

def empty : CharSet := ⟨[]⟩

def all : CharSet := ⟨[(0, top)]⟩

def single (c : Char) : CharSet := ⟨[(c.toNat, c.toNat)]⟩

def ofList (cs : List Char) : CharSet := ofRanges (cs.map fun c => (c.toNat, c.toNat))

def containsCode : List (Nat × Nat) → Nat → Bool
  | [], _ => false
  | (lo, hi) :: rest, n => if n < lo then false else n ≤ hi || containsCode rest n

def contains (s : CharSet) (c : Char) : Bool := containsCode s.ranges c.toNat

def union (s t : CharSet) : CharSet := ofRanges (s.ranges ++ t.ranges)

/-- The gaps from `start` on. -/
def gaps (start : Nat) : List (Nat × Nat) → List (Nat × Nat)
  | [] => if start ≤ top then [(start, top)] else []
  | (lo, hi) :: rest =>
    if start < lo then (start, lo - 1) :: gaps (hi + 1) rest else gaps (hi + 1) rest

def compl (s : CharSet) : CharSet := ⟨gaps 0 s.ranges⟩

def inter (s t : CharSet) : CharSet := (s.compl.union t.compl).compl

def diff (s t : CharSet) : CharSet := s.inter t.compl

def symmDiff (s t : CharSet) : CharSet := (s.diff t).union (t.diff s)

def ascii : CharSet := ⟨[(0, 0x7F)]⟩

end CharSet

end Sigil.Text
