import Std.Data.HashSet.Basic
import Sigil.Fields

/-!
# Windows of recently seen keys

A window remembers the keys that it admitted last, up to its capacity, and refuses to admit one of
them again. It is no full history: a key that has left the window is admitted again. A table holds
one window for each kind of key.
-/

namespace Sigil

structure Window where
  capacity : Nat
  /-- The remembered keys, the oldest first. -/
  queue : List String := []
  /-- The same keys, for looking up. -/
  members : Std.HashSet String := {}

namespace Window

/-- The largest capacity of a window. The memory for the keys is reserved when the window is made; a
key takes 24 bytes of it besides its text, and no more than `2 ^ 63 - 1` bytes can be asked for.
What can be asked for is taken to be there. -/
def maxCapacity : Nat := 9223372036854775807 / 24

/-- A new window; `none` if its memory cannot be reserved. -/
def create? (capacity : Nat) : Option Window :=
  if capacity ≤ maxCapacity then some { capacity } else none

def contains (w : Window) (key : String) : Bool := w.members.contains key

def size (w : Window) : Nat := w.queue.length

def isEmpty (w : Window) : Bool := w.queue.isEmpty

/-- Drops the oldest key if the window is full. -/
def makeRoom (w : Window) : Window :=
  if w.queue.length < w.capacity then w
  else match w.queue with
    | [] => w
    | oldest :: rest => { w with queue := rest, members := w.members.erase oldest }

/-- Admits a key unless the window remembers it; the answer says whether it was admitted. -/
def accept (w : Window) (key : String) : Bool × Window :=
  if w.contains key then (false, w)
  else
    let w := w.makeRoom
    (true, { w with queue := w.queue ++ [key], members := w.members.insert key })

end Window

/-- One window for each kind in use. -/
abbrev Windows := Fields Window

namespace Windows

/-- The window of a kind, new with the given capacity if the kind has none. -/
def get (ws : Windows) (kind : String) (capacity : Nat) : Window :=
  (ws.get? kind).getD { capacity }

/-- Starts a window for a kind that has none; `none` if this is impossible. -/
def start? (ws : Windows) (kind : String) (capacity : Nat) : Option Windows :=
  if ws.contains kind then some ws else (Window.create? capacity).map (ws.set kind)

/-- Admits a key to the window of a kind, which is started if need be. -/
def accept (ws : Windows) (kind : String) (capacity : Nat) (key : String) : Bool × Windows :=
  let (admitted, w) := (ws.get kind capacity).accept key
  (admitted, ws.set kind w)

/-- Drops the window of a kind; the answer says whether there was one. -/
def forget (ws : Windows) (kind : String) : Bool × Windows :=
  (ws.contains kind, ws.erase kind)

end Windows

end Sigil
