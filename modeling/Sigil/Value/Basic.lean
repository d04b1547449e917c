import Sigil.Fields
import Sigil.Json.Basic
import Sigil.Regex.Pattern

/-!
# Values and the heap

Lists and maps are shared: a value holds only a reference, and a write through one holder is seen by
every other. Closures, native objects and host functions are shared too and are told apart by
identity. What the references stand for is kept in a `Heap`. The tables of a heap only grow, so a
reference once handed out stays valid.
-/

namespace Sigil

structure ListRef where
  index : Nat
deriving DecidableEq, Repr, Inhabited

structure MapRef where
  index : Nat
deriving DecidableEq, Repr, Inhabited

structure ClosureRef where
  index : Nat
deriving DecidableEq, Repr, Inhabited

structure NativeRef where
  index : Nat
deriving DecidableEq, Repr, Inhabited

structure HostRef where
  index : Nat
deriving DecidableEq, Repr, Inhabited

/-- A registry of the process: what operators and names mean to a program. -/
structure RegistryRef where
  index : Nat
deriving DecidableEq, Repr, Inhabited

inductive Value where
  | null
  | bool (b : Bool)
  | int (n : Int64)
  | float (x : Float)
  | string (s : String)
  | list (r : ListRef)
  | map (r : MapRef)
  | closure (r : ClosureRef)
  | pattern (p : Pattern)
  | native (r : NativeRef)
  | host (r : HostRef)
deriving DecidableEq, Inhabited

/-- A function made by a program. Its body runs under the registry and in the environment in which
it was made, with the `fixed` names bound to the values they had then. -/
structure Closure where
  params : List String
  body : Json
  fixed : List (String × Value)
  env : MapRef
  registry : RegistryRef
deriving Inhabited

/-- A body that is evaluated again and again until someone cancels it, under the registry and in the
environment in which the timer was made. -/
structure Timer where
  /-- The period in nanoseconds. -/
  period : Nat
  body : Json
  env : MapRef
  registry : RegistryRef
  cancelled : Bool := false
  /-- Completed evaluations, without the one on creation. The count starts over after
  `2 ^ 64 - 1`. -/
  ticks : UInt64 := 0
  /-- Messages to the timer's thread that it has not taken yet. Each of them tells it to stop. -/
  messages : Nat := 0

namespace Timer

/-- Sends a message to the thread, unless one is waiting already. -/
def trySend (t : Timer) : Timer :=
  if t.messages < 1 then { t with messages := t.messages + 1 } else t

/-- Stops the timer. Only the call that finds it running sends a message. -/
def cancel (t : Timer) : Timer :=
  if t.cancelled then t else trySend { t with cancelled := true }

/-- Counts a completed evaluation of the body. -/
def countTick (t : Timer) : Timer := { t with ticks := t.ticks + 1 }

end Timer

/-- What a host function does: stop a timer, or whatever the embedder registered under a number. -/
inductive HostAction where
  | cancelTimer (timer : NativeRef)
  | embedded (number : Nat)
deriving Inhabited

structure HostFunction where
  name : String
  action : HostAction
deriving Inhabited

/-- What a native object has under a name. -/
inductive Member where
  /-- A value that the object holds. -/
  | held (v : Value)
  /-- A document, of which every reading makes a new value. -/
  | document (j : Json)
  /-- A function, which every reading makes anew. -/
  | function (f : HostFunction)

/-- An object that the embedder provides. Looking a member up has no effect of its own. -/
structure EmbeddedObject where
  kind : String
  member? : String → Option Member := fun _ => none
  document : Json := .string ("<" ++ kind ++ ">")
deriving Inhabited

/-- Objects that a program holds but cannot take apart. -/
inductive Native where
  | timer (t : Timer)
  | insertResult (id : Json)
  | replaceResult (matched : Bool)
  | embedded (object : EmbeddedObject)

instance : Inhabited Native := ⟨.embedded { kind := "" }⟩

structure Heap where
  lists : Array (List Value) := #[]
  maps : Array (Fields Value) := #[]
  closures : Array Closure := #[]
  natives : Array Native := #[]
  functions : Array HostFunction := #[]
deriving Inhabited

namespace Heap

def list (h : Heap) (r : ListRef) : List Value := h.lists.getD r.index []

def map (h : Heap) (r : MapRef) : Fields Value := h.maps.getD r.index .empty

/-- A reference from outside the heap leads to an environment outside the heap. -/
def closure (h : Heap) (r : ClosureRef) : Closure :=
  h.closures.getD r.index
    { params := [], body := .null, fixed := [], env := ⟨h.maps.size⟩, registry := ⟨0⟩ }

def native (h : Heap) (r : NativeRef) : Native := h.natives.getD r.index default

def function (h : Heap) (r : HostRef) : HostFunction := h.functions.getD r.index default

def newList (h : Heap) (xs : List Value) : ListRef × Heap :=
  (⟨h.lists.size⟩, { h with lists := h.lists.push xs })

def newMap (h : Heap) (fields : Fields Value) : MapRef × Heap :=
  (⟨h.maps.size⟩, { h with maps := h.maps.push fields })

def newClosure (h : Heap) (c : Closure) : ClosureRef × Heap :=
  (⟨h.closures.size⟩, { h with closures := h.closures.push c })

def newNative (h : Heap) (n : Native) : NativeRef × Heap :=
  (⟨h.natives.size⟩, { h with natives := h.natives.push n })

def newFunction (h : Heap) (f : HostFunction) : HostRef × Heap :=
  (⟨h.functions.size⟩, { h with functions := h.functions.push f })

def setList (h : Heap) (r : ListRef) (xs : List Value) : Heap :=
  { h with lists := h.lists.setIfInBounds r.index xs }

def setMap (h : Heap) (r : MapRef) (fields : Fields Value) : Heap :=
  { h with maps := h.maps.setIfInBounds r.index fields }

def setNative (h : Heap) (r : NativeRef) (n : Native) : Heap :=
  { h with natives := h.natives.setIfInBounds r.index n }

/-- Stops a timer; any other object stays as it is. -/
def cancel (h : Heap) (r : NativeRef) : Heap :=
  match h.native r with
  | .timer t => h.setNative r (.timer t.cancel)
  | _ => h

/-- Counts a completed evaluation of a timer's body. -/
def countTick (h : Heap) (r : NativeRef) : Heap :=
  match h.native r with
  | .timer t => h.setNative r (.timer t.countTick)
  | _ => h

end Heap

namespace Native

def kind : Native → String
  | .timer _ => "timer"
  | .insertResult _ => "insertResult"
  | .replaceResult _ => "replaceResult"
  | .embedded o => o.kind

/-- What the object at a reference has under a name. -/
def member? (r : NativeRef) : Native → String → Option Member
  | .timer t, name =>
    if name = "cancel" then some (.function ⟨"timer.cancel", .cancelTimer r⟩)
    else if name = "cancelled" then some (.held (.bool t.cancelled))
    else if name = "ticks" then some (.held (.int t.ticks.toInt64))
    else none
  | .insertResult id, name => if name = "insertedId" then some (.document id) else none
  | .replaceResult found, name => if name = "matched" then some (.held (.bool found)) else none
  | .embedded o, name => o.member? name

end Native

namespace Value

/-- The name of the value's kind. -/
def kind (h : Heap) : Value → String
  | .null => "null"
  | .bool _ => "bool"
  | .int _ => "int"
  | .float _ => "float"
  | .string _ => "string"
  | .list _ => "list"
  | .map _ => "map"
  | .closure _ => "closure"
  | .pattern _ => "pattern"
  | .native r => (h.native r).kind
  | .host _ => "host function"

def isNull : Value → Bool
  | .null => true
  | _ => false

def isCallable : Value → Bool
  | .closure _ => true
  | .host _ => true
  | _ => false

def bool? : Value → Option Bool
  | .bool b => some b
  | _ => none

def string? : Value → Option String
  | .string s => some s
  | _ => none

end Value

end Sigil
