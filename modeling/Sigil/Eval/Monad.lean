import Sigil.Value.Coercion
import Sigil.Window
import Sigil.Store

/-!
# Evaluation as a state transformer

An evaluation takes a state to an outcome and a new state. The state it leaves behind is kept when
it fails. It may also come to no outcome: it crashes where memory cannot be reserved, which nothing
in a program can catch, or it reaches the depth limit first.
-/

namespace Sigil

/-- An answer of the network to a request. -/
structure Response where
  status : Nat
  body : String

/-- Everything that an evaluation can read or change. -/
structure State where
  heap : Heap := {}
  windows : Windows := .empty
  /-- The document store; `none` while it cannot be reached. -/
  store : Option Store := some {}
  /-- Text printed so far. -/
  printed : String := ""
  /-- Answers that the network still has; once they are used up, requests fail. -/
  responses : List Response := []
  /-- The time in milliseconds. -/
  clock : Int64 := 0

/-- What an evaluation that ends comes to. -/
structure Outcome (α : Type) where
  result : Except EvalError α
  state : State

/-- How an evaluation goes. -/
inductive Course (α : Type) where
  | ended (o : Outcome α)
  /-- It is given up in this state, with neither an answer nor an error. -/
  | crashed (state : State)
  /-- It goes deeper than it may. -/
  | tooDeep

namespace Course

variable {α β : Type}

def bind (c : Course α) (f : Outcome α → Course β) : Course β :=
  match c with
  | .ended o => f o
  | .crashed s => .crashed s
  | .tooDeep => .tooDeep

def map (c : Course α) (f : Outcome α → Outcome β) : Course β := c.bind fun o => .ended (f o)

end Course

def EvalM (α : Type) : Type := State → Course α

namespace EvalM

def pure {α : Type} (a : α) : EvalM α := fun s => .ended ⟨.ok a, s⟩

def bind {α β : Type} (m : EvalM α) (f : α → EvalM β) : EvalM β := fun s =>
  (m s).bind fun
    | ⟨.ok a, s⟩ => f a s
    | ⟨.error e, s⟩ => .ended ⟨.error e, s⟩

instance : Monad EvalM where
  pure := pure
  bind := bind

def throw {α : Type} (e : EvalError) : EvalM α := fun s => .ended ⟨.error e, s⟩

/-- The use of an operand that is not there. -/
def missingOperand {α : Type} : EvalM α := throw (.badOperand .missing)

/-- Turns the outcome of an evaluation into a value. A crash is no outcome. -/
def attempt {α : Type} (m : EvalM α) : EvalM (Except EvalError α) := fun s =>
  (m s).map fun o => ⟨.ok o.result, o.state⟩

def ofExcept {α : Type} : Except EvalError α → EvalM α
  | .ok a => pure a
  | .error e => throw e

/-- Runs an evaluation on a thread of its own. Nothing that becomes of it matters, not even a
crash. -/
def detach {α : Type} (m : EvalM α) : EvalM Unit := fun s =>
  match m s with
  | .ended o => .ended ⟨.ok (), o.state⟩
  | .crashed t => .ended ⟨.ok (), t⟩
  | .tooDeep => .tooDeep

def crash {α : Type} : EvalM α := fun s => .crashed s

/-- No outcome within the depth limit. -/
def outOfDepth {α : Type} : EvalM α := fun _ => .tooDeep

def getState : EvalM State := fun s => .ended ⟨.ok s, s⟩

def setState (s : State) : EvalM Unit := fun _ => .ended ⟨.ok (), s⟩

def modifyState (f : State → State) : EvalM Unit := fun s => .ended ⟨.ok (), f s⟩

def getHeap : EvalM Heap := fun s => .ended ⟨.ok s.heap, s⟩

def modifyHeap (f : Heap → Heap) : EvalM Unit := modifyState fun s => { s with heap := f s.heap }

/-- Runs a step on the heap that also answers something, such as an allocation. -/
def onHeap {α : Type} (f : Heap → α × Heap) : EvalM α := fun s =>
  let (a, h) := f s.heap
  .ended ⟨.ok a, { s with heap := h }⟩

def newList (xs : List Value) : EvalM Value := do
  let r ← onHeap (·.newList xs)
  return .list r

def newMap (fields : List (String × Value)) : EvalM Value := do
  let r ← onHeap (·.newMap (.ofList fields))
  return .map r

def ofJson (j : Json) : EvalM Value := onHeap (Value.ofJson j)

def kindOf (v : Value) : EvalM String := do return v.kind (← getHeap)

/-- Reads a member; a native object may make a new value for it. -/
def member? (v key : Value) : EvalM (Option Value) := onHeap fun h =>
  match v.member h key with
  | some (x, h) => (some x, h)
  | none => (none, h)

def assign (v key value : Value) : EvalM Unit := do
  let h ← ofExcept (v.assign (← getHeap) key value)
  modifyHeap fun _ => h

def toInt (v : Value) : EvalM Int64 := do ofExcept (v.toInt (← getHeap))

/-- Complains about a value by its kind. -/
def mismatch {α : Type} (v : Value) (cause : String → Mismatch) : EvalM α := do
  throw (.typeMismatch (cause (← kindOf v)))

end EvalM

end Sigil
