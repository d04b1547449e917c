import Sigil.Operators.Data
import Sigil.Operators.Function
import Sigil.Operators.Control
import Sigil.Operators.Iteration
import Sigil.Operators.Arithmetic
import Sigil.Operators.Predicate
import Sigil.Operators.Template
import Sigil.Operators.Container
import Sigil.Operators.Schedule

/-!
# The built-in operators
-/

namespace Sigil

def Operators.builtin : List Operator :=
  Operators.data ++ Operators.functions ++ Operators.control ++ Operators.iterations ++
    Operators.arithmetic ++ Operators.predicates ++ Operators.templates ++ Operators.containers ++
    Operators.schedule

/-- The built-in operators and no host values. -/
def Bindings.builtin : Bindings := Bindings.registerAll {} Operators.builtin

/-- The registry with the built-in operators and no host values. -/
def Registry.builtin : Registry := .only .builtin

/-- All names and aliases that a registry knows. -/
def Registry.names (reg : Registry) : List String :=
  (reg.operators.flatMap fun op => op.name :: op.aliases).eraseDups

end Sigil
