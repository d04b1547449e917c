import Sigil.Operators.Builtin
import Sigil.Operators.Documents
import Sigil.Operators.Request
import Sigil.Operators.Yaml

/-!
# The operators that reach outside

Requests, YAML and the document store, on top of the built-in operators.
-/

namespace Sigil

def Operators.host : List Operator := Operators.requests ++ Operators.yaml ++ Operators.documents

/-- The registry for programs that may reach outside. -/
def Registry.host : Registry := .only (Bindings.builtin.registerAll Operators.host)

end Sigil
