import Sigil.Regex.Reader

/-!
# Patterns

A pattern is a regular expression together with the text that it was read from.
-/

namespace Sigil

structure Pattern where
  source : String
  regex : Regex
deriving DecidableEq

namespace Pattern

def read? (source : String) : Option Pattern :=
  (Regex.read? source).map fun regex => ⟨source, regex⟩

/-- The pattern occurs somewhere in the text. -/
def isMatch (p : Pattern) (text : String) : Bool := p.regex.isMatch text

end Pattern

end Sigil
