import KaspaScript.Parser.Ast

namespace KaspaScript

/-- Lexical scope for contract parameters, spend parameters, and let bindings.
The latest insertion of a name stands first and wins. -/
structure Scope where
  symbols : List (String × TypeName)
  deriving DecidableEq, Repr

namespace Scope

def new : Scope := ⟨[]⟩

def get (scope : Scope) (name : String) : Option TypeName := scope.symbols.lookup name

def contains (scope : Scope) (name : String) : Bool := (scope.get name).isSome

/-- Inserts a symbol; the flag is false if the name already existed. -/
def insert (scope : Scope) (name : String) (ty : TypeName) : Bool × Scope :=
  (!scope.contains name, ⟨(name, ty) :: scope.symbols⟩)

end Scope

end KaspaScript
