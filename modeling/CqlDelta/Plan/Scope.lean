import CqlDelta.Cql.Typing
import CqlDelta.Delta.Node

/-!
# What a plan depends on

Besides the comparison itself, a plan depends on a few options, on the names of the user-defined
types, and on whether the model is legacy.
-/

namespace CqlDelta
namespace Plan

open Cql Delta

/-- The options of a plan. -/
structure Options where
  /-- The keyspace of a created type that is defined in none. -/
  defaultKeyspace : String := "Default_Keyspace"
  /-- Models with a major version below this are legacy. -/
  legacyBelow : UInt32 := 3
deriving DecidableEq, Repr

/-- What a plan depends on. -/
structure Scope where
  options : Options := {}
  names : Listing String := []
  /-- Whether columns change their type in place where they can. -/
  legacy : Bool := false

/-- The CQL types that a change declares on its two sides. -/
structure Retype where
  old : String
  new : String
deriving DecidableEq, Repr

/-- The declarations on the two sides of a change, if both are given. -/
def declarations? (change : Change) : Option (Declaration × Declaration) := do
  let old ← (← change.before).declaration
  let new ← (← change.after).declaration
  return (old, new)

/-- The CQL types of two declarations. -/
def Scope.retype (scope : Scope) (sides : Declaration × Declaration) : Retype :=
  ⟨cqlType scope.names sides.1, cqlType scope.names sides.2⟩

end Plan
end CqlDelta
