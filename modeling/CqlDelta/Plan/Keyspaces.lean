import CqlDelta.Cql.Statement
import CqlDelta.Delta.Node

/-!
# Changes of keyspaces

The keyspaces of a section are the entries of its items. What becomes of them depends on the last
branch that was followed: they are created under `added`, dropped under `deleted`, and altered
everywhere else. What is nested in a section comes before its own items.
-/

namespace CqlDelta
namespace Plan

open Cql Delta

/-- What becomes of a keyspace. -/
inductive Fate where
  | created
  | dropped
  | altered
deriving DecidableEq, Repr

/-- The branches below a keyspace section, in order, and what becomes of the keyspaces there. -/
def keyspaceBranches : List (Branch × Fate) :=
  [ (.properties, .altered), (.part .modified, .altered), (.part .deleted, .dropped),
    (.part .added, .created) ]

/-- The statement for an entry. An entry without an element stands for no keyspace. -/
def keyspaceStatement? (fate : Fate) (entry : String × Node) : Option Statement :=
  entry.2.element.map fun element =>
    let name := element.name.getD entry.1
    match fate with
    | .created => .createKeyspace name (.ofElement element)
    | .dropped => .dropKeyspace name
    | .altered => .alterKeyspace name (.ofElement element)

/-- The statements for the items of a view. -/
def keyspaceItems (view : View) (fate : Fate) : List Statement :=
  match view.branch? .items with
  | none => []
  | some items => items.entries.filterMap (keyspaceStatement? fate)

/-- The statements of a view out of those along its branches. -/
def keyspaceVisit
    (view : View)
    (along : Branch → Option (Fate → List Statement))
    (fate : Fate) :
    List Statement :=
  (keyspaceBranches.flatMap fun branch =>
    match along branch.1 with
    | none => []
    | some inner => inner branch.2)
  ++ keyspaceItems view fate

/-- The statements of a keyspace section. -/
def keyspaceChanges (view : View) (fate : Fate) : List Statement :=
  View.walk keyspaceVisit view fate

end Plan
end CqlDelta
