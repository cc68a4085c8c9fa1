import CqlDelta.Cql.Rendering
import CqlDelta.Plan.Context
import CqlDelta.Plan.Keyspaces
import CqlDelta.Plan.Tables
import CqlDelta.Plan.Types

/-!
# Plans

A plan is the list of statements that leads from the old schema to the new one. The branches of the
comparison are visited in a fixed order; some lead on to further sections, the others are sections
of keyspaces, of user-defined types, or of tables.
-/

namespace CqlDelta
namespace Plan

open Cql Delta

/-- What a branch leads to. -/
def sectionChanges
    (scope : Scope)
    (view : View)
    (along : Branch → Option (Making (List Statement)))
    (branch : Branch) :
    Making (List Statement) :=
  let inside (changes : View → Making (List Statement)) : Making (List Statement) :=
    match view.branch? branch with
    | none => return []
    | some inner => changes inner
  match branch with
  | .properties | .items | .part .entities => (along branch).getD (return [])
  | .part .containers => inside fun inner => return keyspaceChanges inner .altered
  | .part .definitions =>
      inside fun inner => Making.inTurn ((typeChanges scope inner).map Making.perform)
  | .part .modified => inside (tableChanges scope .replace)
  | .part .deleted => inside (tableChanges scope .drop)
  | .part .added => inside (tableChanges scope .add)

/-- What a view leads to, out of what is along its branches. -/
def planVisit
    (scope : Scope)
    (view : View)
    (along : Branch → Option (Making (List Statement))) :
    Making (List Statement) :=
  Making.inTurn (Branch.all.map (sectionChanges scope view along))

/-- What a comparison leads to. -/
def planChanges (scope : Scope) (view : View) : Making (List Statement) :=
  View.walk (planVisit scope) view

/-- What making a plan gives. -/
structure Outcome where
  result : Except KeyFault (List Statement)
  /-- The context afterwards. -/
  context : Context
  notes : List Note

/-- The scope of a plan in a context. -/
def scopeIn (options : Options) (names : Listing String) (context : Context) : Scope :=
  ⟨options, names, context.isLegacy options.legacyBelow⟩

/-- The note about a legacy model. -/
def legacyNotes (scope : Scope) (context : Context) : List Note :=
  if scope.legacy then [.legacyModel (context.version?.getD "")] else []

/-- The note at the end of a plan. -/
def finalNotes : Except KeyFault (List Statement) → List Note
  | .ok statements => [.planned statements.length]
  | .error _ => []

/-- Makes the plan of a comparison. Also a plan that fails leaves the last draft in the context. -/
def compile
    (options : Options)
    (names : Listing String)
    (context : Context)
    (document : Node) :
    Outcome :=
  let scope := scopeIn options names context
  let start : Desk := ⟨context, legacyNotes scope context⟩
  let (result, desk) := (planChanges scope (.single document)).run.run start
  { result := result
    context := desk.context
    notes := desk.notes ++ finalNotes result }

/-- A plan that is asked for. -/
structure Call where
  options : Options := {}
  names : Listing String := []
  document : Node

/-- Makes one plan after another in a context that all of them share. -/
def compileAll (context : Context) : List Call → List Outcome
  | [] => []
  | call :: more =>
      let outcome := compile call.options call.names context call.document
      outcome :: compileAll outcome.context more

end Plan
end CqlDelta
