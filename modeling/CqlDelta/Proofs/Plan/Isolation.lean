import CqlDelta.Proofs.Plan.Account

/-!
# Plans do not see each other

A context carries the draft of the table that was created last from plan to plan, but no plan
depends on it: of the context a plan sees only whether the model is legacy.
-/

namespace CqlDelta
namespace Plan

open Cql Delta

theorem versions_compile
    (options : Options)
    (names : Listing String)
    (context : Context)
    (document : Node) :
    (compile options names context document).context.versions = context.versions := by
  rw [compile_eq]

/-- Of a context only the declared versions of the model count for the scope. -/
theorem scopeIn_of_isLegacy
    {options : Options}
    {first second : Context}
    (h : first.isLegacy options.legacyBelow = second.isLegacy options.legacyBelow)
    (names : Listing String) :
    scopeIn options names first = scopeIn options names second := by
  rw [scopeIn, scopeIn, h]

theorem result_compile_congr
    {options : Options}
    {first second : Context}
    (h : first.isLegacy options.legacyBelow = second.isLegacy options.legacyBelow)
    (names : Listing String)
    (document : Node) :
    (compile options names first document).result =
      (compile options names second document).result := by
  rw [result_compile, result_compile, scopeIn_of_isLegacy h]

/-- However many plans were made before in the same context, each is the plan of a fresh one. -/
theorem results_compileAll
    (context : Context)
    (calls : List Call) :
    (compileAll context calls).map Outcome.result =
      calls.map fun call =>
        (compile call.options call.names { versions := context.versions }
          call.document).result := by
  induction calls generalizing context with
  | nil => rfl
  | cons call more ih =>
      have hfresh : context.isLegacy call.options.legacyBelow =
          ({ versions := context.versions } : Context).isLegacy call.options.legacyBelow := rfl
      rw [compileAll, List.map_cons, List.map_cons, ih, versions_compile,
        result_compile_congr hfresh]

/-- Two contexts that agree on whether the model is legacy give the same plan or the same fault,
whatever drafts they hold; a plan leaves the versions of the model alone; and in a row of plans that
share a context each is the plan of a fresh context of the same model. -/
theorem plans_do_not_see_earlier_drafts :
    (∀ options names first second document,
      first.isLegacy options.legacyBelow = second.isLegacy options.legacyBelow →
        (compile options names first document).result =
          (compile options names second document).result) ∧
    (∀ options names context document,
      (compile options names context document).context.versions = context.versions) ∧
    (∀ context calls,
      (compileAll context calls).map Outcome.result =
        calls.map fun call =>
          (compile call.options call.names { versions := context.versions }
            call.document).result) :=
  ⟨fun _ names _ _ document h => result_compile_congr h names document, versions_compile,
    results_compileAll⟩

/-- A created table. -/
def createdTable : Node :=
  { element := some { change := some { created := true } }
    properties := some [("id", { declaration := { guid := some "7", inPartitionKey := true } })] }

/-- A context in which a table was created before. -/
def usedContext : Context :=
  { versions := [some "4.1"]
    draft := { keyspaces := [some "old"], tables := [{ name := "gone", options := "gc = 1" }] } }

theorem created_table_does_not_see_earlier_draft :
    let document : Node :=
      { added := some { items := some (.one { properties := some [("users", createdTable)] }) } }
    usedContext.isLegacy 3 = ({} : Context).isLegacy 3 ∧
      (compile {} [] usedContext document).result = (compile {} [] {} document).result := by
  intro document
  have hlegacy : usedContext.isLegacy 3 = ({} : Context).isLegacy 3 := rfl
  exact ⟨hlegacy, plans_do_not_see_earlier_drafts.1 {} [] usedContext {} document hlegacy⟩

end Plan
end CqlDelta
