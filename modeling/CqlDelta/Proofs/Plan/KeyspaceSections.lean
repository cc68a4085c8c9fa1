import CqlDelta.Proofs.Plan.Entries

/-!
# Sections of keyspaces

Below a section of keyspaces the items are searched behind all paths of the branches `properties`,
`modified`, `deleted` and `added`. The last branch before the items decides what becomes of their
keyspaces, and what is nested comes before the items of a view itself
(`keyspace_entries_lead_to_one_statement_each`).
-/

namespace CqlDelta
namespace Plan

open Cql Delta

/-- What is said of a keyspace behind branches: the last of them decides. -/
def keyspaceSaid (nested : List Branch) (key : String) (element : Element) : Statement :=
  let name := element.name.getD key
  match nested.getLast? with
  | some (.part .added) => .createKeyspace name (.ofElement element)
  | some (.part .deleted) => .dropKeyspace name
  | _ => .alterKeyspace name (.ofElement element)

/-- What is said of an entry behind branches. An entry without an element stands for no keyspace. -/
def saidOfKeyspace (nested : List Branch) (entry : String × Node) : List Statement :=
  (entry.2.element.map (keyspaceSaid nested entry.1)).toList

/-! ## Entries -/

/-- What becomes of a keyspace is said by the last branch before the items. -/
theorem keyspaceStatement?_fateAfter
    {nested : List Branch}
    (h : ∀ branch ∈ nested, branch ∈ keyspaceBranches.map Prod.fst)
    (entry : String × Node) :
    keyspaceStatement? (fateAfter .altered nested) entry =
      entry.2.element.map (keyspaceSaid nested entry.1) := by
  rw [keyspaceStatement?, fateAfter_eq_fateAlong h]
  refine congrArg (Option.map · _) (funext fun element => ?_)
  rw [keyspaceSaid]
  cases nested.getLast? with
  | none => rfl
  | some branch =>
      cases branch with
      | part part => cases part <;> rfl
      | _ => rfl

/-- A section of keyspaces says of its entries, one after another, what becomes of them. -/
theorem keyspaceChanges_eq_saidOfKeyspace (view : View) :
    keyspaceChanges view .altered =
      (keyspaceEntries view).flatMap fun standing =>
        saidOfKeyspace standing.1 standing.2.entry := by
  rw [keyspaceChanges_eq_flatMap, keyspaceEntries, List.flatMap_map]
  refine congrArg List.flatten (List.map_congr_left fun stop hstop => ?_)
  obtain ⟨path, item⟩ := stop
  obtain ⟨nested, rfl, hthrough, -⟩ := mem_keyspaceTour_iff.mp hstop
  rw [List.dropLast_concat, fateAfter_items, keyspaceStatement?_fateAfter hthrough, saidOfKeyspace]

/-! ## Sections in a plan -/

/-- What a section leads to stands in one piece in a plan that succeeds. -/
theorem infix_of_reachesSection
    {options : Options}
    {names : Listing String}
    {context : Context}
    {document : Node}
    {path : List Branch}
    {changes : Section}
    (hreached : ReachesSection document path changes)
    {plan : List Statement}
    (hplan : (compile options names context document).result = .ok plan) :
    (changes.trail (scopeIn options names context)).statements <:+: plan := by
  rw [result_compile, trailOf_eq_concat] at hplan
  obtain ⟨hfault, rfl⟩ := Trail.result_eq_ok_iff.mp hplan
  rw [Trail.statements_concat hfault, List.flatMap_map]
  exact List.infix_of_mem_flatten
    (List.mem_map.mpr ⟨(path, changes), mem_sectionTour_iff.mpr hreached, rfl⟩)

/-- A section of keyspaces has as its entries the named nodes among all items that are found behind
branches `properties`, `modified`, `deleted` and `added`. Every entry with an element leads to one
statement, and the others to none: behind the branch `added` the keyspace is created, behind
`deleted` it is dropped, and behind any other branch or none it is altered, under the name of its
element or else under its key. The entries come in the lexicographic order of their branches and
positions, with the items last among the branches of a view, so that none comes twice and what is
nested comes first. What they lead to is all that the section leads to, and stands in one piece in
every plan that succeeds. -/
theorem keyspace_entries_lead_to_one_statement_each
    (options : Options)
    (names : Listing String)
    (context : Context)
    (document : Node)
    (path : List Branch)
    (view : View)
    (hreached : ReachesSection document path ⟨.containers, view⟩) :
    let passages : List Branch := [.properties, .part .modified, .part .deleted, .part .added]
    let order : List Branch := passages ++ [.items]
    ∃ entries : List (List Branch × Item),
      (∀ nested item, (nested, item) ∈ entries ↔
        (∀ branch ∈ nested, branch ∈ passages) ∧
          ∃ items, view.follow? (nested ++ [.items]) = some items ∧
            items.entries[item.index]? = some item.entry) ∧
      (entries.Pairwise fun first second =>
        (first.1 ++ [.items]).map order.idxOf ++ [first.2.index] <
          (second.1 ++ [.items]).map order.idxOf ++ [second.2.index]) ∧
      let said := entries.flatMap fun standing => saidOfKeyspace standing.1 standing.2.entry
      (Section.mk .containers view).LeadsTo (scopeIn options names context) said ∧
      ∀ plan, (compile options names context document).result = .ok plan → said <:+: plan := by
  intro passages order
  have hsaid (scope : Scope) :
      (Section.mk .containers view).trail scope =
        .ofStatements ((keyspaceEntries view).flatMap fun standing =>
          saidOfKeyspace standing.1 standing.2.entry) :=
    congrArg Trail.ofStatements (keyspaceChanges_eq_saidOfKeyspace view)
  refine ⟨keyspaceEntries view, fun nested item => mem_keyspaceEntries_iff,
    (keyspaceEntries_sorted view).imp Earlier.lt, ?leads, ?plan⟩
  case leads =>
    rw [leadsTo_iff, hsaid]
    exact Trail.result_eq_ok_iff.mpr ⟨rfl, Trail.statements_ofStatements _⟩
  case plan =>
    intro plan hplan
    have hpiece := infix_of_reachesSection hreached hplan
    rwa [hsaid, Trail.statements_ofStatements] at hpiece

/-- A section of keyspaces with an added one, an entry that stands for none, and, behind a further
branch, one that is altered: a member under the key of items is searched like items. -/
def nestedKeyspaces : Node :=
  let shop : Node := { element := some { name := some "shop" } }
  { added := some
      { properties := some [("items", { properties := some [("0", shop)] })]
        items := some (.one { properties := some [("blog", { element := some {} }), ("none", {})] })
      } }

theorem nested_keyspace_is_altered_before_next_is_created :
    let document : Node := { containers := some nestedKeyspaces }
    let said : List Statement := [.alterKeyspace "shop" {}, .createKeyspace "blog" {}]
    ReachesSection document [.part .containers] ⟨.containers, .single nestedKeyspaces⟩ ∧
      (compile {} [] {} document).result = .ok said ∧
      ∃ entries : List (List Branch × Item),
        ([.part .added, .properties], ⟨0, ("0", { element := some { name := some "shop" } })⟩) ∈
            entries ∧
          ([.part .added], ⟨0, ("blog", { element := some {} })⟩) ∈ entries ∧
          ([.part .added], ⟨1, ("none", {})⟩) ∈ entries ∧
          (entries.flatMap fun standing => saidOfKeyspace standing.1 standing.2.entry) = said := by
  intro document said
  have hreached : ReachesSection document [.part .containers]
      ⟨.containers, .single nestedKeyspaces⟩ :=
    ⟨[], rfl, by simp, rfl, rfl⟩
  obtain ⟨entries, hentries, -, hleads, -⟩ :=
    keyspace_entries_lead_to_one_statement_each {} [] {} document _ _ hreached
  refine ⟨hreached, by decide +kernel, entries, ?_, ?_, ?_, ?_⟩
  · exact (hentries _ _).mpr ⟨by decide, _, rfl, rfl⟩
  · exact (hentries _ _).mpr ⟨by decide, _, rfl, rfl⟩
  · exact (hentries _ _).mpr ⟨by decide, _, rfl, rfl⟩
  · -- The entries need not be known: what a section leads to is determined, and can be computed.
    have hmaking :
        (((Section.mk .containers (.single nestedKeyspaces)).making
          (scopeIn {} [] {})).run.run ⟨{}, []⟩).1 = .ok said := by decide +kernel
    exact Except.ok.inj ((hleads ⟨{}, []⟩).symm.trans hmaking)

end Plan
end CqlDelta
