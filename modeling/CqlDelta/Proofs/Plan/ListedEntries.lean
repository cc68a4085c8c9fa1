import CqlDelta.Proofs.Delta.ListedMembers
import CqlDelta.Proofs.Plan.Entries

/-!
# Entries that are given as a list

The entries of a section can be given as a list of nodes. They have their turn one after another, in
the order of the list, if their names are distinct. Of several entries under one name only the last
has its turn, in the place of the first (`listed_entries_are_kept_unless_names_repeat`), so that of
two tables of one name in different keyspaces one is lost (`second_table_of_a_name_replaces_first`).
-/

namespace CqlDelta
namespace Plan

open Cql Delta Json

/-- The members of a node that a view holds stand in one piece among the entries of the view. -/
theorem infix_entries_of_mem_nodes
    {view : View}
    {node : Node}
    (hnode : node ∈ view.nodes)
    {members : Members}
    (hmembers : node.properties = some members) :
    members <:+: view.entries :=
  List.infix_of_mem_flatten (List.mem_filterMap.mpr ⟨node, hnode, hmembers⟩)

/-- The members of a node among searched items stand one after another at spots of the section. -/
theorem stands_of_mem_nodes
    {document : Node}
    {passages : List Branch}
    {part : Part}
    {nested : List Branch}
    {view : View}
    (hthrough : ∀ branch ∈ passages, isPassage branch = true)
    (hsearched : Searched part nested)
    (hfollow : (View.single document).follow?
      (passages ++ [.part part] ++ (nested ++ [.items])) = some view)
    {node : Node}
    (hnode : node ∈ view.nodes)
    {members : Members}
    (hmembers : node.properties = some members) :
    ∃ offset, ∀ index entry, members[index]? = some entry →
      StandsAt document ⟨passages, part, nested, offset + index⟩ entry := by
  obtain ⟨offset, -, hplace⟩ :=
    List.infix_iff_getElem?.mp (infix_entries_of_mem_nodes hnode hmembers)
  refine ⟨offset, fun index entry hentry => ⟨hthrough, hsearched, view, hfollow, ?_⟩⟩
  obtain ⟨hindex, rfl⟩ := List.getElem?_eq_some_iff.mp hentry
  rw [Nat.add_comm]
  exact hplace index hindex

/-- A list whose items are all read as nodes is read as members. The nodes are kept as they are
listed, each under its name or its position, if and only if these are distinct. Otherwise every name
is kept once, in the place where it first appears, with the last node under it. A node that is read
with the list under the key of its members has just what is kept, and if it is among the items of a
section, all that is kept stands there one after another, and has its turn. -/
theorem listed_entries_are_kept_unless_names_repeat
    (items : List Tree)
    (nodes : List Node)
    (hnodes : List.Forall₂ (fun item node => readNode .ahead item = .ok node) items nodes)
    (listStop : ListStop) :
    (∀ index : Nat, (keyed nodes)[index]? =
      nodes[index]?.map fun node => (node.elementName?.getD (toString index), node)) ∧
    ∃ kept, readNamed (.list items listStop) = .ok kept ∧
      (kept = keyed nodes ↔ (Listing.names (keyed nodes)).Nodup) ∧
      kept.names = (Listing.names (keyed nodes)).eraseDups ∧
      (∀ name, kept.get? name = ((keyed nodes).filter (·.1 = name)).getLast?.map Prod.snd) ∧
      (∀ route members stop node, readNode route (.object members stop) = .ok node →
        (.ok "properties", .list items listStop) ∈ members → node.properties = some kept) ∧
      ∀ (document : Node) (passages : List Branch) (part : Part) (nested : List Branch)
        (view : View) (node : Node),
        (∀ branch ∈ passages, isPassage branch = true) → Searched part nested →
        (View.single document).follow? (passages ++ [.part part] ++ (nested ++ [.items])) =
          some view →
        node ∈ view.nodes → node.properties = some kept →
        ∃ offset, ∀ index entry, kept[index]? = some entry →
          StandsAt document ⟨passages, part, nested, offset + index⟩ entry := by
  have hkept := readNamed_list hnodes listStop
  refine ⟨getElem?_keyed nodes, Listing.ofEntries (keyed nodes), hkept,
    Listing.ofEntries_eq_self_iff, Listing.names_ofEntries _,
    fun name => Listing.get?_ofEntries name _, ?members, ?turns⟩
  case members =>
    intro route members stop node hread hmember
    obtain ⟨found, hfound, hproperties⟩ := properties_of_readNode hread hmember
    obtain rfl := Except.ok.inj (hkept.symm.trans hfound)
    exact hproperties
  case turns =>
    intro document passages part nested view node hthrough hsearched hfollow hnode hproperties
    exact stands_of_mem_nodes hthrough hsearched hfollow hnode hproperties

/-- A table to be dropped, as it is given in a list. -/
def droppedTree (keyspace table : String) : Tree :=
  let change : Tree :=
    .object [(.ok "deleted", .bool true), (.ok "keyspaceName", .text (.ok keyspace))] .closed
  .object
    [(.ok "role", .object [(.ok "name", .text (.ok table)), (.ok "compMod", change)] .closed)]
    .closed

/-- A table to be dropped. -/
def droppedNode (keyspace table : String) : Node :=
  { element := some
      { name := some table
        change := some { deleted := true, keyspace := some keyspace } } }

/-- A comparison whose deleted tables are the members of one node. -/
def droppedDocument (kept : Members) : Node :=
  { deleted := some { items := some (.one { properties := some kept }) } }

theorem droppedTree_is_read (keyspace table : String) :
    readNode .ahead (droppedTree keyspace table) = .ok (droppedNode keyspace table) := by
  cbv

theorem listed_tables_are_dropped_in_order :
    let items := [droppedTree "shop" "users", .object [] .closed, droppedTree "blog" "posts"]
    let kept : Members :=
      [("users", droppedNode "shop" "users"), ("1", {}), ("posts", droppedNode "blog" "posts")]
    readNamed (.list items .closed) = .ok kept ∧
      (∃ offset, ∀ index entry, kept[index]? = some entry →
        StandsAt (droppedDocument kept) ⟨[], .deleted, [], offset + index⟩ entry) ∧
      (compile {} [] {} (droppedDocument kept)).result =
        .ok [.dropTable ⟨some "shop", "users"⟩, .dropTable ⟨some "blog", "posts"⟩] := by
  intro items kept
  have hempty : readNode .ahead (.object [] .closed) = .ok {} := by cbv
  obtain ⟨-, found, hfound, hdistinct, -, -, -, hstand⟩ :=
    listed_entries_are_kept_unless_names_repeat items [_, _, _]
      (.cons (droppedTree_is_read "shop" "users") (.cons hempty
        (.cons (droppedTree_is_read "blog" "posts") .nil))) .closed
  obtain rfl : found = kept := hdistinct.mpr (by decide +kernel)
  refine ⟨hfound, ?_, by decide +kernel⟩
  exact hstand _ [] .deleted [] _ { properties := some kept } (by simp) (.tables rfl) rfl
    (List.mem_singleton_self _) rfl

/-- Two tables of one name in different keyspaces are listed, and only the second is dropped. -/
theorem second_table_of_a_name_replaces_first :
    let items := [droppedTree "shop" "users", droppedTree "blog" "users"]
    let nodes := [droppedNode "shop" "users", droppedNode "blog" "users"]
    let kept : Members := [("users", droppedNode "blog" "users")]
    List.Forall₂ (fun item node => readNode .ahead item = .ok node) items nodes ∧
      readNode .whole (.object [(.ok "properties", .list items .closed)] .closed) =
        .ok { properties := some kept } ∧
      kept.length ≠ items.length ∧ kept[0]? ≠ (keyed nodes)[0]? ∧
      (compile {} [] {} (droppedDocument kept)).result =
        .ok [.dropTable ⟨some "blog", "users"⟩] := by
  intro items nodes kept
  have hnodes : List.Forall₂ (fun item node => readNode .ahead item = .ok node) items nodes :=
    .cons (droppedTree_is_read "shop" "users") (.cons (droppedTree_is_read "blog" "users") .nil)
  refine ⟨hnodes, by cbv, by decide, ?_, by decide +kernel⟩
  intro hsame
  have hkeyspace := congrArg (Option.map fun entry =>
    entry.2.elementChange?.bind Change.keyspace) hsame
  revert hkeyspace
  decide +kernel

end Plan
end CqlDelta
