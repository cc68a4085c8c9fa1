import CqlDelta.Program.Failure
import CqlDelta.Proofs.Plan.Sections

/-!
# Plans that fail

A plan fails at a key column without an identifier, in a created table of a table section, and at
nothing else. Of several such columns the first one counts: sections come in the order of their
paths, and tables and columns in document order.
-/

namespace CqlDelta
namespace Plan

open Cql Delta

/-! ## First elements -/

section First

variable {α β : Type}

/-- A search ends at the first element at which something is found. -/
theorem findSome?_eq_some_iff_getElem?
    {f : α → Option β}
    {list : List α}
    {found : β} :
    list.findSome? f = some found ↔
      ∃ (index : Nat) (element : α), list[index]? = some element ∧ f element = some found ∧
        ∀ earlier < index, ∀ other, list[earlier]? = some other → f other = none := by
  rw [List.findSome?_eq_some_iff]
  constructor
  · rintro ⟨front, element, back, rfl, hfound, hfront⟩
    refine ⟨front.length, element, by simp, hfound, fun earlier hearlier other hother => ?_⟩
    rw [List.getElem?_append_left hearlier] at hother
    exact hfront other (List.mem_of_getElem? hother)
  · rintro ⟨index, element, helement, hfound, hearlier⟩
    obtain ⟨hindex, rfl⟩ := List.getElem?_eq_some_iff.mp helement
    refine ⟨list.take index, list[index], list.drop (index + 1), ?_, hfound, fun other hother => ?_⟩
    · rw [List.getElem_cons_drop, List.take_append_drop]
    · obtain ⟨earlier, hother⟩ := List.mem_iff_getElem?.mp hother
      rw [List.getElem?_take] at hother
      split at hother
      · rename_i hless
        exact hearlier earlier hless other hother
      · simp at hother

theorem findSome?_ne_none
    {f : α → Option β}
    {list : List α}
    {index : Nat}
    {element : α}
    (helement : list[index]? = some element)
    (h : f element ≠ none) :
    list.findSome? f ≠ none := by
  intro hnone
  exact h (List.findSome?_eq_none_iff.mp hnone element (List.mem_of_getElem? helement))

end First

/-! ## Columns and tables -/

/-- Whether a column belongs to a key and has no identifier. -/
def lacksIdentifier (column : String × Node) : Bool :=
  isKeyColumn column && column.2.declaration.guid.isNone

theorem unidentified?_eq_findSome?
    (columns : Members) :
    unidentified? columns =
      columns.findSome? fun column => if lacksIdentifier column then some column.1 else none := by
  induction columns with
  | nil => rfl
  | cons column more ih =>
      simp only [unidentified?, List.find?_cons, List.findSome?_cons] at ih ⊢
      cases hlacks : lacksIdentifier column with
      | true =>
          rw [lacksIdentifier] at hlacks
          simp [hlacks]
      | false =>
          rw [lacksIdentifier] at hlacks
          simpa [hlacks] using ih

theorem unidentified?_eq_some_iff
    {columns : Members}
    {name : String} :
    unidentified? columns = some name ↔
      ∃ (index : Nat) (column : String × Node), columns[index]? = some column ∧
        lacksIdentifier column = true ∧ column.1 = name ∧
          ∀ earlier < index, ∀ other,
            columns[earlier]? = some other → lacksIdentifier other = false := by
  rw [unidentified?_eq_findSome?, findSome?_eq_some_iff_getElem?]
  simp [and_assoc]

/-- The fault of a table entry: a table that is created, and a column of it. -/
def entryFault? (entry : String × Node) : Option KeyFault := do
  let change ← entry.2.elementChange?
  let columns ← entry.2.properties
  if !change.deleted && change.created then
    return ⟨entry.1, ← unidentified? columns⟩
  else
    none

theorem fault_entryTrail
    (scope : Scope)
    (edit : ColumnEdit)
    (entry : String × Node) :
    (entryTrail scope edit entry).fault = entryFault? entry := by
  rw [entryTrail, entryFault?]
  cases hchange : entry.2.elementChange? with
  | none => rfl
  | some change =>
      cases hcolumns : entry.2.properties with
      | none =>
          cases hdeleted : change.deleted <;> simp [hdeleted, Trail.ofStatements, Trail.ofEvents]
      | some columns =>
          cases hdeleted : change.deleted <;> cases hcreated : change.created <;>
            simp [hdeleted, hcreated, Trail.ofStatements, Trail.ofEvents]
          rw [createTrail]
          cases unidentified? columns <;> rfl

theorem entryFault?_eq_some_iff
    {entry : String × Node}
    {fault : KeyFault} :
    entryFault? entry = some fault ↔
      ∃ change columns, entry.2.elementChange? = some change ∧ change.deleted = false ∧
        change.created = true ∧ entry.2.properties = some columns ∧ fault.table = entry.1 ∧
          unidentified? columns = some fault.column := by
  obtain ⟨table, column⟩ := fault
  have hsame : entry.1 = table ↔ table = entry.1 := eq_comm
  rw [entryFault?]
  cases entry.2.elementChange? with
  | none => simp
  | some change =>
      cases entry.2.properties with
      | none => simp
      | some columns =>
          cases hdeleted : change.deleted <;> cases hcreated : change.created <;>
            cases hfound : unidentified? columns <;> simp [hdeleted, hcreated, hfound, hsame]

/-- A column of a created table belongs to its key and has no identifier. -/
inductive FaultyColumn : String × Node → Nat → KeyFault → Prop
  | intro {table name : String} {node field : Node} {change : Change} {columns : Members}
      {column : Nat}
      (changed : node.elementChange? = some change)
      (kept : change.deleted = false)
      (created : change.created = true)
      (declared : node.properties = some columns)
      (found : columns[column]? = some (name, field))
      (key : isKeyColumn (name, field) = true)
      (unnamed : field.declaration.guid = none) :
      FaultyColumn (table, node) column ⟨table, name⟩

theorem lacksIdentifier_iff
    {column : String × Node} :
    lacksIdentifier column = true ↔
      isKeyColumn column = true ∧ column.2.declaration.guid = none := by
  simp [lacksIdentifier]

/-- A table with a faulty column has a fault. -/
theorem FaultyColumn.entryFault?_ne_none
    {entry : String × Node}
    {column : Nat}
    {fault : KeyFault}
    (h : FaultyColumn entry column fault) :
    entryFault? entry ≠ none := by
  obtain ⟨changed, kept, created, declared, found, key, unnamed⟩ := h
  rename_i table name node field change columns
  have hcolumns : unidentified? columns ≠ none := by
    rw [unidentified?_eq_findSome?]
    exact findSome?_ne_none found (by simp [lacksIdentifier_iff.mpr ⟨key, unnamed⟩])
  obtain ⟨first, hfirst⟩ := Option.ne_none_iff_exists'.mp hcolumns
  have hfault : entryFault? (table, node) = some ⟨table, first⟩ :=
    entryFault?_eq_some_iff.mpr ⟨change, columns, changed, kept, created, declared, rfl, hfirst⟩
  simp [hfault]

/-- The fault of a table is that of its first faulty column. -/
theorem firstColumn_of_entryFault?
    {entry : String × Node}
    {fault : KeyFault}
    (h : entryFault? entry = some fault) :
    ∃ column, FaultyColumn entry column fault ∧
      ∀ other otherFault, FaultyColumn entry other otherFault → other = column ∨ column < other := by
  obtain ⟨table, node⟩ := entry
  obtain ⟨faultTable, faultColumn⟩ := fault
  obtain ⟨change, columns, hchange, hkept, hcreated, hcolumns, htable, hunidentified⟩ :=
    entryFault?_eq_some_iff.mp h
  obtain ⟨column, ⟨name, field⟩, hcolumn, hlacks, hname, hearlier⟩ :=
    unidentified?_eq_some_iff.mp hunidentified
  obtain ⟨hkey, hguid⟩ := lacksIdentifier_iff.mp hlacks
  obtain rfl : faultTable = table := htable
  obtain rfl : name = faultColumn := hname
  refine ⟨column, .intro hchange hkept hcreated hcolumns hcolumn hkey hguid, ?_⟩
  rintro other otherFault ⟨-, -, -, declared, found, key, unnamed⟩
  obtain rfl := Option.some.inj (hcolumns.symm.trans declared)
  rcases Nat.lt_trichotomy other column with hless | rfl | hgreater
  · have hother := hearlier other hless _ found
    simp [lacksIdentifier_iff.mpr ⟨key, unnamed⟩] at hother
  · exact .inl rfl
  · exact .inr hgreater

/-! ## Sections -/

/-- Whether a part holds changes of tables. -/
def isTablePart (part : Part) : Bool :=
  part = .modified || part = .deleted || part = .added

/-- The fault of a table section. -/
def sectionFault? (changes : View) : Option KeyFault :=
  (changes.branch? .items).bind fun items => items.entries.findSome? entryFault?

theorem fault_tableTrail
    (scope : Scope)
    (edit : ColumnEdit)
    (view : View) :
    (tableTrail scope edit view).fault = sectionFault? view := by
  rw [tableTrail, sectionFault?]
  cases view.branch? .items with
  | none => rfl
  | some items =>
      have hentry : Trail.fault ∘ entryTrail scope edit = entryFault? :=
        funext (fault_entryTrail scope edit)
      simp only [Trail.fault_concat, List.findSome?_map, hentry, Option.bind_some]

theorem fault_section
    (scope : Scope)
    (changes : Section) :
    (changes.trail scope).fault =
      if isTablePart changes.part then sectionFault? changes.view else none := by
  obtain ⟨part, view⟩ := changes
  cases part with
  | modified => exact fault_tableTrail scope .replace view
  | deleted => exact fault_tableTrail scope .drop view
  | added => exact fault_tableTrail scope .add view
  | containers => rfl
  | definitions => rfl
  | entities => rfl

/-- Among the items of a section there is a table with a faulty column. -/
def FaultyIn (changes : View) (index column : Nat) (fault : KeyFault) : Prop :=
  ∃ items entry, changes.branch? .items = some items ∧ items.entries[index]? = some entry ∧
    FaultyColumn entry column fault

/-- A section with a faulty column has a fault. -/
theorem FaultyIn.sectionFault?_ne_none
    {changes : View}
    {index column : Nat}
    {fault : KeyFault}
    (h : FaultyIn changes index column fault) :
    sectionFault? changes ≠ none := by
  obtain ⟨items, entry, hitems, hentry, hcolumn⟩ := h
  rw [sectionFault?, hitems, Option.bind_some]
  exact findSome?_ne_none hentry hcolumn.entryFault?_ne_none

/-- The fault of a section is that of the first faulty column of the first table that has one. -/
theorem firstEntry_of_sectionFault?
    {changes : View}
    {fault : KeyFault}
    (h : sectionFault? changes = some fault) :
    ∃ index column, FaultyIn changes index column fault ∧
      ∀ otherIndex otherColumn otherFault, FaultyIn changes otherIndex otherColumn otherFault →
        (otherIndex = index ∧ otherColumn = column) ∨
          Earlier [index, column] [otherIndex, otherColumn] := by
  obtain ⟨items, hitems, hfound⟩ := Option.bind_eq_some_iff.mp h
  obtain ⟨index, entry, hentry, hfault, hearlier⟩ := findSome?_eq_some_iff_getElem?.mp hfound
  obtain ⟨column, hcolumn, hfirst⟩ := firstColumn_of_entryFault? hfault
  refine ⟨index, column, ⟨items, entry, hitems, hentry, hcolumn⟩, ?_⟩
  rintro otherIndex otherColumn otherFault ⟨otherItems, otherEntry, hitems', hentry', hcolumn'⟩
  obtain rfl := Option.some.inj (hitems.symm.trans hitems')
  rcases Nat.lt_trichotomy otherIndex index with hless | rfl | hgreater
  · exact absurd (hearlier otherIndex hless _ hentry') hcolumn'.entryFault?_ne_none
  · obtain rfl := Option.some.inj (hentry.symm.trans hentry')
    rcases hfirst _ _ hcolumn' with rfl | hless
    · exact .inl ⟨rfl, rfl⟩
    · exact .inr (.there _ (.here hless _ _))
  · exact .inr (.here hgreater _ _)

/-! ## Sites -/

/-- Where a column stands in a comparison: behind which passages, in which section, in which of its
tables and where among the columns. -/
structure Site where
  passages : List Branch
  part : Part
  entry : Nat
  column : Nat

/-- The place of a site in the order in which a plan is made. -/
def Site.place (site : Site) : List Nat :=
  sectionTour.ranks (site.passages ++ [.part site.part]) ++ [site.entry, site.column]

/-- At a site there is a key column without an identifier, in a table that is created. -/
structure FaultyAt (document : Node) (site : Site) (fault : KeyFault) : Prop where
  through : ∀ branch ∈ site.passages, isPassage branch = true
  tables : isTablePart site.part = true
  reached : ∃ changes,
    (View.single document).follow? (site.passages ++ [.part site.part]) = some changes ∧
      FaultyIn changes site.entry site.column fault

/-- A faulty site is in a section of the tour, which has a fault. -/
theorem FaultyAt.section_faulty
    {document : Node}
    {site : Site}
    {fault : KeyFault}
    (h : FaultyAt document site fault)
    (scope : Scope) :
    ∃ changes,
      (site.passages ++ [.part site.part], Section.mk site.part changes) ∈
          sectionTour.tour (.single document) ∧
        FaultyIn changes site.entry site.column fault ∧
        ((Section.mk site.part changes).trail scope).fault ≠ none := by
  obtain ⟨hthrough, htables, changes, hreached, hfaulty⟩ := h
  have hstop : isPassage (.part site.part) = false := by
    cases hpart : site.part <;> first | rfl | simp [hpart, isTablePart] at htables
  refine ⟨changes, ?_, hfaulty, ?_⟩
  · exact mem_sectionTour_iff.mpr ⟨site.passages, rfl, hthrough, hstop, hreached⟩
  · rw [fault_section, if_pos htables]
    exact hfaulty.sectionFault?_ne_none

/-- The trail of a comparison ends at its first site. -/
theorem firstSite_of_fault
    {scope : Scope}
    {document : Node}
    {fault : KeyFault}
    (h : (trailOf scope (.single document)).fault = some fault) :
    ∃ site, FaultyAt document site fault ∧
      ∀ other otherFault, FaultyAt document other otherFault →
        other = site ∨ site.place < other.place := by
  rw [trailOf_eq_concat, Trail.fault_concat, List.findSome?_map,
    List.findSome?_eq_some_iff] at h
  obtain ⟨front, ⟨path, part, changes⟩, back, hlist, hfault, hfront⟩ := h
  have hmem : (path, Section.mk part changes) ∈ sectionTour.tour (.single document) := by
    simp [hlist]
  obtain ⟨passages, rfl, hthrough, -, hreached⟩ := mem_sectionTour_iff.mp hmem
  rw [Function.comp_apply, fault_section] at hfault
  by_cases htables : isTablePart part = true
  · rw [if_pos htables] at hfault
    obtain ⟨index, column, hfaulty, hfirst⟩ := firstEntry_of_sectionFault? hfault
    refine ⟨⟨passages, part, index, column⟩, ⟨hthrough, htables, changes, hreached, hfaulty⟩, ?_⟩
    rintro ⟨passages', part', index', column'⟩ otherFault hother
    obtain ⟨changes', hmem', hfaulty', hsection⟩ := hother.section_faulty scope
    rw [hlist, List.mem_append, List.mem_cons] at hmem'
    rcases hmem' with hbefore | hsame | hbehind
    · exact absurd (hfront _ hbefore) hsection
    · obtain ⟨hpath, hchanges⟩ := Prod.mk.inj hsame
      obtain ⟨rfl, -⟩ := List.append_inj' hpath rfl
      obtain ⟨rfl, rfl⟩ := Section.mk.inj hchanges
      rcases hfirst _ _ _ hfaulty' with ⟨rfl, rfl⟩ | hearlier
      · exact .inl rfl
      · exact .inr (hearlier.prepend _).lt
    · have hsorted := sectionTour_sorted (.single document)
      rw [hlist, List.pairwise_append] at hsorted
      have hearlier := List.rel_of_pairwise_cons hsorted.2.1 hbehind
      exact .inr (hearlier.append _ _).lt
  · simp [htables] at hfault

/-- A faulty site stops the trail of its comparison. -/
theorem fault_of_site
    {document : Node}
    {site : Site}
    {fault : KeyFault}
    (scope : Scope)
    (h : FaultyAt document site fault) :
    ∃ first, (trailOf scope (.single document)).fault = some first := by
  obtain ⟨changes, hmem, -, hsection⟩ := h.section_faulty scope
  rw [← Option.ne_none_iff_exists', trailOf_eq_concat, Trail.fault_concat, List.findSome?_map]
  intro hnone
  exact hsection (List.findSome?_eq_none_iff.mp hnone _ hmem)

/-! ## Failing plans -/

theorem result_eq_error_iff
    {trail : Trail}
    {fault : KeyFault} :
    trail.result = .error fault ↔ trail.fault = some fault := by
  rw [Trail.result]
  cases trail.fault <;> simp

/-- A plan fails if and only if some table section of the comparison has a table that is created,
with a key column that has no identifier; it fails at the first such column, and names it. -/
theorem plan_fails_at_first_unidentified_key_column
    (options : Options)
    (names : Listing String)
    (context : Context)
    (document : Node) :
    ((∃ fault, (compile options names context document).result = .error fault) ↔
      ∃ site fault, FaultyAt document site fault) ∧
    (∀ fault, (compile options names context document).result = .error fault →
      (∃ site, FaultyAt document site fault ∧
        ∀ other otherFault, FaultyAt document other otherFault →
          other = site ∨ site.place < other.place) ∧
      (Program.Failure.key fault).message =
        s!"Malformed diff at '{fault.table}/{fault.column}': key column has no GUID") := by
  simp only [result_compile, result_eq_error_iff]
  constructor
  · constructor
    · rintro ⟨fault, hfault⟩
      obtain ⟨site, hsite, -⟩ := firstSite_of_fault hfault
      exact ⟨site, fault, hsite⟩
    · rintro ⟨site, fault, hsite⟩
      exact fault_of_site _ hsite
  · exact fun fault hfault => ⟨firstSite_of_fault hfault, rfl⟩

/-- A table without an identifier for its key. -/
def unidentifiedTable (table column : String) : Node :=
  { items := some (.one { properties := some [(table,
      { element := some { change := some { created := true } }
        properties := some [(column, { declaration := { inPartitionKey := true } })] })] }) }

/-- Of two faulty sections the one that is visited first counts. -/
theorem plan_fails_in_modified_before_added :
    let document : Node :=
      { modified := some (unidentifiedTable "users" "key")
        added := some (unidentifiedTable "orders" "id") }
    (compile {} [] {} document).result = .error ⟨"users", "key"⟩ ∧
      ∃ site, FaultyAt document site ⟨"users", "key"⟩ ∧
        ∀ other otherFault, FaultyAt document other otherFault →
          other = site ∨ site.place < other.place := by
  intro document
  have hresult : (compile {} [] {} document).result = .error ⟨"users", "key"⟩ := rfl
  have hfirst := (plan_fails_at_first_unidentified_key_column {} [] {} document).2 _ hresult
  exact ⟨hresult, hfirst.1⟩

end Plan
end CqlDelta
