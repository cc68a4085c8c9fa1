import CqlDelta.Delta.Reading
import CqlDelta.Proofs.Json.SteadyRecords

/-!
# Attributes of sorted trees

The attributes of a node are the same whether a tree is sorted or not, except that the keyspaces of
a placement come out in another order.
-/

namespace CqlDelta
namespace Delta

open Json

/-! ## Simple values -/

theorem flagOf?_sorted (tree : Tree) : flagOf? tree.sorted = flagOf? tree := by
  cases tree <;> rfl

theorem factorOf?_sorted (tree : Tree) : factorOf? tree.sorted = factorOf? tree := by
  cases tree <;> rfl

theorem steady_text? : Steady readText? Eq :=
  steady_string.option_eq

theorem steady_optionalFlag : Steady readOptionalFlag Eq :=
  steady_lenient flagOf?_sorted

theorem steady_flag : Steady readFlag Eq :=
  fun route route' tree h =>
    (steady_optionalFlag route route' tree h).map fun _ _ heq => congrArg (Option.getD · false) heq

theorem steady_factor : Steady readFactor Eq :=
  steady_lenient factorOf?_sorted

theorem steadyIn_eq
    {α σ : Type}
    {reader : Reader α}
    (hreader : Steady reader Eq)
    (key : String)
    (absence : Absence)
    (set : α → σ → σ) :
    (RecordField.of key absence reader set).SteadyIn Eq :=
  RecordField.steadyIn_same hreader (fun read _ _ hvalue => congrArg (set read) hvalue) key absence

/-! ## Records -/

theorem steadyIn_declaration : ∀ field ∈ declarationFields, field.SteadyIn Eq := by
  simp only [declarationFields, List.forall_mem_cons, steadyIn_eq steady_text?,
    steadyIn_eq steady_flag, true_and]
  simp

theorem commuting_declaration : declarationFields.Pairwise RecordField.CommutesWith := by
  simp only [declarationFields, List.pairwise_cons, List.forall_mem_cons]
  constructorm* _ ∧ _ <;>
    first
    | exact RecordField.commutesWith_of fun _ _ _ => rfl
    | simp

theorem steady_declaration : Steady declarationRecord.read Eq :=
  Record.steady steadyIn_declaration commuting_declaration rfl

theorem steady_revision : Steady revisionRecord.read Eq := by
  refine Record.steady ?_ ?_ rfl
  · simp only [revisionRecord, List.forall_mem_cons, steadyIn_eq steady_text?, true_and]
    simp
  · simp only [revisionRecord, List.pairwise_cons, List.forall_mem_cons]
    exact ⟨⟨RecordField.commutesWith_of fun _ _ _ => rfl, by simp⟩, by simp⟩

theorem steady_snapshot : Steady snapshotRecord.read Eq := by
  refine Record.steady ?_ (List.pairwise_singleton _ _) rfl
  simp only [snapshotRecord, List.forall_mem_singleton]
  exact steadyIn_eq steady_declaration.option_eq _ _ _

theorem steady_tableUse : Steady tableUseRecord.read Eq := by
  refine Record.steady ?_ (List.pairwise_singleton _ _) rfl
  simp only [tableUseRecord, List.forall_mem_singleton]
  exact steadyIn_eq steady_string _ _ _

theorem steady_placement : Steady readPlacement List.Perm :=
  steady_listing (steady_list steady_tableUse)

/-! ## Changes and elements -/

/-- The same change, with the keyspaces of its placement in another order. -/
structure Change.Reordered (change change' : Change) : Prop where
  rest : { change with placement := none } = { change' with placement := none }
  placement : Option.Rel List.Perm change.placement change'.placement

/-- What is set in a change beside its placement. -/
theorem Change.Reordered.set
    {set : Change → Change}
    (hrest : ∀ change,
      { set change with placement := none } = set { change with placement := none })
    (hplacement : ∀ change, (set change).placement = change.placement) :
    Respects Change.Reordered set set := by
  intro change change' h
  refine ⟨?_, ?_⟩
  · rw [hrest, hrest, h.rest]
  · rw [hplacement, hplacement]
    exact h.placement

theorem steadyIn_change : ∀ field ∈ changeRecord.fields, field.SteadyIn Change.Reordered := by
  have hkept {α : Type} {key : String} {reader : Reader α} {set : α → Change → Change}
      (hreader : Steady reader Eq)
      (hrest : ∀ read change,
        { set read change with placement := none } = set read { change with placement := none })
      (hplacement : ∀ read change, (set read change).placement = change.placement) :
      (RecordField.of key .fine reader set).SteadyIn Change.Reordered :=
    RecordField.steadyIn_same hreader (fun read => .set (hrest read) (hplacement read)) key .fine
  simp only [changeRecord, List.forall_mem_cons]
  refine ⟨?_, ?_, ?_, ?_, ?_, ?_, ?_, ?_, ?placement, by simp⟩
  case placement =>
    refine RecordField.steadyIn_of (steady_option steady_placement) ?_
    exact fun read read' hread change change' hchange => ⟨hchange.rest, hread⟩
  · exact hkept steady_flag (fun _ _ => rfl) fun _ _ => rfl
  · exact hkept steady_flag (fun _ _ => rfl) fun _ _ => rfl
  · exact hkept steady_text? (fun _ _ => rfl) fun _ _ => rfl
  · exact hkept steady_revision.option_eq (fun _ _ => rfl) fun _ _ => rfl
  · exact hkept steady_revision.option_eq (fun _ _ => rfl) fun _ _ => rfl
  · exact hkept steady_snapshot.option_eq (fun _ _ => rfl) fun _ _ => rfl
  · exact hkept steady_snapshot.option_eq (fun _ _ => rfl) fun _ _ => rfl
  · exact hkept steady_revision.option_eq (fun _ _ => rfl) fun _ _ => rfl

theorem commuting_change : changeRecord.fields.Pairwise RecordField.CommutesWith := by
  simp only [changeRecord, List.pairwise_cons, List.forall_mem_cons]
  constructorm* _ ∧ _ <;>
    first
    | exact RecordField.commutesWith_of fun _ _ _ => rfl
    | simp

theorem steady_change : Steady changeRecord.read Change.Reordered :=
  Record.steady steadyIn_change commuting_change ⟨rfl, .none⟩

theorem steady_dataCenter : Steady dataCenterRecord.read Eq := by
  refine Record.steady ?_ ?_ rfl
  · simp only [dataCenterRecord, List.forall_mem_cons, steadyIn_eq steady_string,
      steadyIn_eq steady_factor, true_and]
    simp
  · simp only [dataCenterRecord, List.pairwise_cons, List.forall_mem_cons]
    exact ⟨⟨RecordField.commutesWith_of fun _ _ _ => rfl, by simp⟩, by simp⟩

/-- The same element, with the keyspaces of a placement in another order. -/
structure Element.Reordered (element element' : Element) : Prop where
  rest : { element with change := none } = { element' with change := none }
  change : Option.Rel Change.Reordered element.change element'.change

/-- What is set in an element beside its change. -/
theorem Element.Reordered.set
    {set : Element → Element}
    (hrest : ∀ element,
      { set element with change := none } = set { element with change := none })
    (hchange : ∀ element, (set element).change = element.change) :
    Respects Element.Reordered set set := by
  intro element element' h
  refine ⟨?_, ?_⟩
  · rw [hrest, hrest, h.rest]
  · rw [hchange, hchange]
    exact h.change

theorem steadyIn_element : ∀ field ∈ elementRecord.fields, field.SteadyIn Element.Reordered := by
  have hkept {α : Type} {key : String} {reader : Reader α} {set : α → Element → Element}
      (hreader : Steady reader Eq)
      (hrest : ∀ read element,
        { set read element with change := none } = set read { element with change := none })
      (hchange : ∀ read element, (set read element).change = element.change) :
      (RecordField.of key .fine reader set).SteadyIn Element.Reordered :=
    RecordField.steadyIn_same hreader (fun read => .set (hrest read) (hchange read)) key .fine
  simp only [elementRecord, List.forall_mem_cons]
  refine ⟨?_, ?change, ?_, ?_, ?_, ?_, ?_, ?_, by simp⟩
  case change =>
    refine RecordField.steadyIn_of (steady_option steady_change) ?_
    exact fun read read' hread element element' helement => ⟨helement.rest, hread⟩
  · exact hkept steady_text? (fun _ _ => rfl) fun _ _ => rfl
  · exact hkept steady_text? (fun _ _ => rfl) fun _ _ => rfl
  · exact hkept steady_factor (fun _ _ => rfl) fun _ _ => rfl
  · exact hkept (steady_list steady_dataCenter).option_eq (fun _ _ => rfl) fun _ _ => rfl
  · exact hkept steady_optionalFlag (fun _ _ => rfl) fun _ _ => rfl
  · exact hkept steady_text? (fun _ _ => rfl) fun _ _ => rfl
  · exact hkept steady_text? (fun _ _ => rfl) fun _ _ => rfl

theorem commuting_element : elementRecord.fields.Pairwise RecordField.CommutesWith := by
  simp only [elementRecord, List.pairwise_cons, List.forall_mem_cons]
  constructorm* _ ∧ _ <;>
    first
    | exact RecordField.commutesWith_of fun _ _ _ => rfl
    | simp

theorem steady_element : Steady elementRecord.read Element.Reordered :=
  Record.steady steadyIn_element commuting_element ⟨rfl, .none⟩

end Delta
end CqlDelta
