import CqlDelta.Plan.Making
import Mathlib.Data.List.Forall2

/-!
# Trails

Making a plan leaves a trail: the statements, the drafts that were handed over and the notes, in
their order, up to the end or to the first fault. Trails are put together one after another, and
nothing follows a fault. A trail can be replayed, and trails that are put together are replayed in
turn (`replay_append`, `inTurn_eq_replay`).
-/

namespace CqlDelta
namespace Plan

open Cql

namespace Making

variable {α β : Type}

theorem pure_apply (value : α) (desk : Desk) : (pure value : Making α) desk = (.ok value, desk) :=
  rfl

/-- What follows a part finds what the part left at hand; nothing follows a fault. -/
theorem bind_apply (part : Making α) (next : α → Making β) (desk : Desk) :
    (part >>= next) desk =
      match part desk with
      | (.ok value, left) => next value left
      | (.error fault, left) => (.error fault, left) := by
  simp only [bind, ExceptT.bind, ExceptT.mk, StateT.bind]
  rcases part desk with ⟨outcome, left⟩
  cases outcome <;> rfl

end Making

/-- What making a plan leaves behind. -/
structure Trail where
  events : List Event := []
  fault : Option KeyFault := none

namespace Trail

/-- The trail that ends at a fault. -/
def stop (fault : KeyFault) : Trail :=
  ⟨[], some fault⟩

/-- The trail of events. -/
def ofEvents (events : List Event) : Trail :=
  ⟨events, none⟩

/-- The trail of statements. -/
def ofStatements (statements : List Statement) : Trail :=
  ofEvents (statements.map .statement)

/-- One trail after another; nothing follows a fault. -/
def append (first second : Trail) : Trail :=
  match first.fault with
  | some _ => first
  | none => ⟨first.events ++ second.events, second.fault⟩

instance : Append Trail :=
  ⟨append⟩

/-- Trails one after another. -/
def concat : List Trail → Trail
  | [] => {}
  | trail :: more => trail ++ concat more

/-- The statement of a step. -/
def statementOf? : Event → Option Statement
  | .statement statement => some statement
  | _ => none

/-- The draft of a step. -/
def draftOf? : Event → Option Draft
  | .handOver draft => some draft
  | _ => none

/-- The note of a step. -/
def noteOf? : Event → Option Note
  | .note note => some note
  | _ => none

/-- The statements of a trail. -/
def statements (trail : Trail) : List Statement :=
  trail.events.filterMap statementOf?

/-- The draft that was handed over last. -/
def lastDraft? (trail : Trail) : Option Draft :=
  (trail.events.filterMap draftOf?).getLast?

/-- The notes of a trail. -/
def notes (trail : Trail) : List Note :=
  trail.events.filterMap noteOf?

/-- The statements of a trail, or its fault. -/
def result (trail : Trail) : Except KeyFault (List Statement) :=
  match trail.fault with
  | some fault => .error fault
  | none => .ok trail.statements

theorem append_eq (first second : Trail) :
    first ++ second =
      match first.fault with
      | some _ => first
      | none => ⟨first.events ++ second.events, second.fault⟩ :=
  rfl

theorem append_of_fault
    {first : Trail}
    {fault : KeyFault}
    (h : first.fault = some fault)
    (second : Trail) :
    first ++ second = first := by
  rw [append_eq, h]

theorem append_of_no_fault
    {first : Trail}
    (h : first.fault = none)
    (second : Trail) :
    first ++ second = ⟨first.events ++ second.events, second.fault⟩ := by
  rw [append_eq, h]

@[simp]
theorem empty_append (trail : Trail) : ({} : Trail) ++ trail = trail := by
  rw [append_of_no_fault rfl]
  rfl

@[simp]
theorem append_empty (trail : Trail) : trail ++ ({} : Trail) = trail := by
  cases h : trail.fault with
  | some fault => exact append_of_fault h _
  | none =>
      rw [append_of_no_fault h]
      cases trail
      simp_all

theorem append_assoc (first second third : Trail) :
    first ++ second ++ third = first ++ (second ++ third) := by
  obtain ⟨firstEvents, firstFault⟩ := first
  obtain ⟨secondEvents, secondFault⟩ := second
  cases firstFault with
  | some fault => rfl
  | none => cases secondFault <;> simp [append_eq]

theorem concat_append (front back : List Trail) :
    concat (front ++ back) = concat front ++ concat back := by
  induction front with
  | nil => simp [concat]
  | cons trail more ih => simp [concat, ih, append_assoc]

theorem concat_flatMap
    {α : Type}
    (parts : α → List Trail)
    (elements : List α) :
    concat (elements.flatMap parts) =
      concat (elements.map fun element => concat (parts element)) := by
  induction elements with
  | nil => rfl
  | cons element more ih => rw [List.flatMap_cons, concat_append, ih, List.map_cons, concat]

/-- The trail of events that come in groups is put together from the groups. -/
theorem ofEvents_flatMap
    {α : Type}
    (events : α → List Event)
    (elements : List α) :
    ofEvents (elements.flatMap events) =
      concat (elements.map fun element => ofEvents (events element)) := by
  induction elements with
  | nil => rfl
  | cons element more ih =>
      rw [List.map_cons, concat, ← ih, append_of_no_fault rfl]
      rfl

theorem ofStatements_flatMap
    {α : Type}
    (statements : α → List Statement)
    (elements : List α) :
    ofStatements (elements.flatMap statements) =
      concat (elements.map fun element => ofStatements (statements element)) := by
  rw [ofStatements, List.map_flatMap]
  exact ofEvents_flatMap _ elements

/-- The fault of trails that are put together is the first one. -/
theorem fault_concat (trails : List Trail) :
    (concat trails).fault = trails.findSome? fault := by
  induction trails with
  | nil => rfl
  | cons trail more ih =>
      rw [concat, List.findSome?_cons]
      cases hfault : trail.fault with
      | some fault => rw [append_of_fault hfault, hfault]
      | none => rw [append_of_no_fault hfault, ih]

/-- A plan that succeeds has the statements of its parts. -/
theorem statements_append
    {first second : Trail}
    (h : (first ++ second).fault = none) :
    (first ++ second).statements = first.statements ++ second.statements := by
  cases hfirst : first.fault with
  | some fault =>
      rw [append_of_fault hfirst, hfirst] at h
      simp at h
  | none => simp [append_of_no_fault hfirst, statements]

/-- Trails that are put together without a fault have the events of each in turn, and no fault in
any of them. -/
theorem events_concat
    {trails : List Trail}
    (h : (concat trails).fault = none) :
    (∀ trail ∈ trails, trail.fault = none) ∧ (concat trails).events = trails.flatMap events := by
  rw [fault_concat, List.findSome?_eq_none_iff] at h
  refine ⟨h, ?_⟩
  induction trails with
  | nil => rfl
  | cons trail more ih =>
      obtain ⟨htrail, hmore⟩ := List.forall_mem_cons.mp h
      rw [concat, append_of_no_fault htrail, List.flatMap_cons, ih hmore]

theorem statements_concat
    {trails : List Trail}
    (h : (concat trails).fault = none) :
    (concat trails).statements = trails.flatMap statements := by
  rw [statements, (events_concat h).2, List.filterMap_flatMap]
  rfl

/-- The drafts of a trail. -/
def drafts (trail : Trail) : List Draft :=
  trail.events.filterMap draftOf?

theorem lastDraft?_eq_getLast? (trail : Trail) : trail.lastDraft? = trail.drafts.getLast? :=
  rfl

theorem drafts_concat
    {trails : List Trail}
    (h : (concat trails).fault = none) :
    (concat trails).drafts = trails.flatMap drafts := by
  rw [drafts, (events_concat h).2, List.filterMap_flatMap]
  rfl

/-- Trails that are put together end at the first that has a fault; nothing of those behind it is
left. -/
theorem exists_first_fault
    {α : Type}
    {elements : List α}
    {part : α → Trail}
    {fault : KeyFault}
    (h : (concat (elements.map part)).fault = some fault) :
    ∃ front element back, elements = front ++ element :: back ∧
      (concat (front.map part)).fault = none ∧ (part element).fault = some fault ∧
        concat (elements.map part) = concat (front.map part) ++ part element := by
  rw [fault_concat, List.findSome?_map, List.findSome?_eq_some_iff] at h
  obtain ⟨front, element, back, rfl, helement, hfront⟩ := h
  refine ⟨front, element, back, rfl, ?_, helement, ?_⟩
  · rw [fault_concat, List.findSome?_map, List.findSome?_eq_none_iff]
    exact hfront
  · rw [List.map_append, concat_append, List.map_cons, concat, append_of_fault helement]

theorem result_eq_ok_iff
    {trail : Trail}
    {statements : List Statement} :
    trail.result = .ok statements ↔ trail.fault = none ∧ trail.statements = statements := by
  rw [result]
  cases trail.fault <;> simp

/-- Trails that are put together succeed if each does, and then have the statements of each in
turn. -/
theorem result_concat_eq_ok_iff
    {trails : List Trail}
    {statements : List Statement} :
    (concat trails).result = .ok statements ↔
      ∃ parts, List.Forall₂ (fun trail part => trail.result = .ok part) trails parts ∧
        statements = parts.flatten := by
  induction trails generalizing statements with
  | nil =>
      simp only [List.forall₂_nil_left_iff, exists_eq_left, List.flatten_nil]
      exact ⟨fun h => (Except.ok.inj h).symm, fun h => congrArg Except.ok h.symm⟩
  | cons trail more ih =>
      rw [concat]
      constructor
      · intro h
        obtain ⟨hfault, hstatements⟩ := result_eq_ok_iff.mp h
        cases htrail : trail.fault with
        | some fault => simp [append_of_fault htrail, htrail] at hfault
        | none =>
            have hmore : (concat more).fault = none := by
              simpa [append_of_no_fault htrail] using hfault
            obtain ⟨parts, hparts, heq⟩ := ih.mp (result_eq_ok_iff.mpr ⟨hmore, rfl⟩)
            have htrail := result_eq_ok_iff.mpr ⟨htrail, rfl⟩
            refine ⟨trail.statements :: parts, .cons htrail hparts, ?_⟩
            rw [← hstatements, statements_append hfault, heq, List.flatten_cons]
      · rintro ⟨parts, hparts, rfl⟩
        obtain ⟨part, others, htrail, hothers, rfl⟩ := List.forall₂_cons_left_iff.mp hparts
        obtain ⟨hfault, rfl⟩ := result_eq_ok_iff.mp htrail
        obtain ⟨hmore, hstatements⟩ := result_eq_ok_iff.mp (ih.mpr ⟨others, hothers, rfl⟩)
        have hboth : (trail ++ concat more).fault = none := by
          simpa [append_of_no_fault hfault] using hmore
        rw [result_eq_ok_iff, statements_append hboth, hstatements, List.flatten_cons]
        exact ⟨hboth, rfl⟩

@[simp]
theorem statements_ofStatements (list : List Statement) :
    (ofStatements list).statements = list := by
  induction list with
  | nil => rfl
  | cons head more ih => exact congrArg (head :: ·) ih

@[simp]
theorem drafts_ofStatements (list : List Statement) :
    (ofStatements list).drafts = [] := by
  simp [drafts, ofStatements, ofEvents, List.filterMap_map, Function.comp_def, draftOf?]

@[simp]
theorem lastDraft?_ofStatements (list : List Statement) :
    (ofStatements list).lastDraft? = none :=
  congrArg List.getLast? (drafts_ofStatements list)

@[simp]
theorem notes_ofStatements (list : List Statement) :
    (ofStatements list).notes = [] := by
  simp [notes, ofStatements, ofEvents, List.filterMap_map, Function.comp_def, noteOf?]

/-! ## Replaying -/

/-- What is at hand after a trail: its last draft, and its notes behind the earlier ones. -/
def leave (trail : Trail) (desk : Desk) : Desk :=
  { context := { desk.context with draft := trail.lastDraft?.getD desk.context.draft }
    notes := desk.notes ++ trail.notes }

/-- Makes what a trail tells, whatever is at hand. -/
def replay (trail : Trail) : Making (List Statement) :=
  fun desk => (trail.result, trail.leave desk)

theorem replay_empty : ({} : Trail).replay = pure [] := by
  funext desk
  simp [replay, Making.pure_apply, result, statements, leave, lastDraft?, notes]

theorem replay_ofStatements (statements : List Statement) :
    (ofStatements statements).replay = pure statements := by
  funext desk
  have hresult : (ofStatements statements).result = .ok statements :=
    congrArg Except.ok (statements_ofStatements statements)
  simp [replay, Making.pure_apply, hresult, leave]

theorem replay_stop (fault : KeyFault) :
    (stop fault).replay = throw fault := by
  funext desk
  have hnotes : desk.notes ++ [] = desk.notes := List.append_nil _
  show (_, Desk.mk _ (desk.notes ++ [])) = _
  rw [hnotes]
  rfl

theorem leave_append
    {first : Trail}
    (h : first.fault = none)
    (second : Trail)
    (desk : Desk) :
    (first ++ second).leave desk = second.leave (first.leave desk) := by
  rw [append_of_no_fault h]
  cases hlast : (second.events.filterMap draftOf?).getLast? <;>
    simp [leave, lastDraft?, notes, List.filterMap_append, List.getLast?_append, hlast]

theorem replay_append (first second : Trail) :
    (first ++ second).replay = (do
      let statements ← first.replay
      let others ← second.replay
      return statements ++ others) := by
  funext desk
  rw [Making.bind_apply, replay, replay]
  cases hfirst : first.fault with
  | some fault =>
      have hresult : first.result = .error fault := by rw [result, hfirst]
      rw [append_of_fault hfirst, hresult]
  | none =>
      have hresult : first.result = .ok first.statements := by rw [result, hfirst]
      rw [hresult, leave_append hfirst]
      show _ = (second.replay >>= _) (first.leave desk)
      rw [Making.bind_apply, replay]
      cases hsecond : second.fault with
      | some fault =>
          have hfault : (first ++ second).fault = some fault := by
            rw [append_of_no_fault hfirst, hsecond]
          rw [result, result, hfault, hsecond]
      | none =>
          have hfault : (first ++ second).fault = none := by
            rw [append_of_no_fault hfirst, hsecond]
          rw [result, result, hfault, hsecond, statements_append hfault]
          rfl

/-- Parts that replay trails, made in turn, replay the trails put together. -/
theorem inTurn_eq_replay
    {α : Type}
    {part : α → Making (List Statement)}
    {trail : α → Trail}
    (h : ∀ element, part element = (trail element).replay)
    (elements : List α) :
    Making.inTurn (elements.map part) = (concat (elements.map trail)).replay := by
  induction elements with
  | nil => exact replay_empty.symm
  | cons element more ih =>
      rw [List.map_cons, List.map_cons, Making.inTurn, h element, ih, concat, replay_append]

end Trail
end Plan
end CqlDelta
