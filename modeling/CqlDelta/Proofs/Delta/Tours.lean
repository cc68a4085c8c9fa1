import CqlDelta.Delta.Node

/-!
# Tours through a view

A tour passes through some branches of a view and stops along others, always in one order. What it
stops at is found by following the branches that lead there (`mem_tour_iff`), and comes in the
lexicographic order of these branches (`tour_sorted`).
-/

namespace CqlDelta
namespace Delta

/-! ## Lexicographic order -/

/-- The first difference decides, and there is one before either list ends. -/
inductive Earlier : List Nat → List Nat → Prop
  | here {first second : Nat} (h : first < second) (more others : List Nat) :
      Earlier (first :: more) (second :: others)
  | there (same : Nat) {more others : List Nat} :
      Earlier more others → Earlier (same :: more) (same :: others)

theorem Earlier.append
    {first second : List Nat}
    (h : Earlier first second)
    (more others : List Nat) :
    Earlier (first ++ more) (second ++ others) := by
  induction h with
  | here h back back' => exact .here h _ _
  | there same _ ih => exact .there same ih

theorem Earlier.prepend
    {first second : List Nat}
    (h : Earlier first second)
    (front : List Nat) :
    Earlier (front ++ first) (front ++ second) := by
  induction front with
  | nil => exact h
  | cons same more ih => exact .there same ih

theorem Earlier.lt
    {first second : List Nat}
    (h : Earlier first second) :
    first < second := by
  induction h with
  | here h more others => exact List.cons_lt_cons_iff.mpr (.inl h)
  | there same _ ih => exact List.cons_lt_cons_iff.mpr (.inr ⟨rfl, ih⟩)

/-! ## Tours -/

variable {α : Type}

/-- Follows branches one after another. -/
def View.follow? : View → List Branch → Option View
  | view, [] => some view
  | view, branch :: more => (view.branch? branch).bind fun inner => inner.follow? more

theorem View.follow?_append
    (view : View)
    (front back : List Branch) :
    view.follow? (front ++ back) = (view.follow? front).bind fun inner => inner.follow? back := by
  induction front generalizing view with
  | nil => rfl
  | cons branch more ih =>
      rw [List.cons_append, View.follow?, View.follow?, Option.bind_assoc]
      exact congrArg (Option.bind _) (funext fun inner => ih inner)

/-- The branches of a tour in order, those that it passes through, and where it stops along the
others. -/
structure Itinerary (α : Type) where
  order : List Branch
  passes : Branch → Bool
  stops : View → Branch → List α
  sorted : order.Pairwise fun first second => order.idxOf first < order.idxOf second

namespace Itinerary

/-- The place of a path in the order of a tour. -/
def ranks (itinerary : Itinerary α) (path : List Branch) : List Nat :=
  path.map itinerary.order.idxOf

/-- The stops along a branch, each with the branches that lead to it. -/
def along
    (itinerary : Itinerary α)
    (view : View)
    (inner : Branch → Option (List (List Branch × α)))
    (branch : Branch) :
    List (List Branch × α) :=
  if itinerary.passes branch then
    ((inner branch).getD []).map fun stop => (branch :: stop.1, stop.2)
  else
    (itinerary.stops view branch).map fun stop => ([branch], stop)

/-- The stops of a view out of those along its branches. -/
def visit
    (itinerary : Itinerary α)
    (view : View)
    (inner : Branch → Option (List (List Branch × α))) :
    List (List Branch × α) :=
  itinerary.order.flatMap (itinerary.along view inner)

/-- The stops of a tour, each with the branches that lead to it. -/
def tour (itinerary : Itinerary α) (view : View) : List (List Branch × α) :=
  View.walk itinerary.visit view

theorem tour_eq
    (itinerary : Itinerary α)
    (view : View) :
    itinerary.tour view =
      itinerary.order.flatMap
        (itinerary.along view fun branch => (view.branch? branch).map itinerary.tour) :=
  View.walk_eq itinerary.visit view

theorem along_of_passes
    {itinerary : Itinerary α}
    {branch : Branch}
    (h : itinerary.passes branch = true)
    (view : View)
    (inner : Branch → Option (List (List Branch × α))) :
    itinerary.along view inner branch =
      ((inner branch).getD []).map fun stop => (branch :: stop.1, stop.2) := by
  rw [along, if_pos h]

theorem along_of_stops
    {itinerary : Itinerary α}
    {branch : Branch}
    (h : itinerary.passes branch = false)
    (view : View)
    (inner : Branch → Option (List (List Branch × α))) :
    itinerary.along view inner branch =
      (itinerary.stops view branch).map fun stop => ([branch], stop) := by
  rw [along, if_neg (by simp [h])]

theorem not_mem_nil_tour
    {itinerary : Itinerary α}
    {view : View}
    {stop : α} :
    ([], stop) ∉ itinerary.tour view := by
  rw [tour_eq, List.mem_flatMap]
  rintro ⟨branch, -, hmem⟩
  rw [along] at hmem
  split at hmem
  · obtain ⟨other, -, heq⟩ := List.mem_map.mp hmem
    simp at heq
  · obtain ⟨other, -, heq⟩ := List.mem_map.mp hmem
    simp at heq

/-- The first branch to a stop is passed through, or the stop is found along it. -/
theorem cons_mem_tour_iff
    {itinerary : Itinerary α}
    {view : View}
    {branch : Branch}
    {path : List Branch}
    {stop : α} :
    (branch :: path, stop) ∈ itinerary.tour view ↔
      branch ∈ itinerary.order ∧
        ((itinerary.passes branch = true ∧
            ∃ inner, view.branch? branch = some inner ∧ (path, stop) ∈ itinerary.tour inner) ∨
          (itinerary.passes branch = false ∧ path = [] ∧ stop ∈ itinerary.stops view branch)) := by
  rw [tour_eq, List.mem_flatMap]
  constructor
  · rintro ⟨other, horder, hmem⟩
    rw [along] at hmem
    split at hmem
    · rename_i hpass
      obtain ⟨⟨path', stop'⟩, hmem, heq⟩ := List.mem_map.mp hmem
      simp only [Prod.mk.injEq, List.cons.injEq] at heq
      obtain ⟨⟨rfl, rfl⟩, rfl⟩ := heq
      refine ⟨horder, .inl ⟨hpass, ?_⟩⟩
      cases hinner : view.branch? other with
      | none => simp [hinner] at hmem
      | some inner => exact ⟨inner, rfl, by simpa [hinner] using hmem⟩
    · rename_i hpass
      obtain ⟨stop', hstop, heq⟩ := List.mem_map.mp hmem
      simp only [Prod.mk.injEq, List.cons.injEq] at heq
      obtain ⟨⟨rfl, rfl⟩, rfl⟩ := heq
      exact ⟨horder, .inr ⟨by simpa using hpass, rfl, hstop⟩⟩
  · rintro ⟨horder, ⟨hpass, inner, hinner, hmem⟩ | ⟨hpass, rfl, hmem⟩⟩
    · refine ⟨branch, horder, ?_⟩
      rw [along_of_passes hpass, hinner]
      exact List.mem_map.mpr ⟨(path, stop), hmem, rfl⟩
    · refine ⟨branch, horder, ?_⟩
      rw [along_of_stops hpass]
      exact List.mem_map.mpr ⟨stop, hmem, rfl⟩

/-- A stop is found along the last of its branches, behind branches that are passed through. -/
theorem mem_tour_iff
    {itinerary : Itinerary α}
    {view : View}
    {path : List Branch}
    {stop : α} :
    (path, stop) ∈ itinerary.tour view ↔
      ∃ front last place, path = front ++ [last] ∧
        (∀ branch ∈ front, branch ∈ itinerary.order ∧ itinerary.passes branch = true) ∧
        last ∈ itinerary.order ∧ itinerary.passes last = false ∧
        view.follow? front = some place ∧ stop ∈ itinerary.stops place last := by
  induction path generalizing view with
  | nil => simp [not_mem_nil_tour]
  | cons branch path ih =>
      rw [cons_mem_tour_iff]
      constructor
      · rintro ⟨horder, ⟨hpass, inner, hinner, hmem⟩ | ⟨hpass, rfl, hmem⟩⟩
        · obtain ⟨front, last, place, rfl, hfront, hlast, hstops, hfollow, hmem⟩ := ih.mp hmem
          refine ⟨branch :: front, last, place, rfl, ?_, hlast, hstops, ?_, hmem⟩
          · exact List.forall_mem_cons.mpr ⟨⟨horder, hpass⟩, hfront⟩
          · rw [View.follow?, hinner, Option.bind_some, hfollow]
        · exact ⟨[], branch, view, rfl, by simp, horder, hpass, rfl, hmem⟩
      · rintro ⟨front, last, place, hpath, hfront, hlast, hstops, hfollow, hmem⟩
        cases front with
        | nil =>
            obtain ⟨rfl, rfl⟩ := List.cons.inj hpath
            obtain rfl := Option.some.inj hfollow
            exact ⟨hlast, .inr ⟨hstops, rfl, hmem⟩⟩
        | cons first front =>
            obtain ⟨rfl, rfl⟩ := List.cons.inj hpath
            rw [List.forall_mem_cons] at hfront
            rw [View.follow?, Option.bind_eq_some_iff] at hfollow
            obtain ⟨inner, hinner, hfollow⟩ := hfollow
            refine ⟨hfront.1.1, .inl ⟨hfront.1.2, inner, hinner, ?_⟩⟩
            exact ih.mpr ⟨front, last, place, rfl, hfront.2, hlast, hstops, hfollow, hmem⟩

theorem head_of_mem_along
    {itinerary : Itinerary α}
    {view : View}
    {inner : Branch → Option (List (List Branch × α))}
    {branch : Branch}
    {stop : List Branch × α}
    (h : stop ∈ itinerary.along view inner branch) :
    ∃ path, stop.1 = branch :: path := by
  rw [along] at h
  split at h
  · obtain ⟨other, -, rfl⟩ := List.mem_map.mp h
    exact ⟨other.1, rfl⟩
  · obtain ⟨other, -, rfl⟩ := List.mem_map.mp h
    exact ⟨[], rfl⟩

/-- The stops come in the order of their paths, and along one path in the order in which they are
found there. -/
theorem tour_sorted
    {itinerary : Itinerary α}
    {R : α → α → Prop}
    (h : ∀ view branch, (itinerary.stops view branch).Pairwise R)
    (view : View) :
    (itinerary.tour view).Pairwise fun first second =>
      (first.1 = second.1 ∧ R first.2 second.2) ∨
        Earlier (itinerary.ranks first.1) (itinerary.ranks second.1) := by
  induction view using View.branch_induction with
  | step view ih =>
      rw [tour_eq, List.pairwise_flatMap]
      constructor
      · intro branch _
        rw [along]
        split
        · rw [List.pairwise_map]
          cases hinner : view.branch? branch with
          | none => simp
          | some inner =>
              refine (ih branch inner hinner).imp fun hstops => ?_
              exact hstops.imp (And.imp_left (congrArg (branch :: ·))) (.there _)
        · rw [List.pairwise_map]
          exact (h view branch).imp fun hstops => .inl ⟨rfl, hstops⟩
      · refine itinerary.sorted.imp fun hranks first hfirst second hsecond => .inr ?_
        obtain ⟨path, hpath⟩ := head_of_mem_along hfirst
        obtain ⟨path', hpath'⟩ := head_of_mem_along hsecond
        rw [hpath, hpath', ranks, ranks, List.map_cons, List.map_cons]
        exact .here hranks _ _

/-- Marked stops come in the order of their paths and then of their marks. -/
theorem tour_sorted_by_marks
    (itinerary : Itinerary α)
    (marks : α → List Nat)
    (h : ∀ view branch, (itinerary.stops view branch).Pairwise fun first second =>
      Earlier (marks first) (marks second))
    (view : View) :
    (itinerary.tour view).Pairwise fun first second =>
      Earlier (itinerary.ranks first.1 ++ marks first.2)
        (itinerary.ranks second.1 ++ marks second.2) := by
  refine (tour_sorted h view).imp fun hstops => ?_
  rcases hstops with ⟨hpath, hmarks⟩ | hearlier
  · rw [hpath]
    exact hmarks.prepend _
  · exact hearlier.append _ _

end Itinerary
end Delta
end CqlDelta
