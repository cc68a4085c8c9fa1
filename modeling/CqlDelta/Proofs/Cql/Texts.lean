import CqlDelta.Cql.Rendering
import CqlDelta.Proofs.Text.Cutting

/-!
# What the texts of types and statements are made of

The text of a type is put together from a few literals, from texts that its declaration gives, and
from the quoted name of a referenced type. Whatever holds of these pieces and is kept when texts are
put together, holds of the text of the type (`cqlType_induction`). The key and the value of a table
option are pieces of the option's clause.
-/

namespace CqlDelta
namespace Cql

open Delta Text

/-- The literals in the texts of types. -/
def typeLiterals : List String :=
  ["text", "int", "boolean", "list<", "set<", "map<", ", ", ">", "frozen<"]

/-- The pieces from which the text of a declaration's type is put together. -/
inductive TypePiece (names : Listing String) (declaration : Declaration) : String → Prop
  | literal {text : String}
      (known : text ∈ typeLiterals) :
      TypePiece names declaration text
  | given {text : String}
      (among : some text ∈
        [declaration.logical, declaration.physical, declaration.element, declaration.mapKey]) :
      TypePiece names declaration text
  | quoted {reference : String}
      (refers : declaration.reference = some reference) :
      TypePiece names declaration (quoteIdentifier (referencedName names reference))

variable {names : Listing String} {declaration : Declaration} {P : String → Prop}

theorem typePiece_scalarType
    {logical : String}
    (h : TypePiece names declaration logical) :
    TypePiece names declaration (scalarType logical) := by
  unfold scalarType
  split
  case h_6 => exact h
  all_goals exact .literal (by decide)

theorem typePiece_elementType
    {logical : Option String}
    (h : logical ∈ [declaration.element, declaration.mapKey]) :
    TypePiece names declaration (elementType logical) := by
  cases logical with
  | none => exact .literal (by decide)
  | some text =>
      refine typePiece_scalarType (.given ?_)
      exact List.mem_cons_of_mem _ (List.mem_cons_of_mem _ h)

theorem logicalType_induction
    (happend : ∀ {front back}, P front → P back → P (front ++ back))
    (hpiece : ∀ {text}, TypePiece names declaration text → P text) :
    P (logicalType declaration) := by
  have hliteral {text : String} (h : text ∈ typeLiterals) : P text := hpiece (.literal h)
  have helement : P (elementType declaration.element) := hpiece (typePiece_elementType (by simp))
  have hkey : P (elementType declaration.mapKey) := hpiece (typePiece_elementType (by simp))
  rw [logicalType]
  split
  · exact hliteral (by decide)
  · exact happend (happend (hliteral (by decide)) helement) (hliteral (by decide))
  · exact happend (happend (hliteral (by decide)) helement) (hliteral (by decide))
  · exact happend (happend (happend (happend (hliteral (by decide)) hkey) (hliteral (by decide)))
      helement) (hliteral (by decide))
  · rename_i logical _ _ _ hlogical
    exact hpiece (typePiece_scalarType (.given (by simp [hlogical])))

/-- What holds of its pieces, and is kept when texts are put together, holds of the text of a
type. -/
theorem cqlType_induction
    (happend : ∀ {front back}, P front → P back → P (front ++ back))
    (hpiece : ∀ {text}, TypePiece names declaration text → P text) :
    P (cqlType names declaration) := by
  rw [cqlType]
  split
  · rename_i reference hreference
    have hopening : P "frozen<" := hpiece (.literal (by decide))
    have hclosing : P ">" := hpiece (.literal (by decide))
    exact happend (happend hopening (hpiece (.quoted hreference))) hclosing
  · cases hphysical : physicalType? declaration with
    | none => exact logicalType_induction happend hpiece
    | some type =>
        obtain ⟨hgiven, -⟩ := Option.filter_eq_some_iff.mp hphysical
        exact hpiece (.given (by simp [hgiven]))

/-! ## Options and statements -/

/-- A clause of an option text holds only characters of the text. -/
theorem subset_of_mem_clauses
    {options clause : String}
    (h : clause ∈ clauses options) :
    clause.toList ⊆ options.toList := by
  obtain ⟨piece, hpiece, rfl⟩ := List.mem_map.mp h
  rw [String.toList_ofList]
  exact subset_of_mem_splitAt (by decide) hpiece

/-- The key and the value of a clause hold only characters of the clause. -/
theorem subset_ofText (clause : String) :
    (OptionClause.ofText clause).key.toList ⊆ clause.toList ∧
      (OptionClause.ofText clause).value.toList ⊆ clause.toList := by
  rw [OptionClause.ofText]
  split
  · rename_i key value hcut
    have hparts := append_of_cutAt hcut
    constructor <;>
      · intro c hc
        rw [String.toList_ofList] at hc
        simp [← hparts, hc]
  · exact ⟨List.Subset.refl _, by simp⟩

/-- A text that ends with a semicolon is not changed by terminating it. -/
theorem terminate_of_semicolon (body : String) : terminate (body ++ ";") = body ++ ";" := by
  have hkept : trimEnd (body ++ ";").toList = body.toList ++ [';'] := by
    rw [String.toList_append]
    exact trimEnd_concat body.toList (by decide)
  rw [terminate, hkept, List.getLast?_concat, if_pos rfl, ← String.toList_inj]
  simp

end Cql
end CqlDelta
