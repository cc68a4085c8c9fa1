import CqlDelta.Proofs.Delta.NodeSites
import CqlDelta.Proofs.Delta.RoundTrip

/-!
# Edited texts

A text that is read as a comparison is still read as one after an edit in any place that its node
leaves open. In the place of a flag or a factor any JSON may be written, and only that field of the
comparison is another one (`lenient_leaf_takes_any_value`). Into the object of a node, or of any
record in it, a member may be written under a key that is not declared, or one that says `null`
under an optional key that is absent, and the comparison is the same
(`members_that_say_nothing_are_ignored`). Nothing but the nesting of the text sets a limit to what
is written.
-/

namespace CqlDelta
namespace Delta

open Json

/-! ## Room in a text -/

/-- The way to a place in a text takes a level for each step. -/
theorem down_root
    {depth : Nat}
    (h : depth ≤ nestingLimit) :
    Route.root.down depth = .ok (.text (nestingLimit - depth)) := by
  rw [← Route.down_text depth (nestingLimit - depth), Nat.add_sub_cancel' h]
  rfl

/-- A text of JSON, and its tree. -/
theorem ofText_of_json
    {text : String}
    {tree : Tree}
    (h : (Document.ofText text).read readAhead = .ok tree) :
    Document.ofText text = ⟨tree, false⟩ ∧ readAny .root tree = .ok () := by
  obtain ⟨hread, htrailing⟩ := read_eq_ok_iff.mp h
  obtain ⟨⟨⟩, hany, hroot⟩ := bind_eq_ok_iff.mp hread
  obtain rfl := Except.ok.inj hroot
  exact ⟨by rw [← htrailing], hany⟩

/-! ## Edited comparisons -/

/-- The text of a member that is put in at a position, with the comma that it needs. -/
def writtenMember (position count : Nat) (name value : String) : String :=
  String.ofList (memberText position count name.toList value.toList)

section Edits

variable {text : String} {node : Node} {path : List Nat}

/-- A text that is read as a comparison has no flaw. -/
theorem ofText_of_comparison
    (h : Program.readText readNode text = .ok node) :
    Document.ofChars text.toList = ⟨(Document.ofText text).root, false⟩ ∧
      passOver (Document.ofText text).root = .ok () ∧
        readNode .root (Document.ofText text).root = .ok node := by
  obtain ⟨hread, htrailing⟩ := read_eq_ok_iff.mp (readText_eq_ok_iff.mp h)
  refine ⟨?_, thorough_node _ _ _ hread, hread⟩
  rw [← htrailing]
  rfl

/-- What is said of a place of a comparison holds in its text. -/
theorem readText_of_edit
    {site : Site Node}
    {edited : String}
    {old new : Tree}
    {inner : Route}
    (hread : readNode .root (Document.ofText text).root = .ok node)
    (hsite : NodeSites (Document.ofText text).root path site)
    (hdown : Route.root.down path.length = .ok inner)
    (hold : (Document.ofText text).root.valueAt? path = some old)
    (hnew : site.Admits inner old new)
    (hedited : Document.ofText edited = ⟨(Document.ofText text).root.replaceAt path new, false⟩) :
    Program.readText readNode edited = .ok (site.put new node) := by
  rw [readText_eq_ok_iff, read_eq_ok_iff, hedited]
  exact ⟨sound_node _ path site hsite .root inner node old new hread hdown hold hnew, rfl⟩

/-- The field of a leaf has what the value in its place stands for. -/
theorem put_old
    {put : Tree → Node → Node}
    {tree old : Tree}
    {inner : Route}
    (hread : readNode .root tree = .ok node)
    (hleaf : NodeSites tree path (.leaf put))
    (hdown : Route.root.down path.length = .ok inner)
    (hold : tree.valueAt? path = some old) :
    node = put old node := by
  have hsame := sound_node _ path _ hleaf .root inner node old old hread hdown hold (.same old)
  rw [Tree.replaceAt_self hold, hread] at hsame
  exact Except.ok.inj hsame

/-- In the place of a flag or a factor of a comparison any JSON may be written for which the text
has room. The comparison is still read, and differs from the one before in this field only: the
place puts into it what the new value stands for, as it put there what the old one stood for. -/
theorem lenient_leaf_takes_any_value
    {put : Tree → Node → Node}
    {old : Tree}
    (hread : Program.readText readNode text = .ok node)
    (hleaf : NodeSites (Document.ofText text).root path (.leaf put))
    (hold : (Document.ofText text).root.valueAt? path = some old) :
    ∃ front piece back,
      text = front ++ piece ++ back ∧ Document.ofText piece = ⟨old, false⟩ ∧
      ∀ value new,
        (Document.ofText value).read readAhead = .ok new →
          path.length + new.nesting ≤ nestingLimit →
            Document.ofText (front ++ value ++ back) =
              ⟨(Document.ofText text).root.replaceAt path new, false⟩ ∧
            node = put old node ∧
            Program.readText readNode (front ++ value ++ back) = .ok (put new node) := by
  obtain ⟨htext, hpass, hnode⟩ := ofText_of_comparison hread
  obtain ⟨before, piece, after, hcs, hpiece, hreplace⟩ := ofChars_replace htext hpass hold
  refine ⟨String.ofList before, String.ofList piece, String.ofList after, ?_, ?_, ?_⟩
  · rw [← String.toList_inj]
    simpa using hcs
  · simpa [Document.ofText] using hpiece
  · intro value new hvalue hroom
    obtain ⟨hnew, hany⟩ := ofText_of_json hvalue
    have hedited : Document.ofText (String.ofList before ++ value ++ String.ofList after) =
        ⟨(Document.ofText text).root.replaceAt path new, false⟩ := by
      simpa [Document.ofText] using hreplace value.toList new hnew (passOver_of_readAny hany)
    have hdown := down_root (show path.length ≤ nestingLimit by omega)
    have hadmits : (Site.leaf put).Admits (.text (nestingLimit - path.length)) old new :=
      .leaf (readAny_text hany (by omega))
    exact ⟨hedited, put_old hnode hleaf hdown hold,
      readText_of_edit hnode hleaf hdown hold hadmits hedited⟩

end Edits

/-- An element that is new, in a list of members in a list of items. -/
def nestedText : String :=
  "\x7b\"items\":[\x7b\"properties\":[\x7b\"role\":\x7b\"compMod\":"
    ++ "\x7b\"created\":true\x7d\x7d\x7d]\x7d]\x7d"

/-- The JSON of the text. -/
def nestedTree : Tree :=
  let under (key : String) (tree : Tree) : Tree := .object [(.ok key, tree)] .closed
  under "items" <| .list [under "properties" <| .list [under "role" <| under "compMod" <|
    under "created" <| .bool true] .closed] .closed

/-- The comparison in the text, where the element is new or not. -/
def nestedNode (created : Bool) : Node :=
  let column : Node := { element := some { change := some { created := created } } }
  { items := some (.many [{ properties := some [("0", column)] }]) }

theorem nested_flag_takes_a_list :
    Program.readText readNode nestedText = .ok (nestedNode true) ∧
      ∃ front piece back,
        nestedText = front ++ piece ++ back ∧ Document.ofText piece = ⟨.bool true, false⟩ ∧
          Program.readText readNode (front ++ " [null]" ++ back) = .ok (nestedNode false) := by
  have hread : Program.readText readNode nestedText = .ok (nestedNode true) := by cbv
  have hroot : (Document.ofText nestedText).root = nestedTree := by cbv
  have hvalue : (Document.ofText " [null]").read readAhead = .ok (.list [.null] .closed) := by cbv
  have hflag : changeSites (.object [(.ok "created", .bool true)] .closed) [0] _ :=
    RecordSites.member List.mem_cons_self rfl (.part (.here (.bool true)))
  have helement : elementSites
      (.object [(.ok "compMod", .object [(.ok "created", .bool true)] .closed)] .closed) [0, 0] _ :=
    RecordSites.member (List.mem_cons_of_mem _ List.mem_cons_self) rfl (.part (.some hflag))
  have hleaf : NodeSites nestedTree [0, 0, 0, 0, 0, 0, 0] _ :=
    .listed rfl rfl (.positioned rfl rfl rfl (.element rfl helement))
  have hold : nestedTree.valueAt? [0, 0, 0, 0, 0, 0, 0] = some (.bool true) := rfl
  rw [← hroot] at hleaf hold
  obtain ⟨front, piece, back, htext, hpiece, hplace⟩ :=
    lenient_leaf_takes_any_value hread hleaf hold
  exact ⟨hread, front, piece, back, htext, hpiece, (hplace _ _ hvalue (by decide)).2.2⟩

section Edits

variable {text : String} {node : Node} {path : List Nat}

/-- Into the object of a node, or of a record in it, a member may be written at any position, if its
key is not declared there, or if the key is optional, absent, and the member says `null`. As long as
the text has room for it, the same comparison is read. -/
theorem members_that_say_nothing_are_ignored
    {declared optional : List String}
    {front back : List (Content × Tree)}
    {stop : ObjectStop}
    (hread : Program.readText readNode text = .ok node)
    (hobject : NodeSites (Document.ofText text).root path (.object declared optional))
    (hold : (Document.ofText text).root.valueAt? path = some (.object (front ++ back) stop)) :
    ∃ before after,
      text = before ++ after ∧
      ∀ name key value new,
        Document.ofText name = ⟨.text (.ok key), false⟩ →
          (Document.ofText value).read readAhead = .ok new →
            path.length + 1 + new.nesting ≤ nestingLimit →
              (key ∉ declared ∨ key ∈ optional ∧ key ∉ memberKeys (front ++ back) ∧ new = .null) →
                let member := writtenMember front.length (front.length + back.length) name value
                Document.ofText (before ++ member ++ after) =
                  ⟨(Document.ofText text).root.replaceAt path
                    (.object (front ++ (.ok key, new) :: back) stop), false⟩ ∧
                Program.readText readNode (before ++ member ++ after) = .ok node := by
  obtain ⟨htext, hpass, hnode⟩ := ofText_of_comparison hread
  obtain ⟨before, after, hcs, hinsert⟩ := ofChars_insert htext hpass hold
  refine ⟨String.ofList before, String.ofList after, ?_, ?_⟩
  · rw [← String.toList_inj]
    simpa using hcs
  · intro name key value new hname hvalue hroom hharmless member
    obtain ⟨hnew, hany⟩ := ofText_of_json hvalue
    have hedited : Document.ofText (String.ofList before ++ member ++ String.ofList after) =
        ⟨(Document.ofText text).root.replaceAt path
          (.object (front ++ (.ok key, new) :: back) stop), false⟩ := by
      simpa [Document.ofText, member, writtenMember] using
        hinsert name.toList value.toList (.ok key) new hname hnew (passOver_of_readAny hany)
    have hdown := down_root (show path.length ≤ nestingLimit by omega)
    have henter : (Route.text (nestingLimit - path.length)).enter =
        .ok (.text (nestingLimit - (path.length + 1))) := by
      rw [show nestingLimit - path.length = nestingLimit - (path.length + 1) + 1 by omega]
      rfl
    have hany' := readAny_text hany (show new.nesting ≤ nestingLimit - (path.length + 1) by omega)
    exact ⟨hedited, readText_of_edit hnode hobject hdown hold (.object henter hany' hharmless) hedited⟩

end Edits

/-- A keyspace with a data center. -/
def centerText : String :=
  "\x7b\"role\":\x7b\"dataCenters\":[\x7b\"dataCenterName\":\"eu\"\x7d]\x7d\x7d"

/-- The comparison in the text. -/
def centerNode : Node :=
  { element := some { dataCenters := some [{ name := "eu" }] } }

theorem data_center_takes_note_and_null :
    Program.readText readNode centerText = .ok centerNode ∧
      ∃ before after,
        centerText = before ++ after ∧
          Program.readText readNode (before ++ "\"note\":[true]," ++ after) = .ok centerNode ∧
          Program.readText readNode (before ++ "\"replFactorValue\":null," ++ after) =
            .ok centerNode := by
  let centers : List (Content × Tree) := [(.ok "dataCenterName", .text (.ok "eu"))]
  let element : Tree := .object [(.ok "dataCenters", .list [.object centers .closed] .closed)] .closed
  have hread : Program.readText readNode centerText = .ok centerNode := by cbv
  have hroot : (Document.ofText centerText).root = .object [(.ok "role", element)] .closed := by cbv
  have helement : elementSites element [0, 0] _ :=
    RecordSites.member
      (List.mem_cons_of_mem _ <| List.mem_cons_of_mem _ <| List.mem_cons_of_mem _ <|
        List.mem_cons_of_mem _ List.mem_cons_self)
      rfl (.part (.some (.item rfl (.here centers .closed))))
  have hobject : NodeSites (.object [(.ok "role", element)] .closed) [0, 0, 0] _ :=
    .element rfl helement
  have hold : (Tree.object [(.ok "role", element)] .closed).valueAt? [0, 0, 0] =
      some (.object ([] ++ centers) .closed) := rfl
  rw [← hroot] at hobject hold
  obtain ⟨before, after, htext, hplace⟩ :=
    members_that_say_nothing_are_ignored hread hobject hold
  have hnote : (Document.ofText "[true]").read readAhead = .ok (.list [.bool true] .closed) := by
    cbv
  have hnull : (Document.ofText "null").read readAhead = .ok .null := by cbv
  refine ⟨hread, before, after, htext, ?_, ?_⟩
  · exact (hplace "\"note\"" "note" "[true]" _ (by cbv) hnote (by decide) (.inl (by decide))).2
  · exact (hplace "\"replFactorValue\"" "replFactorValue" "null" _ (by cbv) hnull (by decide)
      (.inr ⟨by decide, by decide, rfl⟩)).2

end Delta
end CqlDelta
