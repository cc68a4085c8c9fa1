import CqlDelta.Proofs.Json.Layouts
import CqlDelta.Proofs.Json.Sorting
import CqlDelta.Proofs.Json.Tokens

/-!
# Spellings of trees

Characters spell a tree if they are read as it, up to their end, before any rest that they cannot
run into. A list is spelled by its bracket and the spellings of its elements, an object by its brace
and its keys and the spellings of their values, with blanks anywhere between. That is all there is:
where the tree that was read has no flaw, the characters that were read are such a spelling
(`spelledWith`). A text is that of a flawless tree just if it is a spelling of it, up to
blanks behind it (`ofChars_eq_iff`).
-/

namespace CqlDelta
namespace Json

/-! ## Blanks -/

/-- Characters that are skipped. -/
def Blank (cs : List Char) : Prop :=
  ∀ c ∈ cs, isToken c = false

theorem blank_nil : Blank [] := by
  simp [Blank]

theorem Blank.append
    {cs more : List Char}
    (h : Blank cs)
    (hmore : Blank more) :
    Blank (cs ++ more) :=
  List.forall_mem_append.mpr ⟨h, hmore⟩

/-- Blanks end a number. -/
theorem Blank.endsNumber
    {cs : List Char}
    (h : Blank cs) :
    endsNumber cs := by
  intro c more hcs
  have hsign := Layout.endsNumber_of_sign cs (c := ',') h (by simp) []
  rw [hcs] at hsign
  exact hsign c _ rfl

/-- The blanks in front of a text. -/
theorem exists_blanks (cs : List Char) :
    ∃ blanks, Blank blanks ∧ cs = blanks ++ skipBlanks cs := by
  refine ⟨_, fun c hc => ?_, List.takeWhile_append_dropWhile.symm⟩
  have hblank := List.mem_takeWhile_imp hc
  simp only [isToken]
  grind

theorem skipBlanks_eq_nil_iff
    {cs : List Char} :
    skipBlanks cs = [] ↔ Blank cs := by
  constructor
  · intro h
    obtain ⟨blanks, hblanks, hcs⟩ := exists_blanks cs
    rw [hcs, h, List.append_nil]
    exact hblanks
  · intro h
    have hnil := skipBlanks_append h []
    rwa [List.append_nil] at hnil

theorem isToken_of_skipBlanks
    {cs rest : List Char}
    {c : Char}
    (h : skipBlanks cs = c :: rest) :
    isToken c = true := by
  have hhead := List.head?_dropWhile_not (fun c => c = ' ' || c = '\n' || c = '\r' || c = '\t') cs
  rw [skipBlanks] at h
  rw [h] at hhead
  simp only [isToken]
  grind

/-! ## Values -/

/-- Characters that are read as a tree, up to their end. -/
def Spells (cs : List Char) (tree : Tree) : Prop :=
  ∀ fuel rest, 3 * cs.length ≤ fuel + 1 → endsNumber rest →
    readValue (fuel + 1) (cs ++ rest) = ⟨tree, some rest⟩

/-- A spelling, and blanks behind it. -/
def Padded (cs : List Char) (tree : Tree) : Prop :=
  ∃ used blanks, cs = used ++ blanks ∧ Spells used tree ∧ Blank blanks

theorem Spells.blanks
    {blanks cs : List Char}
    {tree : Tree}
    (hblanks : Blank blanks)
    (h : Spells cs tree) :
    Spells (blanks ++ cs) tree := by
  intro fuel rest hfuel hrest
  rw [List.length_append] at hfuel
  rw [List.append_assoc, readValue_blanks hblanks]
  exact h fuel rest (by omega) hrest

theorem Spells.padded
    {cs : List Char}
    {tree : Tree}
    (h : Spells cs tree) :
    Padded cs tree :=
  ⟨cs, [], (List.append_nil cs).symm, h, blank_nil⟩

theorem Padded.blanks
    {blanks cs : List Char}
    {tree : Tree}
    (hblanks : Blank blanks)
    (h : Padded cs tree) :
    Padded (blanks ++ cs) tree := by
  obtain ⟨used, behind, rfl, hused, hbehind⟩ := h
  exact ⟨blanks ++ used, behind, by rw [List.append_assoc], hused.blanks hblanks, hbehind⟩

/-- A spelling starts with a character that is neither a blank nor a closing bracket. -/
theorem Spells.head
    {cs : List Char}
    {tree : Tree}
    (h : Spells cs tree) :
    ∃ blanks c more, cs = blanks ++ c :: more ∧ Blank blanks ∧ isToken c = true ∧ c ≠ ']' := by
  obtain ⟨blanks, hblanks, hcs⟩ := exists_blanks cs
  have hread := h (3 * cs.length) [] (by omega) (by simp [endsNumber])
  rw [List.append_nil] at hread
  cases hskip : skipBlanks cs with
  | nil => simp [readValue, hskip, Found.broken] at hread
  | cons c more =>
      refine ⟨blanks, c, more, by rw [← hskip]; exact hcs, hblanks, isToken_of_skipBlanks hskip, ?_⟩
      rintro rfl
      simp [readValue, hskip, Found.broken] at hread

/-! ## Lists and objects -/

/-- The elements of a list, at least one, and its bracket. -/
inductive ItemsText : List Char → List Tree → Prop
  | last {piece : List Char} {item : Tree}
      (first : Padded piece item) :
      ItemsText (piece ++ [']']) [item]
  | more {piece rest : List Char} {item : Tree} {items : List Tree}
      (first : Padded piece item)
      (others : ItemsText rest items) :
      ItemsText (piece ++ ',' :: rest) (item :: items)

/-- A key, with blanks around it. -/
def KeyText (cs : List Char) (key : Content) : Prop :=
  ∃ front quoted behind, cs = front ++ '\x22' :: (quoted ++ behind) ∧ Blank front ∧ Blank behind ∧
    ∀ rest, readQuoted (quoted ++ rest) = .ok (key, rest)

/-- The members of an object, at least one, and its brace. -/
inductive MembersText : List Char → List (Content × Tree) → Prop
  | last {name piece : List Char} {key : Content} {value : Tree}
      (named : KeyText name key)
      (first : Padded piece value) :
      MembersText (name ++ ':' :: (piece ++ ['\x7d'])) [(key, value)]
  | more {name piece rest : List Char} {key : Content} {value : Tree}
      {members : List (Content × Tree)}
      (named : KeyText name key)
      (first : Padded piece value)
      (others : MembersText rest members) :
      MembersText (name ++ ':' :: (piece ++ ',' :: rest)) ((key, value) :: members)

/-- What stands behind the opening bracket of a list. -/
inductive ListText : List Char → List Tree → Prop
  | empty {blanks : List Char} (h : Blank blanks) : ListText (blanks ++ [']']) []
  | items {cs : List Char} {items : List Tree} (h : ItemsText cs items) : ListText cs items

/-- What stands behind the opening brace of an object. -/
inductive ObjectText : List Char → List (Content × Tree) → Prop
  | empty {blanks : List Char} (h : Blank blanks) : ObjectText (blanks ++ ['\x7d']) []
  | members {cs : List Char} {members : List (Content × Tree)} (h : MembersText cs members) :
      ObjectText cs members

theorem KeyText.blanks
    {blanks cs : List Char}
    {key : Content}
    (hblanks : Blank blanks)
    (h : KeyText cs key) :
    KeyText (blanks ++ cs) key := by
  obtain ⟨front, quoted, behind, rfl, hfront, hbehind, hread⟩ := h
  exact ⟨blanks ++ front, quoted, behind, by rw [List.append_assoc], hblanks.append hfront,
    hbehind, hread⟩

theorem ItemsText.blanks
    {blanks cs : List Char}
    {items : List Tree}
    (hblanks : Blank blanks)
    (h : ItemsText cs items) :
    ItemsText (blanks ++ cs) items := by
  cases h with
  | last first =>
      rw [← List.append_assoc]
      exact .last (first.blanks hblanks)
  | more first others =>
      rw [← List.append_assoc]
      exact .more (first.blanks hblanks) others

theorem MembersText.blanks
    {blanks cs : List Char}
    {members : List (Content × Tree)}
    (hblanks : Blank blanks)
    (h : MembersText cs members) :
    MembersText (blanks ++ cs) members := by
  cases h with
  | last named first =>
      rw [← List.append_assoc]
      exact .last (named.blanks hblanks) first
  | more named first others =>
      rw [← List.append_assoc]
      exact .more (named.blanks hblanks) first others

/-! ## Spellings are read -/

/-- A padded spelling is read before a comma or a closing bracket. -/
theorem Padded.reads
    {cs : List Char}
    {tree : Tree}
    (h : Padded cs tree)
    (fuel : Nat)
    (hfuel : 3 * cs.length ≤ fuel + 1)
    (c : Char)
    (hc : c = ',' ∨ c = ']' ∨ c = '\x7d')
    (rest : List Char) :
    ∃ behind, readValue (fuel + 1) (cs ++ c :: rest) = ⟨tree, some behind⟩ ∧
      skipBlanks behind = c :: rest := by
  obtain ⟨used, blanks, rfl, hused, hblanks⟩ := h
  rw [List.length_append] at hfuel
  have hends := Layout.endsNumber_of_sign blanks hblanks hc rest
  have htoken : isToken c = true := by rcases hc with rfl | rfl | rfl <;> decide
  refine ⟨blanks ++ c :: rest, ?_, Layout.skipBlanks_sign hblanks htoken rest⟩
  rw [List.append_assoc]
  exact hused fuel _ (by omega) hends

/-- A padded spelling starts as the spelling does. -/
theorem Padded.skipBlanks_eq
    {cs : List Char}
    {tree : Tree}
    (h : Padded cs tree)
    (rest : List Char) :
    ∃ blanks c more, Blank blanks ∧ cs ++ rest = blanks ++ c :: more ∧
      skipBlanks (cs ++ rest) = c :: more ∧ c ≠ ']' := by
  obtain ⟨used, behind, rfl, hused, -⟩ := h
  obtain ⟨blanks, c, more, rfl, hblanks, hc, hne⟩ := hused.head
  refine ⟨blanks, c, more ++ behind ++ rest, hblanks, by simp, ?_, hne⟩
  rw [List.append_assoc, List.append_assoc, List.cons_append, List.append_assoc]
  exact Layout.skipBlanks_sign hblanks hc _

/-- Blanks in front of an element do not matter. -/
theorem readElement_blanks
    {blanks : List Char}
    (h : Blank blanks)
    (fuel : Nat)
    (rest : List Char) :
    readElement fuel (blanks ++ rest) = readElement fuel rest := by
  cases fuel with
  | zero => rfl
  | succ fuel => rw [readElement, readElement, readValue_blanks h]

theorem ItemsText.head
    {cs : List Char}
    {items : List Tree}
    (h : ItemsText cs items)
    (rest : List Char) :
    ∃ blanks c more, Blank blanks ∧ cs ++ rest = blanks ++ c :: more ∧
      skipBlanks (cs ++ rest) = c :: more ∧ c ≠ ']' := by
  cases h with
  | last first =>
      rw [List.append_assoc]
      exact first.skipBlanks_eq _
  | more first others =>
      rw [List.append_assoc]
      exact first.skipBlanks_eq _

theorem ItemsText.reads
    {cs : List Char}
    {items : List Tree}
    (h : ItemsText cs items)
    (fuel : Nat)
    (hfuel : 3 * cs.length ≤ fuel + 1)
    (rest : List Char) :
    readElement (fuel + 1) (cs ++ rest) = ⟨(items, .closed), some rest⟩ := by
  induction h generalizing fuel with
  | last first =>
      simp only [List.length_append, List.length_singleton] at hfuel
      obtain ⟨fuel, rfl⟩ : ∃ less, fuel = less + 1 := ⟨fuel - 1, by omega⟩
      obtain ⟨behind, hread, hbehind⟩ := first.reads fuel (by omega) ']' (by simp) rest
      rw [List.append_assoc]
      exact readElement_last hread hbehind
  | @more piece others item items first hothers ih =>
      simp only [List.length_append, List.length_cons] at hfuel
      obtain ⟨fuel, rfl⟩ : ∃ less, fuel = less + 1 := ⟨fuel - 1, by omega⟩
      obtain ⟨behind, hread, hbehind⟩ := first.reads fuel (by omega) ',' (by simp) (others ++ rest)
      obtain ⟨blanks, c, more, hblanks, hcs, hskip, hc⟩ := hothers.head rest
      have hmore := ih fuel (by omega)
      rw [hcs, readElement_blanks hblanks] at hmore
      rw [List.append_assoc, List.cons_append,
        readElement_more hread hbehind hskip hc, hmore]
      rfl

/-- The opening quote of the first key, and what is read behind it. -/
theorem MembersText.reads
    {cs : List Char}
    {members : List (Content × Tree)}
    (h : MembersText cs members) :
    ∃ front tail, cs = front ++ '\x22' :: tail ∧ Blank front ∧
      ∀ fuel rest, 3 * tail.length ≤ fuel + 1 →
        readMember (fuel + 1) (tail ++ rest) = ⟨(members, .closed), some rest⟩ := by
  induction h with
  | @last name piece key value named first =>
      obtain ⟨front, quoted, behind, rfl, hfront, hbehind, hquoted⟩ := named
      refine ⟨front, quoted ++ (behind ++ ':' :: (piece ++ ['\x7d'])), by simp, hfront, ?_⟩
      intro fuel rest hfuel
      simp only [List.length_append, List.length_cons, List.length_nil] at hfuel
      obtain ⟨fuel, rfl⟩ : ∃ less, fuel = less + 1 := ⟨fuel - 1, by omega⟩
      obtain ⟨after, hread, hafter⟩ := first.reads fuel (by omega) '\x7d' (by simp) rest
      simp only [List.append_assoc, List.cons_append, List.nil_append]
      exact readMember_last (hquoted _) (Layout.skipBlanks_sign hbehind (by decide) _) hread hafter
  | @more name piece others key value members named first hothers ih =>
      obtain ⟨front, quoted, behind, rfl, hfront, hbehind, hquoted⟩ := named
      obtain ⟨front', tail, rfl, hfront', hmore⟩ := ih
      refine ⟨front, quoted ++ (behind ++ ':' :: (piece ++ ',' :: (front' ++ '\x22' :: tail))),
        by simp, hfront, ?_⟩
      intro fuel rest hfuel
      simp only [List.length_append, List.length_cons] at hfuel
      obtain ⟨fuel, rfl⟩ : ∃ less, fuel = less + 1 := ⟨fuel - 1, by omega⟩
      obtain ⟨after, hread, hafter⟩ :=
        first.reads fuel (by omega) ',' (by simp) (front' ++ '\x22' :: (tail ++ rest))
      simp only [List.append_assoc, List.cons_append]
      rw [readMember_more (hquoted _) (Layout.skipBlanks_sign hbehind (by decide) _) hread hafter
        (Layout.skipBlanks_sign hfront' (by decide) _), hmore fuel rest (by omega)]
      rfl

theorem ListText.spells
    {cs : List Char}
    {items : List Tree}
    (h : ListText cs items) :
    Spells ('[' :: cs) (.list items .closed) := by
  intro fuel rest hfuel _
  simp only [List.length_cons] at hfuel
  obtain ⟨fuel, rfl⟩ : ∃ less, fuel = less + 2 := ⟨fuel - 2, by omega⟩
  have hread : readElements (fuel + 2) (cs ++ rest) = ⟨(items, .closed), some rest⟩ := by
    cases h with
    | empty hblanks =>
        have hskip := Layout.skipBlanks_sign (c := ']') hblanks (by decide) rest
        rw [List.append_assoc, List.singleton_append, readElements.eq_def]
        simp [hskip]
    | items hitems =>
        obtain ⟨blanks, c, more, hblanks, hcs, hskip, hc⟩ := hitems.head rest
        have hmore := hitems.reads fuel (by omega) rest
        rw [hcs, readElement_blanks hblanks] at hmore
        rw [readElements_token hskip hc, hmore]
  simp [readValue, skipBlanks, hread]

theorem ObjectText.spells
    {cs : List Char}
    {members : List (Content × Tree)}
    (h : ObjectText cs members) :
    Spells ('\x7b' :: cs) (.object members .closed) := by
  intro fuel rest hfuel _
  simp only [List.length_cons] at hfuel
  obtain ⟨fuel, rfl⟩ : ∃ less, fuel = less + 2 := ⟨fuel - 2, by omega⟩
  have hread : readMembers (fuel + 2) (cs ++ rest) = ⟨(members, .closed), some rest⟩ := by
    cases h with
    | empty hblanks =>
        have hskip := Layout.skipBlanks_sign (c := '\x7d') hblanks (by decide) rest
        rw [List.append_assoc, List.singleton_append, readMembers.eq_def]
        simp [hskip]
    | members hmembers =>
        obtain ⟨front, tail, rfl, hfront, hread⟩ := hmembers.reads
        simp only [List.length_append, List.length_cons] at hfuel
        rw [List.append_assoc, List.cons_append,
          readMembers_quote (Layout.skipBlanks_sign hfront (by decide) _),
          hread fuel rest (by omega)]
  simp [readValue, skipBlanks, hread]

/-! ## Trees without a flaw -/

theorem passOverItems_eq_ok_iff
    {items : List Tree} :
    passOverItems items = .ok () ↔ ∀ item ∈ items, passOver item = .ok () := by
  induction items with
  | nil => simp [passOverItems]
  | cons item more ih => simp [passOverItems, bind_eq_ok_iff, exists_unit, ih]

theorem passOverMembers_eq_ok_iff
    {members : List (Content × Tree)} :
    passOverMembers members = .ok () ↔ ∀ member ∈ members, passOver member.2 = .ok () := by
  induction members with
  | nil => simp [passOverMembers]
  | cons member more ih => simp [passOverMembers, bind_eq_ok_iff, exists_unit, ih]

theorem passOver_list_iff
    {items : List Tree}
    {stop : ListStop} :
    passOver (.list items stop) = .ok () ↔
      (∀ item ∈ items, passOver item = .ok ()) ∧ stop = .closed := by
  have hstop : stop.passFault? = none ↔ stop = .closed := by
    cases stop <;> simp [ListStop.passFault?]
  rw [passOver, bind_eq_ok_iff, exists_unit, passOverItems_eq_ok_iff, ending_eq_ok_iff, hstop]

theorem passOver_object_iff
    {members : List (Content × Tree)}
    {stop : ObjectStop} :
    passOver (.object members stop) = .ok () ↔
      (∀ member ∈ members, passOver member.2 = .ok ()) ∧ stop = .closed := by
  have hstop : stop.passFault? = none ↔ stop = .closed := by
    cases stop <;> simp [ObjectStop.passFault?]
  rw [passOver, bind_eq_ok_iff, exists_unit, passOverMembers_eq_ok_iff, ending_eq_ok_iff, hstop]

theorem passOver_broken (flaw : Flaw) : passOver (.broken flaw) ≠ .ok () := by
  simp [passOver]

/-! ## What is read is spelled -/

/-- What was found is spelled at the front of a text, and the rest of the text follows. -/
def Found.SpelledIn
    {α : Type}
    (P : List Char → α → Prop)
    (found : Found α)
    (cs : List Char) :
    Prop :=
  ∃ used rest, cs = used ++ rest ∧ P used found.value ∧ found.rest = some rest

theorem Found.SpelledIn.blanks
    {α : Type}
    {P : List Char → α → Prop}
    {found : Found α}
    {cs blanks : List Char}
    (hP : ∀ used, P used found.value → P (blanks ++ used) found.value)
    (h : found.SpelledIn P cs) :
    found.SpelledIn P (blanks ++ cs) := by
  obtain ⟨used, rest, rfl, hused, hrest⟩ := h
  exact ⟨blanks ++ used, rest, by rw [List.append_assoc], hP used hused, hrest⟩

/-- Elements without a flaw are spelled at the front of a text. -/
def Found.SpelledAsList
    (P : List Char → List Tree → Prop)
    (found : Found Elements)
    (cs : List Char) :
    Prop :=
  passOver (.list found.value.1 found.value.2) = .ok () →
    found.SpelledIn (fun used elements => P used elements.1 ∧ elements.2 = .closed) cs

/-- Members without a flaw are spelled at the front of a text. -/
def Found.SpelledAsObject
    (P : List Char → List (Content × Tree) → Prop)
    (found : Found Entries)
    (cs : List Char) :
    Prop :=
  passOver (.object found.value.1 found.value.2) = .ok () →
    found.SpelledIn (fun used entries => P used entries.1 ∧ entries.2 = .closed) cs

theorem spelled_literal
    {value : Tree}
    {first : Char}
    {word cs : List Char}
    (hfirst : ∀ fuel rest, readValue (fuel + 1) (first :: rest) = readLiteral value word rest)
    (h : passOver (readLiteral value word cs).value = .ok ()) :
    (readLiteral value word cs).SpelledIn Spells (first :: cs) := by
  have hbroken : ∀ flaw, readLiteral value word cs ≠ .broken flaw := by
    intro flaw hflaw
    simp [hflaw, Found.broken, passOver_broken] at h
  obtain ⟨rest, rfl, hread⟩ := readLiteral_eq_some hbroken
  rw [hread]
  refine ⟨first :: word, rest, rfl, fun fuel rest' _ _ => ?_, rfl⟩
  rw [List.cons_append, hfirst, readLiteral_append]

theorem spelled_text
    {cs : List Char}
    (h : passOver (readText cs).value = .ok ()) :
    (readText cs).SpelledIn Spells ('\x22' :: cs) := by
  rw [readText] at h ⊢
  cases hread : readQuoted cs with
  | error flaw => simp [hread, Found.broken, passOver] at h
  | ok found =>
      obtain ⟨content, rest⟩ := found
      obtain ⟨used, rfl, hused⟩ := readQuoted_front hread
      refine ⟨'\x22' :: used, rest, rfl, fun fuel rest' _ _ => ?_, rfl⟩
      simp [readValue, skipBlanks, readText, hused]

/-- A number, and the sign in front of it if there is one. -/
theorem spelled_number
    {negative : Bool}
    {cs : List Char}
    (sign : List Char)
    (hsign : ∀ fuel used rest, used ≠ [] → (∃ more, cs = used ++ more) →
      readValue (fuel + 1) (sign ++ (used ++ rest)) = readNumber negative (used ++ rest))
    (h : passOver (readNumber negative cs).value = .ok ()) :
    (readNumber negative cs).SpelledIn Spells (sign ++ cs) := by
  rw [readNumber] at h ⊢
  cases hread : readNumeral negative cs with
  | error flaw => simp [hread, Found.broken, passOver] at h
  | ok found =>
      obtain ⟨numeral, rest⟩ := found
      obtain ⟨used, rfl, hne, hused⟩ := readNumeral_front hread
      refine ⟨sign ++ used, rest, by rw [List.append_assoc], fun fuel rest' _ hrest' => ?_, rfl⟩
      rw [List.append_assoc, hsign fuel used rest' hne ⟨rest, rfl⟩, readNumber, hused rest' hrest']

/-- What is read with a number of steps is spelled by what was read, if there is no flaw in it. -/
structure SpelledWith (fuel : Nat) : Prop where
  value : ∀ cs, passOver (readValue fuel cs).value = .ok () →
    (readValue fuel cs).SpelledIn Spells cs
  elements : ∀ cs, (readElements fuel cs).SpelledAsList ListText cs
  element : ∀ cs, (readElement fuel cs).SpelledAsList ItemsText cs
  members : ∀ cs, (readMembers fuel cs).SpelledAsObject ObjectText cs
  member : ∀ cs,
    (readMember fuel cs).SpelledAsObject (fun used => MembersText ('\x22' :: used)) cs

/-- A value without a flaw is spelled with the blanks behind it. -/
theorem SpelledWith.padded
    {fuel : Nat}
    (ih : SpelledWith fuel)
    {cs : List Char}
    (h : passOver (readValue fuel cs).value = .ok ()) :
    ∃ piece rest, cs = piece ++ skipBlanks rest ∧ Padded piece (readValue fuel cs).value ∧
      (readValue fuel cs).rest = some rest := by
  obtain ⟨used, rest, hcs, hused, hrest⟩ := ih.value cs h
  obtain ⟨blanks, hblanks, hbehind⟩ := exists_blanks rest
  refine ⟨used ++ blanks, rest, ?_, ⟨used, blanks, rfl, hused, hblanks⟩, hrest⟩
  rw [List.append_assoc, ← hbehind]
  exact hcs

theorem spelled_value
    {fuel : Nat}
    (ih : SpelledWith fuel)
    (cs : List Char)
    (h : passOver (readValue (fuel + 1) cs).value = .ok ()) :
    (readValue (fuel + 1) cs).SpelledIn Spells cs := by
  obtain ⟨blanks, hblanks, hcs⟩ := exists_blanks cs
  cases hskip : skipBlanks cs with
  | nil => simp [readValue, hskip, Found.broken, passOver] at h
  | cons c rest =>
      have htoken := skipBlanks_cons (isToken_of_skipBlanks hskip) rest
      rw [hskip] at hcs
      subst hcs
      rw [readValue_blanks hblanks] at h ⊢
      refine .blanks (fun used hused => hused.blanks hblanks) ?_
      rw [readValue.eq_def] at h ⊢
      simp only [htoken] at h ⊢
      split at h
      · exact spelled_literal (fun _ _ => by simp [readValue, skipBlanks]) h
      · exact spelled_literal (fun _ _ => by simp [readValue, skipBlanks]) h
      · exact spelled_literal (fun _ _ => by simp [readValue, skipBlanks]) h
      · exact spelled_text h
      · refine spelled_number ['-'] ?_ h
        exact fun _ _ _ _ _ => by simp [readValue, skipBlanks]
      · obtain ⟨used, behind, rfl, ⟨hused, hstop⟩, hbehind⟩ := ih.elements rest h
        refine ⟨'[' :: used, behind, rfl, ?_, hbehind⟩
        dsimp only
        rw [hstop]
        exact hused.spells
      · obtain ⟨used, behind, rfl, ⟨hused, hstop⟩, hbehind⟩ := ih.members rest h
        refine ⟨'\x7b' :: used, behind, rfl, ?_, hbehind⟩
        dsimp only
        rw [hstop]
        exact hused.spells
      · split at h
        next hdigit =>
          rw [if_pos hdigit]
          refine spelled_number [] ?_ h
          rintro fuel used rest' hne ⟨more, hmore⟩
          obtain ⟨d, used, rfl⟩ := List.exists_cons_of_ne_nil hne
          obtain ⟨rfl, -⟩ := List.cons.inj hmore
          exact readValue_digit hdigit fuel _
        next => simp [Found.broken, passOver] at h

theorem spelled_elements
    {fuel : Nat}
    (ih : SpelledWith fuel)
    (cs : List Char) :
    (readElements (fuel + 1) cs).SpelledAsList ListText cs := by
  intro h
  obtain ⟨blanks, hblanks, hcs⟩ := exists_blanks cs
  rw [readElements.eq_def] at h ⊢
  dsimp only at h ⊢
  split at h
  next => simp [passOver_list_iff] at h
  next rest hskip =>
    rw [hskip] at hcs
    exact ⟨blanks ++ [']'], rest, by simp [hcs], ⟨.empty hblanks, rfl⟩, rfl⟩
  next hnil hclose =>
    obtain ⟨used, rest, hrest, ⟨hused, hstop⟩, hbehind⟩ := ih.element (skipBlanks cs) h
    refine ⟨blanks ++ used, rest, ?_, ⟨.items (hused.blanks hblanks), hstop⟩, hbehind⟩
    rw [List.append_assoc, ← hrest]
    exact hcs

theorem spelled_element
    {fuel : Nat}
    (ih : SpelledWith fuel)
    (cs : List Char) :
    (readElement (fuel + 1) cs).SpelledAsList ItemsText cs := by
  intro h
  rw [readElement.eq_def] at h ⊢
  dsimp only at h ⊢
  have hitem : passOver (readValue fuel cs).value = .ok () := by
    cases hrest : (readValue fuel cs).rest with
    | none => simpa [hrest, passOver_list_iff] using h
    | some rest =>
        simp only [hrest, consElement, passOver_list_iff, List.forall_mem_cons] at h
        exact h.1.1
  obtain ⟨piece, rest, hcs, hfirst, hrest⟩ := ih.padded hitem
  simp only [hrest, consElement] at h ⊢
  split at h
  next => simp [passOver_list_iff] at h
  next tail hskip =>
    rw [hskip] at hcs
    exact ⟨piece ++ [']'], tail, by simp [hcs], ⟨.last hfirst, rfl⟩, rfl⟩
  next tail hskip =>
    rw [hskip] at hcs
    obtain ⟨blanks, hblanks, htail⟩ := exists_blanks tail
    split at h
    next => simp [passOver_list_iff] at h
    next => simp [passOver_list_iff] at h
    next hnil hclose =>
      have hmore : passOver (.list (readElement fuel (skipBlanks tail)).value.1
          (readElement fuel (skipBlanks tail)).value.2) = .ok () := by
        simp only [passOver_list_iff, List.forall_mem_cons] at h ⊢
        exact ⟨h.1.2, h.2⟩
      obtain ⟨used, rest', hmorecs, ⟨hused, hstop⟩, hrest'⟩ := ih.element _ hmore
      refine ⟨piece ++ ',' :: (blanks ++ used), rest', ?_,
        ⟨.more hfirst (hused.blanks hblanks), hstop⟩, hrest'⟩
      rw [hmorecs] at htail
      simp [hcs, htail]
  next => simp [passOver_list_iff] at h

theorem spelled_members
    {fuel : Nat}
    (ih : SpelledWith fuel)
    (cs : List Char) :
    (readMembers (fuel + 1) cs).SpelledAsObject ObjectText cs := by
  intro h
  obtain ⟨blanks, hblanks, hcs⟩ := exists_blanks cs
  rw [readMembers.eq_def] at h ⊢
  dsimp only at h ⊢
  split at h
  next => simp [passOver_object_iff] at h
  next rest hskip =>
    rw [hskip] at hcs
    exact ⟨blanks ++ ['\x7d'], rest, by simp [hcs], ⟨.empty hblanks, rfl⟩, rfl⟩
  next tail hskip =>
    rw [hskip] at hcs
    obtain ⟨used, rest, rfl, ⟨hused, hstop⟩, hbehind⟩ := ih.member tail h
    exact ⟨blanks ++ '\x22' :: used, rest, by simp [hcs],
      ⟨.members (hused.blanks hblanks), hstop⟩, hbehind⟩
  next => simp [passOver_object_iff] at h

theorem spelled_member
    {fuel : Nat}
    (ih : SpelledWith fuel)
    (cs : List Char) :
    (readMember (fuel + 1) cs).SpelledAsObject (fun used => MembersText ('\x22' :: used)) cs := by
  intro h
  rw [readMember.eq_def] at h ⊢
  dsimp only at h ⊢
  cases hquoted : readQuoted cs with
  | error flaw => simp [hquoted, passOver_object_iff] at h
  | ok found =>
      obtain ⟨key, behind⟩ := found
      obtain ⟨quoted, rfl, hkey⟩ := readQuoted_front hquoted
      obtain ⟨front, hfront, hcolon⟩ := exists_blanks behind
      simp only [hquoted] at h ⊢
      split at h
      next => simp [passOver_object_iff, passOver_broken] at h
      next source hskip =>
        rw [hskip] at hcolon
        subst hcolon
        have hname : KeyText ('\x22' :: (quoted ++ front)) key :=
          ⟨[], quoted, front, rfl, blank_nil, hfront, hkey⟩
        have hvalue : passOver (readValue fuel source).value = .ok () := by
          cases hrest : (readValue fuel source).rest with
          | none => simpa [hrest, passOver_object_iff] using h
          | some rest =>
              simp only [hrest, consMember, passOver_object_iff, List.forall_mem_cons] at h
              exact h.1.1
        obtain ⟨piece, rest, hsource, hfirst, hrest⟩ := ih.padded hvalue
        simp only [hrest, consMember] at h ⊢
        split at h
        next => simp [passOver_object_iff] at h
        next tail hskip' =>
          rw [hskip'] at hsource
          refine ⟨quoted ++ (front ++ ':' :: (piece ++ ['\x7d'])), tail, by simp [hsource],
            ⟨?_, rfl⟩, rfl⟩
          simpa using MembersText.last hname hfirst
        next tail hskip' =>
          rw [hskip'] at hsource
          obtain ⟨blanks, hblanks, htail⟩ := exists_blanks tail
          split at h
          next => simp [passOver_object_iff] at h
          next => simp [passOver_object_iff] at h
          next next hnext =>
            have hmore : passOver (.object (readMember fuel next).value.1
                (readMember fuel next).value.2) = .ok () := by
              simp only [passOver_object_iff, List.forall_mem_cons] at h ⊢
              exact ⟨h.1.2, h.2⟩
            obtain ⟨used, rest', rfl, ⟨hused, hstop⟩, hrest'⟩ := ih.member _ hmore
            rw [hnext] at htail
            refine ⟨quoted ++ (front ++ ':' :: (piece ++ ',' :: (blanks ++ '\x22' :: used))), rest',
              by simp [hsource, htail], ⟨?_, hstop⟩, hrest'⟩
            simpa using MembersText.more hname hfirst (hused.blanks hblanks)
          next => simp [passOver_object_iff] at h
        next => simp [passOver_object_iff] at h
      next => simp [passOver_object_iff, passOver_broken] at h

theorem spelledWith (fuel : Nat) : SpelledWith fuel := by
  induction fuel with
  | zero =>
      refine ⟨?_, ?_, ?_, ?_, ?_⟩ <;> intro cs h
      · simp [readValue, Found.broken, passOver] at h
      · simp [readElements, passOver_list_iff] at h
      · simp [readElement, passOver_list_iff] at h
      · simp [readMembers, passOver_object_iff] at h
      · simp [readMember, passOver_object_iff] at h
  | succ fuel ih =>
      exact ⟨spelled_value ih, spelled_elements ih, spelled_element ih, spelled_members ih,
        spelled_member ih⟩

/-! ## Whole texts -/

/-- A text is that of a tree without a flaw just if it spells the tree, up to blanks behind it. -/
theorem ofChars_eq_iff
    {cs : List Char}
    {tree : Tree}
    (htree : passOver tree = .ok ()) :
    Document.ofChars cs = ⟨tree, false⟩ ↔ Padded cs tree := by
  constructor
  · intro h
    rw [Document.ofChars, Document.mk.injEq] at h
    obtain ⟨rfl, htrailing⟩ := h
    obtain ⟨used, rest, hcs, hused, hrest⟩ := (spelledWith _).value cs htree
    refine ⟨used, rest, hcs, hused, skipBlanks_eq_nil_iff.mp ?_⟩
    simpa [hrest] using htrailing
  · rintro ⟨used, blanks, rfl, hused, hblanks⟩
    have hread := hused (3 * (used ++ blanks).length + 2) blanks
      (by simp only [List.length_append]; omega) hblanks.endsNumber
    rw [Document.ofChars, hread]
    simp [skipBlanks_eq_nil_iff.mpr hblanks]

end Json
end CqlDelta
