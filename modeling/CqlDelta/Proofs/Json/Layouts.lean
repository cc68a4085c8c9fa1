import CqlDelta.Proofs.Json.WrittenText

/-!
# Written JSON text

A layout says which blanks stand between the signs of a written value; the compact text of a value
and the text with every element on a line of its own are two layouts. Whatever is written in a
layout is read as the tree of the written value (`readValue_chars`): `readElement_more` and
`readMember_more` take one element or member off the front. The main statements are `ofText_compact`
and `ofText_indented`.
-/

namespace CqlDelta
namespace Json

/-! ## Layouts -/

/-- Where blanks stand in a written value. -/
structure Layout where
  /-- The blanks in front of an element or a member at a level, and of a bracket that leads back to
  it. -/
  gap : Nat → List Char
  /-- The blanks behind a colon. -/
  space : List Char
  gap_blank : ∀ level, ∀ c ∈ gap level, isToken c = false
  space_blank : ∀ c ∈ space, isToken c = false

namespace Layout

/-- Nothing stands between the signs. -/
def compact : Layout where
  gap := fun _ => []
  space := []
  gap_blank := by simp
  space_blank := by simp

/-- Every element and every member stands on a line of its own. -/
def indented : Layout where
  gap := Value.newLine
  space := [' ']
  gap_blank := by
    intro level c hc
    rcases List.mem_cons.mp hc with rfl | hc
    · decide
    · obtain rfl := (List.mem_replicate.mp hc).2
      decide
  space_blank := by simp [isToken]

@[simp]
theorem gap_compact (level : Nat) : compact.gap level = [] :=
  rfl

@[simp]
theorem space_compact : compact.space = [] :=
  rfl

@[simp]
theorem gap_indented (level : Nat) : indented.gap level = Value.newLine level :=
  rfl

@[simp]
theorem space_indented : indented.space = [' '] :=
  rfl

/-- A key from behind its opening quote, and the colon. -/
def keyChars (key : String) : List Char :=
  key.toList.flatMap escapeChar ++ ['\x22', ':']

mutual

/-- The text of a value at a level. -/
def chars (layout : Layout) (level : Nat) : Value → List Char
  | .list [] => ['[', ']']
  | .list (item :: more) =>
      '[' :: (layout.gap (level + 1) ++ (chars layout (level + 1) item
        ++ (itemsBehind layout (level + 1) more ++ (layout.gap level ++ [']']))))
  | .object [] => ['\x7b', '\x7d']
  | .object ((key, value) :: more) =>
      '\x7b' :: (layout.gap (level + 1) ++ '\x22' :: (keyChars key
        ++ (layout.space ++ (chars layout (level + 1) value
          ++ (membersBehind layout (level + 1) more ++ (layout.gap level ++ ['\x7d']))))))
  | .null => Value.compactChars .null
  | .bool value => Value.compactChars (.bool value)
  | .number n => Value.compactChars (.number n)
  | .text content => Value.compactChars (.text content)

/-- The elements behind the first, each behind a comma. -/
def itemsBehind (layout : Layout) (level : Nat) : List Value → List Char
  | [] => []
  | item :: more =>
      ',' :: (layout.gap level ++ (chars layout level item ++ itemsBehind layout level more))

/-- The members behind the first, each behind a comma. -/
def membersBehind (layout : Layout) (level : Nat) : List (String × Value) → List Char
  | [] => []
  | (key, value) :: more =>
      ',' :: (layout.gap level ++ '\x22' :: (keyChars key
        ++ (layout.space ++ (chars layout level value ++ membersBehind layout level more))))

end

/-! ## The compact text -/

mutual

theorem chars_compact : ∀ (value : Value) (level : Nat),
    chars compact level value = value.compactChars
  | .null, _ => rfl
  | .bool _, _ => rfl
  | .number _, _ => rfl
  | .text _, _ => rfl
  | .list [], _ => rfl
  | .list (item :: more), level => by
      have hitems := compactItems_cons more item (level + 1)
      have hitem := chars_compact item (level + 1)
      simp [chars, Value.compactChars, hitems, hitem]
  | .object [], _ => rfl
  | .object ((key, value) :: more), level => by
      have hmembers := compactMembers_cons more key value (level + 1)
      have hvalue := chars_compact value (level + 1)
      simp [chars, Value.compactChars, hmembers, hvalue]

/-- Elements with commas between them are the first one and those behind it. -/
theorem compactItems_cons : ∀ (more : List Value) (item : Value) (level : Nat),
    Value.compactItems (item :: more) = item.compactChars ++ itemsBehind compact level more
  | [], item, level => by simp [Value.compactItems, itemsBehind]
  | next :: more, item, level => by
      have hmore := compactItems_cons more next level
      have hnext := chars_compact next level
      simp [Value.compactItems, itemsBehind, hmore, hnext]

/-- Members with commas between them are the first one and those behind it. -/
theorem compactMembers_cons : ∀ (more : List (String × Value)) (key : String) (value : Value)
    (level : Nat),
    Value.compactMembers ((key, value) :: more) =
      '\x22' :: (keyChars key ++ (value.compactChars ++ membersBehind compact level more))
  | [], key, value, level => by
      simp [Value.compactMembers, membersBehind, keyChars, writeQuoted]
  | (next, second) :: more, key, value, level => by
      have hmore := compactMembers_cons more next second level
      have hsecond := chars_compact second level
      simp [Value.compactMembers, membersBehind, keyChars, writeQuoted, hmore, hsecond]

end

/-! ## The indented text -/

mutual

theorem chars_indented : ∀ (value : Value) (level : Nat),
    chars indented level value = value.indentedChars level
  | .null, _ => by simp [chars, Value.indentedChars]
  | .bool _, _ => by simp [chars, Value.indentedChars]
  | .number _, _ => by simp [chars, Value.indentedChars]
  | .text _, _ => by simp [chars, Value.indentedChars]
  | .list [], _ => by simp [chars, Value.indentedChars]
  | .list (item :: more), level => by
      have hitem := chars_indented item (level + 1)
      have hmore := itemsBehind_indented more (level + 1)
      simp [chars, Value.indentedChars, hitem, hmore]
  | .object [], _ => by simp [chars, Value.indentedChars]
  | .object ((key, value) :: more), level => by
      have hvalue := chars_indented value (level + 1)
      have hmore := membersBehind_indented more (level + 1)
      simp [chars, Value.indentedChars, keyChars, writeQuoted, hvalue, hmore]

theorem itemsBehind_indented : ∀ (items : List Value) (level : Nat),
    itemsBehind indented level items = Value.indentedItems level items
  | [], _ => rfl
  | item :: more, level => by
      have hitem := chars_indented item level
      have hmore := itemsBehind_indented more level
      simp [itemsBehind, Value.indentedItems, hitem, hmore]

theorem membersBehind_indented : ∀ (members : List (String × Value)) (level : Nat),
    membersBehind indented level members = Value.indentedMembers level members
  | [], _ => rfl
  | (key, value) :: more, level => by
      have hvalue := chars_indented value level
      have hmore := membersBehind_indented more level
      simp [membersBehind, Value.indentedMembers, keyChars, writeQuoted, hvalue, hmore]

end

end Layout

/-! ## One step of reading -/

/-- Blanks in front of a value do not matter. -/
theorem readValue_blanks
    {blanks : List Char}
    (h : ∀ c ∈ blanks, isToken c = false)
    (fuel : Nat)
    (rest : List Char) :
    readValue fuel (blanks ++ rest) = readValue fuel rest := by
  cases fuel with
  | zero => rfl
  | succ fuel => simp only [readValue, skipBlanks_append h]

/-- An element before the closing bracket is the last one. -/
theorem readElement_last
    {fuel : Nat}
    {cs rest tail : List Char}
    {item : Tree}
    (hitem : readValue fuel cs = ⟨item, some rest⟩)
    (hclose : skipBlanks rest = ']' :: tail) :
    readElement (fuel + 1) cs = ⟨([item], .closed), some tail⟩ := by
  simp [readElement, hitem, hclose, consElement]

/-- An element before a comma is followed by the next one. -/
theorem readElement_more
    {fuel : Nat}
    {cs rest tail next : List Char}
    {item : Tree}
    {c : Char}
    (hitem : readValue fuel cs = ⟨item, some rest⟩)
    (hcomma : skipBlanks rest = ',' :: tail)
    (hnext : skipBlanks tail = c :: next)
    (hc : c ≠ ']') :
    readElement (fuel + 1) cs = consElement item (readElement fuel (c :: next)) := by
  rw [readElement.eq_def]
  simp [hitem, hcomma, hnext, hc]

/-- A member before the closing brace is the last one. -/
theorem readMember_last
    {fuel : Nat}
    {cs behind source rest tail : List Char}
    {key : Content}
    {value : Tree}
    (hkey : readQuoted cs = .ok (key, behind))
    (hcolon : skipBlanks behind = ':' :: source)
    (hvalue : readValue fuel source = ⟨value, some rest⟩)
    (hclose : skipBlanks rest = '\x7d' :: tail) :
    readMember (fuel + 1) cs = ⟨([(key, value)], .closed), some tail⟩ := by
  simp [readMember, hkey, hcolon, hvalue, hclose, consMember]

/-- A member before a comma is followed by the next one. -/
theorem readMember_more
    {fuel : Nat}
    {cs behind source rest tail next : List Char}
    {key : Content}
    {value : Tree}
    (hkey : readQuoted cs = .ok (key, behind))
    (hcolon : skipBlanks behind = ':' :: source)
    (hvalue : readValue fuel source = ⟨value, some rest⟩)
    (hcomma : skipBlanks rest = ',' :: tail)
    (hnext : skipBlanks tail = '\x22' :: next) :
    readMember (fuel + 1) cs = consMember key value (readMember fuel next) := by
  rw [readMember.eq_def]
  simp [hkey, hcolon, hvalue, hcomma, hnext]

/-- A list that does not close at once has a first element. -/
theorem readElements_token
    {c : Char}
    {cs rest : List Char}
    (hskip : skipBlanks cs = c :: rest)
    (hbracket : c ≠ ']')
    (fuel : Nat) :
    readElements (fuel + 1) cs = readElement fuel (c :: rest) := by
  rw [readElements.eq_def]
  simp [hskip, hbracket]

/-- An object that does not close at once has a first member. -/
theorem readMembers_quote
    {cs rest : List Char}
    (hskip : skipBlanks cs = '\x22' :: rest)
    (fuel : Nat) :
    readMembers (fuel + 1) cs = readMember fuel rest := by
  rw [readMembers.eq_def]
  simp [hskip]

/-! ## Literals, numbers and texts -/

theorem readValue_null
    (fuel : Nat)
    (rest : List Char) :
    readValue (fuel + 1) (Value.compactChars .null ++ rest) = ⟨.null, some rest⟩ := by
  simp [Value.compactChars, readValue, skipBlanks, readLiteral]

theorem readValue_bool
    (value : Bool)
    (fuel : Nat)
    (rest : List Char) :
    readValue (fuel + 1) (Value.compactChars (.bool value) ++ rest) = ⟨.bool value, some rest⟩ := by
  cases value <;> simp [Value.compactChars, Value.boolChars, readValue, skipBlanks, readLiteral]

/-- A number is written with a digit in front. -/
theorem toDigits_head
    (n : Nat) :
    ∃ c more, Nat.toDigits 10 n = c :: more ∧ c.isDigit = true := by
  cases hdigits : Nat.toDigits 10 n with
  | nil => exact absurd hdigits Nat.toDigits_ne_nil
  | cons c more =>
      refine ⟨c, more, rfl, Nat.isDigit_of_mem_toDigits (n := n) (b := 10) (by omega) (by omega) ?_⟩
      simp [hdigits]

theorem readValue_number
    (n fuel : Nat)
    {rest : List Char}
    (hrest : endsNumber rest) :
    readValue (fuel + 1) (Value.compactChars (.number n) ++ rest) =
      ⟨.number (.ofNat n), some rest⟩ := by
  have hread := readNumber_toDigits n hrest
  obtain ⟨c, more, hdigits, hc⟩ := toDigits_head n
  rw [hdigits, List.cons_append] at hread
  rw [Value.compactChars, hdigits, List.cons_append, readValue_digit hc, hread]

theorem readValue_text
    (content : String)
    (fuel : Nat)
    (rest : List Char) :
    readValue (fuel + 1) (Value.compactChars (.text content) ++ rest) =
      ⟨.text (.ok content), some rest⟩ := by
  have hread := readQuoted_written content rest
  simp [Value.compactChars, readValue, skipBlanks, writeQuoted, readText, hread]

/-! ## Values -/

namespace Layout

/-- A written value starts with a character that is neither a blank nor a closing bracket. -/
theorem chars_head
    (layout : Layout)
    (level : Nat)
    (value : Value) :
    ∃ c more, layout.chars level value = c :: more ∧ isToken c = true ∧ c ≠ ']' := by
  cases value with
  | null => exact ⟨'n', _, rfl, by decide, by decide⟩
  | bool value =>
      cases value with
      | true => exact ⟨'t', _, rfl, by decide, by decide⟩
      | false => exact ⟨'f', _, rfl, by decide, by decide⟩
  | number n =>
      obtain ⟨c, more, hdigits, hc⟩ := toDigits_head n
      refine ⟨c, more, hdigits, isToken_of_isDigit hc, ?_⟩
      rintro rfl
      simp at hc
  | text content => exact ⟨'\x22', _, rfl, by decide, by decide⟩
  | list items => cases items <;> exact ⟨'[', _, rfl, by decide, by decide⟩
  | object members => cases members <;> exact ⟨'\x7b', _, rfl, by decide, by decide⟩

/-- Behind a number stand blanks, a comma or a bracket. -/
theorem endsNumber_of_sign
    (blanks : List Char)
    {c : Char}
    (hblanks : ∀ d ∈ blanks, isToken d = false)
    (hc : c = ',' ∨ c = ']' ∨ c = '\x7d')
    (rest : List Char) :
    endsNumber (blanks ++ c :: rest) := by
  rintro d more hd
  cases blanks with
  | nil =>
      obtain ⟨rfl, -⟩ := List.cons.inj hd
      rcases hc with rfl | rfl | rfl <;> decide
  | cons blank blanks =>
      obtain ⟨rfl, -⟩ := List.cons.inj hd
      have hblank := hblanks blank List.mem_cons_self
      refine ⟨?_, ?_, ?_, ?_⟩
      · cases hdigit : blank.isDigit with
        | false => rfl
        | true => simp [isToken_of_isDigit hdigit] at hblank
      all_goals
        rintro rfl
        simp [isToken] at hblank

theorem itemsBehind_ends
    (layout : Layout)
    (items : List Value)
    (level : Nat)
    {closing : List Char}
    (hclosing : ∀ c ∈ closing, isToken c = false)
    (rest : List Char) :
    endsNumber (layout.itemsBehind level items ++ (closing ++ ']' :: rest)) := by
  cases items with
  | nil => exact endsNumber_of_sign closing hclosing (by simp) rest
  | cons item more => exact endsNumber_of_sign [] (by simp) (by simp) _

theorem membersBehind_ends
    (layout : Layout)
    (members : List (String × Value))
    (level : Nat)
    {closing : List Char}
    (hclosing : ∀ c ∈ closing, isToken c = false)
    (rest : List Char) :
    endsNumber (layout.membersBehind level members ++ (closing ++ '\x7d' :: rest)) := by
  cases members with
  | nil => exact endsNumber_of_sign closing hclosing (by simp) rest
  | cons member more => exact endsNumber_of_sign [] (by simp) (by simp) _

/-- A key is read up to its colon. -/
theorem readQuoted_keyChars
    (key : String)
    (rest : List Char) :
    readQuoted (keyChars key ++ rest) = .ok (.ok key, ':' :: rest) := by
  simpa [keyChars] using readQuoted_written key (':' :: rest)

/-- Blanks before a sign are skipped up to it. -/
theorem skipBlanks_sign
    {blanks : List Char}
    {c : Char}
    (hblanks : ∀ d ∈ blanks, isToken d = false)
    (hc : isToken c = true)
    (rest : List Char) :
    skipBlanks (blanks ++ c :: rest) = c :: rest := by
  rw [skipBlanks_append hblanks, skipBlanks_cons hc]

mutual

/-- A written value is read as its tree. -/
theorem readValue_chars (layout : Layout) : ∀ (value : Value) (level fuel : Nat) (rest : List Char),
    3 * (chars layout level value).length ≤ fuel + 1 → endsNumber rest →
    readValue (fuel + 1) (chars layout level value ++ rest) = ⟨value.toTree, some rest⟩
  | .null, _, fuel, rest, _, _ => readValue_null fuel rest
  | .bool value, _, fuel, rest, _, _ => readValue_bool value fuel rest
  | .number n, _, fuel, _, _, hrest => readValue_number n fuel hrest
  | .text content, _, fuel, rest, _, _ => readValue_text content fuel rest
  | .list [], _, fuel, rest, hfuel, _ => by
      simp only [chars, List.length_cons, List.length_nil] at hfuel
      obtain ⟨fuel, rfl⟩ : ∃ less, fuel = less + 1 := ⟨fuel - 1, by omega⟩
      simp [chars, Value.toTree, Value.treesOf, readValue, skipBlanks, readElements]
  | .list (item :: more), level, fuel, rest, hfuel, _ => by
      simp only [chars, List.length_cons, List.length_append] at hfuel
      obtain ⟨fuel, rfl⟩ : ∃ less, fuel = less + 3 := ⟨fuel - 3, by omega⟩
      obtain ⟨c, tail, hhead, hc, hbracket⟩ := chars_head layout (level + 1) item
      have hends := itemsBehind_ends layout more (level + 1) (layout.gap_blank level) rest
      have hitem := readValue_chars layout item (level + 1) fuel _ (by omega) hends
      have hread :=
        readElement_behind layout more (level + 1) (fuel + 1) (layout.gap_blank level) (by omega)
          hitem
      rw [hhead, List.cons_append] at hread
      have hskip := skipBlanks_sign (layout.gap_blank (level + 1)) hc
        (tail ++ (itemsBehind layout (level + 1) more ++ (layout.gap level ++ ']' :: rest)))
      have hinside := readElements_token hskip hbracket (fuel + 2)
      simp [chars, Value.toTree, readValue, skipBlanks, hhead, hinside, hread, Value.treesOf]
  | .object [], _, fuel, rest, hfuel, _ => by
      simp only [chars, List.length_cons, List.length_nil] at hfuel
      obtain ⟨fuel, rfl⟩ : ∃ less, fuel = less + 1 := ⟨fuel - 1, by omega⟩
      simp [chars, Value.toTree, Value.treeMembersOf, readValue, skipBlanks, readMembers]
  | .object ((key, value) :: more), level, fuel, rest, hfuel, _ => by
      simp only [chars, List.length_cons, List.length_append] at hfuel
      obtain ⟨fuel, rfl⟩ : ∃ less, fuel = less + 3 := ⟨fuel - 3, by omega⟩
      have hends := membersBehind_ends layout more (level + 1) (layout.gap_blank level) rest
      have hvalue := readValue_chars layout value (level + 1) fuel _ (by omega) hends
      have hread :=
        readMember_behind layout more (level + 1) (fuel + 1) key (layout.gap_blank level) (by omega)
          ((readValue_blanks layout.space_blank _ _).trans hvalue)
      have hskip := skipBlanks_sign (c := '\x22') (layout.gap_blank (level + 1)) (by decide)
        (keyChars key ++ (layout.space ++ (chars layout (level + 1) value
          ++ (membersBehind layout (level + 1) more ++ (layout.gap level ++ '\x7d' :: rest)))))
      have hinside := readMembers_quote hskip (fuel + 2)
      simp [chars, Value.toTree, readValue, skipBlanks, hinside, hread, Value.treeMembersOf]

/-- Behind an element that is read, the written elements are read as their trees. -/
theorem readElement_behind (layout : Layout) : ∀ (more : List Value) (level fuel : Nat)
    {closing cs rest : List Char} {item : Tree},
    (∀ c ∈ closing, isToken c = false) →
    3 * (itemsBehind layout level more).length ≤ fuel →
    readValue fuel cs =
      ⟨item, some (itemsBehind layout level more ++ (closing ++ ']' :: rest))⟩ →
    readElement (fuel + 1) cs = ⟨(item :: Value.treesOf more, .closed), some rest⟩
  | [], _, _, _, _, rest, _, hclosing, _, hitem =>
      readElement_last hitem (skipBlanks_sign hclosing (by decide) rest)
  | next :: more, level, fuel, closing, cs, rest, item, hclosing, hfuel, hitem => by
      simp only [itemsBehind, List.length_cons, List.length_append] at hfuel
      obtain ⟨fuel, rfl⟩ : ∃ less, fuel = less + 2 := ⟨fuel - 2, by omega⟩
      obtain ⟨c, tail, hhead, hc, hbracket⟩ := chars_head layout level next
      have hends := itemsBehind_ends layout more level hclosing rest
      have hnext := readValue_chars layout next level fuel _ (by omega) hends
      have hmore := readElement_behind layout more level (fuel + 1) hclosing (by omega) hnext
      simp only [itemsBehind, hhead, List.append_assoc, List.cons_append] at hitem hmore
      have hcomma := skipBlanks_cons (c := ',') (by decide)
        (layout.gap level ++ c :: (tail
          ++ (itemsBehind layout level more ++ (closing ++ ']' :: rest))))
      rw [readElement_more hitem hcomma (skipBlanks_sign (layout.gap_blank level) hc _) hbracket,
        hmore]
      rfl

/-- Behind a member whose value is read, the written members are read as their trees. -/
theorem readMember_behind (layout : Layout) : ∀ (more : List (String × Value)) (level fuel : Nat)
    (key : String) {closing source rest : List Char} {value : Tree},
    (∀ c ∈ closing, isToken c = false) →
    3 * (membersBehind layout level more).length ≤ fuel →
    readValue fuel source =
      ⟨value, some (membersBehind layout level more ++ (closing ++ '\x7d' :: rest))⟩ →
    readMember (fuel + 1) (keyChars key ++ source) =
      ⟨((.ok key, value) :: Value.treeMembersOf more, .closed), some rest⟩
  | [], _, _, key, _, _, rest, _, hclosing, _, hvalue =>
      readMember_last (readQuoted_keyChars key _) (skipBlanks_cons (by decide) _) hvalue
        (skipBlanks_sign hclosing (by decide) rest)
  | (next, second) :: more, level, fuel, key, closing, source, rest, value, hclosing, hfuel,
      hvalue => by
      simp only [membersBehind, List.length_cons, List.length_append] at hfuel
      obtain ⟨fuel, rfl⟩ : ∃ less, fuel = less + 2 := ⟨fuel - 2, by omega⟩
      have hends := membersBehind_ends layout more level hclosing rest
      have hsecond := readValue_chars layout second level fuel _ (by omega) hends
      have hmore :=
        readMember_behind layout more level (fuel + 1) next hclosing (by omega)
          ((readValue_blanks layout.space_blank _ _).trans hsecond)
      simp only [membersBehind, List.append_assoc, List.cons_append] at hvalue
      rw [readMember_more (readQuoted_keyChars key _) (skipBlanks_cons (by decide) _) hvalue
        (skipBlanks_cons (by decide) _) (skipBlanks_sign (layout.gap_blank level) (by decide) _),
        hmore]
      rfl

end

/-- A text that is written in a layout, up to blanks behind it, is that of the value's tree. -/
theorem ofChars_chars
    (layout : Layout)
    (level : Nat)
    (value : Value)
    (blanks : List Char)
    (hblanks : ∀ c ∈ blanks, isToken c = false) :
    Document.ofChars (layout.chars level value ++ blanks) = ⟨value.toTree, false⟩ := by
  have hends : endsNumber blanks := by
    intro c more hcs
    have hsign := endsNumber_of_sign blanks (c := ',') hblanks (by simp) []
    rw [hcs] at hsign
    exact hsign c _ rfl
  have hskip : skipBlanks blanks = [] := by
    have hnil := skipBlanks_append hblanks []
    rwa [List.append_nil] at hnil
  have hread :=
    readValue_chars layout value level (3 * (layout.chars level value ++ blanks).length + 2) blanks
      (by simp only [List.length_append]; omega) hends
  rw [Document.ofChars, hread]
  simp [hskip]

end Layout

/-- The compact text of a value is the text of its tree. -/
theorem ofText_compact
    (value : Value) :
    Document.ofText value.compact = ⟨value.toTree, false⟩ := by
  have hchars := Layout.compact.ofChars_chars 0 value [] (by simp)
  rw [Layout.chars_compact, List.append_nil] at hchars
  simpa [Document.ofText, Value.compact] using hchars

/-- The text of a value with every element on a line of its own, and a line break behind it, is the
text of its tree. -/
theorem ofText_indented
    (value : Value) :
    Document.ofText (value.indented ++ "\n") = ⟨value.toTree, false⟩ := by
  have hchars := Layout.indented.ofChars_chars 0 value ['\n'] (by simp [isToken])
  rw [Layout.chars_indented] at hchars
  simpa [Document.ofText, Value.indented] using hchars

end Json
end CqlDelta
