import Mathlib

/-!
# JSON values and their text

A value is a scalar, a list of values, or an object of named values.  The encoder writes it
without blanks; a string escapes what would end it, the control characters, and, where only
ASCII may be written, every other character in UTF-16 units.  The canonical text of a value
writes every object's members in the order of their names.
-/

namespace ShadowSpill.Library.JsonText

/-- A JSON value.  A number that is not an integer keeps its literal. -/
inductive Json where
  | null
  | bool (value : Bool)
  | int (value : Int)
  | real (literal : String)
  | text (value : String)
  | list (items : List Json)
  | object (members : List (String × Json))

/-! ## Strings -/

/-- `\u` and four hexadecimal digits. -/
def unitEscape (unit : Nat) : List Char :=
  ['\\', 'u', Nat.digitChar (unit / 4096 % 16), Nat.digitChar (unit / 256 % 16),
    Nat.digitChar (unit / 16 % 16), Nat.digitChar (unit % 16)]

/-- One character inside a string; `ascii` writes every character in ASCII. -/
def escapeChar (ascii : Bool) (char : Char) : List Char :=
  if char = '"' then ['\\', '"']
  else if char = '\\' then ['\\', '\\']
  else if char = '\n' then ['\\', 'n']
  else if char = '\r' then ['\\', 'r']
  else if char = '\t' then ['\\', 't']
  else if char = '\x0c' then ['\\', 'f']
  else if char = '\x08' then ['\\', 'b']
  else if char.toNat < 0x20 then unitEscape char.toNat
  else if ascii = true ∧ 0x7e < char.toNat then
    if char.toNat < 0x10000 then unitEscape char.toNat
    else
      unitEscape (0xd800 + (char.toNat - 0x10000) / 0x400) ++
        unitEscape (0xdc00 + (char.toNat - 0x10000) % 0x400)
  else [char]

/-- The payload of a string, without its quotes. -/
def escape (ascii : Bool) (value : String) : List Char :=
  value.toList.flatMap (escapeChar ascii)

def quoted (ascii : Bool) (value : String) : List Char :=
  '"' :: (escape ascii value ++ ['"'])

theorem digitChar_ne_zero : ∀ digit < 16, (Nat.digitChar digit).toNat ≠ 0 := by
  decide

theorem unitEscape_ne_zero {unit : Nat} {char : Char} (mem : char ∈ unitEscape unit) :
    char.toNat ≠ 0 := by
  simp only [unitEscape, List.mem_cons, List.not_mem_nil, or_false] at mem
  rcases mem with rfl | rfl | rfl | rfl | rfl | rfl
  · decide
  · decide
  all_goals exact digitChar_ne_zero _ (Nat.mod_lt _ (by decide))

theorem escapeChar_ne_zero {ascii : Bool} {plain char : Char}
    (here : char ∈ escapeChar ascii plain) : char.toNat ≠ 0 := by
  have two {second : Char} (nonzero : second.toNat ≠ 0) (short : char ∈ ['\\', second]) :
      char.toNat ≠ 0 := by
    rcases List.mem_pair.mp short with rfl | rfl
    · decide
    · exact nonzero
  unfold escapeChar at here
  split_ifs at here with quote backslash newline carriage tab feed back control coded small
  · exact two (by decide) here
  · exact two (by decide) here
  · exact two (by decide) here
  · exact two (by decide) here
  · exact two (by decide) here
  · exact two (by decide) here
  · exact two (by decide) here
  · exact unitEscape_ne_zero here
  · exact unitEscape_ne_zero here
  · rcases List.mem_append.mp here with first | second
    · exact unitEscape_ne_zero first
    · exact unitEscape_ne_zero second
  · rw [List.mem_singleton.mp here]
    omega

/-- The payload of a string has no null character. -/
theorem null_notMem_escape (ascii : Bool) (value : String) : '\x00' ∉ escape ascii value := by
  intro mem
  obtain ⟨plain, _, here⟩ := List.mem_flatMap.mp mem
  exact escapeChar_ne_zero here rfl

/-! ## Numbers -/

def natText (value : Nat) : List Char := Nat.toDigits 10 value

def intText : Int → List Char
  | .ofNat value => natText value
  | .negSucc value => '-' :: natText (value + 1)

/-! ## Values -/

mutual

/-- The text of a value, its members in their own order. -/
def render (ascii : Bool) : Json → List Char
  | .null => ['n', 'u', 'l', 'l']
  | .bool true => ['t', 'r', 'u', 'e']
  | .bool false => ['f', 'a', 'l', 's', 'e']
  | .int value => intText value
  | .real literal => literal.toList
  | .text value => quoted ascii value
  | .list [] => ['[', ']']
  | .list (item :: rest) => '[' :: (render ascii item ++ renderItems ascii rest)
  | .object [] => ['\x7b', '\x7d']
  | .object ((name, value) :: rest) =>
      '\x7b' :: (quoted ascii name ++ ':' :: (render ascii value ++ renderMembers ascii rest))

/-- The items after the first, and the bracket that closes the list. -/
def renderItems (ascii : Bool) : List Json → List Char
  | [] => [']']
  | item :: rest => ',' :: (render ascii item ++ renderItems ascii rest)

def renderMembers (ascii : Bool) : List (String × Json) → List Char
  | [] => ['\x7d']
  | (name, value) :: rest =>
      ',' :: (quoted ascii name ++ ':' :: (render ascii value ++ renderMembers ascii rest))

end

/-- The items of a list with commas between them. -/
def joined (ascii : Bool) : List Json → List Char
  | [] => []
  | item :: rest => render ascii item ++ rest.flatMap fun next => ',' :: render ascii next

theorem renderItems_eq (ascii : Bool) (items : List Json) :
    renderItems ascii items = (items.flatMap fun item => ',' :: render ascii item) ++ [']'] := by
  induction items with
  | nil => rfl
  | cons item rest inductionHypothesis =>
      rw [renderItems, inductionHypothesis, List.flatMap_cons, List.cons_append,
        List.cons_append, List.append_assoc]

theorem render_list (ascii : Bool) (items : List Json) :
    render ascii (.list items) = '[' :: (joined ascii items ++ [']']) := by
  cases items with
  | nil => rfl
  | cons item rest =>
      rw [render, renderItems_eq, joined, List.append_assoc]

/-- One more item, with a comma unless it is the first. -/
theorem joined_concat (ascii : Bool) (items : List Json) (item : Json) :
    joined ascii (items ++ [item]) =
      joined ascii items ++ ((if items.length ≠ 0 then [','] else []) ++ render ascii item) := by
  cases items with
  | nil =>
      rw [List.nil_append, joined, joined, List.flatMap_nil, List.append_nil, List.nil_append,
        if_neg (by simp), List.nil_append]
  | cons first rest =>
      rw [List.cons_append, joined, List.flatMap_append, List.flatMap_singleton, joined,
        if_pos (by simp), List.append_assoc, List.singleton_append]

/-! ## Members in order -/

/-- The order of names by code points. -/
abbrev byName (left right : String × Json) : Prop := left.1 ≤ right.1

mutual

/-- `sort_keys`. -/
def sortKeys : Json → Json
  | .list items => .list (sortItems items)
  | .object members => .object ((sortMembers members).insertionSort byName)
  | .null => .null
  | .bool value => .bool value
  | .int value => .int value
  | .real literal => .real literal
  | .text value => .text value

def sortItems : List Json → List Json
  | [] => []
  | item :: rest => sortKeys item :: sortItems rest

def sortMembers : List (String × Json) → List (String × Json)
  | [] => []
  | (name, value) :: rest => (name, sortKeys value) :: sortMembers rest

end

/-- The text with every object's members in the order of their names. -/
def canonicalText (ascii : Bool) (value : Json) : List Char := render ascii (sortKeys value)

theorem sortItems_eq (items : List Json) : sortItems items = items.map sortKeys := by
  induction items with
  | nil => rfl
  | cons item rest inductionHypothesis =>
      rw [sortItems, inductionHypothesis, List.map_cons]

theorem sortMembers_eq (members : List (String × Json)) :
    sortMembers members = members.map fun member => (member.1, sortKeys member.2) := by
  induction members with
  | nil => rfl
  | cons member rest inductionHypothesis =>
      obtain ⟨name, value⟩ := member
      rw [sortMembers, inductionHypothesis, List.map_cons]

theorem sortMembers_names (members : List (String × Json)) :
    (sortMembers members).map Prod.fst = members.map Prod.fst := by
  rw [sortMembers_eq, List.map_map]
  rfl

/-- Members that stand in order are written in their own order. -/
theorem sortKeys_object {members : List (String × Json)}
    (ordered : (members.map Prod.fst).Pairwise (· ≤ ·)) :
    sortKeys (.object members) = .object (sortMembers members) := by
  rw [sortKeys]
  congr 1
  refine List.Pairwise.insertionSort_eq ?_
  rw [← sortMembers_names, List.pairwise_map] at ordered
  exact ordered

/-! ## Bytes -/

/-- The UTF-8 bytes of a text. -/
def utf8 (text : List Char) : List UInt8 := text.flatMap String.utf8EncodeChar

theorem utf8_append (text other : List Char) : utf8 (text ++ other) = utf8 text ++ utf8 other :=
  List.flatMap_append

/-- The bytes of a text are those of its string. -/
theorem utf8_eq (text : List Char) : (utf8 text).toByteArray = (String.ofList text).toByteArray :=
  String.toByteArray_ofList.symm

theorem utf8_injective {text other : List Char} (same : utf8 text = utf8 other) :
    text = other := by
  have bytes := congrArg List.toByteArray same
  rw [utf8_eq, utf8_eq, String.toByteArray_inj] at bytes
  exact String.ofList_injective bytes

/-- A character other than the null character has no null byte. -/
theorem utf8EncodeChar_ne_zero (char : Char) (some_char : char.toNat ≠ 0) :
    0 ∉ String.utf8EncodeChar char := by
  have nonzero {byte : Nat} (small : byte < 256) (positive : byte ≠ 0) :
      (0 : UInt8) ≠ UInt8.ofNat byte := by
    intro same
    have value := congrArg UInt8.toNat same
    rw [UInt8.toNat_ofNat_of_lt' small] at value
    exact positive value.symm
  have leading : char.val.toNat ≠ 0 := some_char
  simp only [String.utf8EncodeChar]
  split_ifs with one two three <;>
    simp only [List.mem_cons, List.not_mem_nil, or_false, not_or]
  · exact nonzero (by omega) (by omega)
  · exact ⟨nonzero (by omega) (by omega), nonzero (by omega) (by omega)⟩
  · exact ⟨nonzero (by omega) (by omega), nonzero (by omega) (by omega),
      nonzero (by omega) (by omega)⟩
  · exact ⟨nonzero (by omega) (by omega), nonzero (by omega) (by omega),
      nonzero (by omega) (by omega), nonzero (by omega) (by omega)⟩

theorem utf8_ne_zero {text : List Char} (some_chars : '\x00' ∉ text) : 0 ∉ utf8 text := by
  intro mem
  obtain ⟨char, inside, here⟩ := List.mem_flatMap.mp mem
  refine utf8EncodeChar_ne_zero char ?_ here
  intro null
  rw [← Char.toNat_inj.mp (null.trans (show 0 = '\x00'.toNat from rfl))] at some_chars
  exact some_chars inside

end ShadowSpill.Library.JsonText
