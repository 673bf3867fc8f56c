import ShadowSpill.Library.JsonText

/-!
# Reading JSON text

The reader follows the grammar: blanks between tokens, the escapes of a string with their
surrogate pairs, integers without leading zeros, numbers with a fraction or an exponent, and
objects in which the last of several members of one name stands.  It takes back exactly what
the encoder wrote, so a text determines its value.
-/

namespace ShadowSpill.Library.JsonReader

open JsonText

/-! ## Blanks and literals -/

def isBlank (char : Char) : Bool := char = ' ' || char = '\t' || char = '\n' || char = '\r'

def skip (text : List Char) : List Char := text.dropWhile isBlank

/-- The text after a literal. -/
def afterLiteral : List Char → List Char → Option (List Char)
  | [], text => some text
  | char :: literal, text =>
      match text with
      | [] => none
      | first :: rest => if first = char then afterLiteral literal rest else none

/-! ## Strings -/

/-- The number of a hexadecimal digit, of either case. -/
def hexDigit (char : Char) : Option Nat :=
  if '0' ≤ char ∧ char ≤ '9' then some (char.toNat - 48)
  else if 'a' ≤ char ∧ char ≤ 'f' then some (char.toNat - 87)
  else if 'A' ≤ char ∧ char ≤ 'F' then some (char.toNat - 55)
  else none

/-- The UTF-16 unit that four hexadecimal digits write. -/
def readUnit : List Char → Option (Nat × List Char)
  | first :: second :: third :: fourth :: rest => do
      let first ← hexDigit first
      let second ← hexDigit second
      let third ← hexDigit third
      let fourth ← hexDigit fourth
      some (((first * 16 + second) * 16 + third) * 16 + fourth, rest)
  | _ => none

/-- The low half of a surrogate pair. -/
def readLow : List Char → Option (Nat × List Char)
  | '\\' :: 'u' :: rest => do
      let (low, rest) ← readUnit rest
      if 0xdc00 ≤ low ∧ low < 0xe000 then some (low, rest) else none
  | _ => none

/-- The character of a unit, or of the surrogate pair that it begins. -/
def readUnicode (text : List Char) : Option (Char × List Char) := do
  let (unit, rest) ← readUnit text
  if 0xd800 ≤ unit ∧ unit < 0xdc00 then do
    let (low, rest) ← readLow rest
    some (Char.ofNat (0x10000 + (unit - 0xd800) * 0x400 + (low - 0xdc00)), rest)
  else if 0xdc00 ≤ unit ∧ unit < 0xe000 then none
  else some (Char.ofNat unit, rest)

/-- What a backslash begins. -/
def readEscape : List Char → Option (Char × List Char)
  | [] => none
  | char :: rest =>
      if char = '"' ∨ char = '\\' ∨ char = '/' then some (char, rest)
      else if char = 'n' then some ('\n', rest)
      else if char = 'r' then some ('\r', rest)
      else if char = 't' then some ('\t', rest)
      else if char = 'f' then some ('\x0c', rest)
      else if char = 'b' then some ('\x08', rest)
      else if char = 'u' then readUnicode rest
      else none

/-- The characters up to the closing quote.  Every step takes a character of the text, so its
length bounds the steps. -/
def readText : Nat → List Char → Option (List Char × List Char)
  | 0, _ => none
  | _, [] => none
  | steps + 1, first :: rest =>
      if first = '"' then some ([], rest)
      else if first = '\\' then do
        let (char, rest) ← readEscape rest
        let (chars, rest) ← readText steps rest
        some (char :: chars, rest)
      else if first.toNat < 0x20 then none
      else do
        let (chars, rest) ← readText steps rest
        some (first :: chars, rest)

/-- A name, its colon, and the blanks around it. -/
def readName : List Char → Option (String × List Char)
  | [] => none
  | first :: rest => do
      if first = '"' then
        let (chars, rest) ← readText rest.length rest
        if (skip rest).head? = some ':' then
          some (String.ofList chars, skip (skip rest).tail)
        else none
      else none

/-! ## Numbers -/

def isNumberChar (char : Char) : Bool :=
  char.isDigit || char = '-' || char = '+' || char = '.' || char = 'e' || char = 'E'

/-- Digits without a leading zero. -/
def readNat (digits : List Char) : Option Nat :=
  let value := Nat.ofDigitChars 10 digits 0
  if natText value = digits then some value else none

def readInt (token : List Char) : Option Int :=
  if token.head? = some '-' then (readNat token.tail).map fun value => -(value : Int)
  else (readNat token).map fun value => (value : Int)

/-- An exponent, with digits and perhaps a sign. -/
def isExponent (token : List Char) : Bool :=
  let digits := if token.tail.head? = some '-' || token.tail.head? = some '+' then token.tail.tail
    else token.tail
  (token.head? = some 'e' || token.head? = some 'E') && !digits.isEmpty && digits.all Char.isDigit

/-- A fraction, an exponent, or both. -/
def isFraction (token : List Char) : Bool :=
  let digits := token.tail.takeWhile Char.isDigit
  let after := token.tail.dropWhile Char.isDigit
  if token.head? = some '.' then !digits.isEmpty && (after.isEmpty || isExponent after)
  else isExponent token

/-- A number with a fraction or an exponent. -/
def isReal (token : List Char) : Bool :=
  let unsigned := if token.head? = some '-' then token.tail else token
  (readNat (unsigned.takeWhile Char.isDigit)).isSome && isFraction (unsigned.dropWhile Char.isDigit)

def readNumber (text : List Char) : Option (Json × List Char) :=
  let token := text.takeWhile isNumberChar
  let rest := text.dropWhile isNumberChar
  if isReal token then some (.real (String.ofList token), rest)
  else (readInt token).map fun value => (.int value, rest)

/-! ## Values -/

/-- The members of a dictionary: the last value of a name, at the name's first place. -/
def assign (members : List (String × Json)) (member : String × Json) : List (String × Json) :=
  if member.1 ∈ members.map Prod.fst then
    members.map fun other => if other.1 = member.1 then member else other
  else members ++ [member]

mutual

def readValue : Nat → List Char → Option (Json × List Char)
  | 0, _ => none
  | _, [] => none
  | steps + 1, first :: rest =>
      if first = '"' then
        (readText rest.length rest).map fun found => (.text (String.ofList found.1), found.2)
      else if first = '[' then
        if (skip rest).head? = some ']' then some (.list [], (skip rest).tail)
        else (readItems steps (skip rest)).map fun found => (.list found.1, found.2)
      else if first = '\x7b' then
        if (skip rest).head? = some '\x7d' then some (.object [], (skip rest).tail)
        else (readMembers steps (skip rest)).map fun found =>
          (.object (found.1.foldl assign []), found.2)
      else if first = 'n' then (afterLiteral ['u', 'l', 'l'] rest).map fun rest => (.null, rest)
      else if first = 't' then
        (afterLiteral ['r', 'u', 'e'] rest).map fun rest => (.bool true, rest)
      else if first = 'f' then
        (afterLiteral ['a', 'l', 's', 'e'] rest).map fun rest => (.bool false, rest)
      else readNumber (first :: rest)

/-- The items of a list from one of them to the closing bracket. -/
def readItems : Nat → List Char → Option (List Json × List Char)
  | 0, _ => none
  | steps + 1, text => do
      let (item, rest) ← readValue steps text
      if (skip rest).head? = some ',' then do
        let (items, rest) ← readItems steps (skip (skip rest).tail)
        some (item :: items, rest)
      else if (skip rest).head? = some ']' then some ([item], (skip rest).tail)
      else none

/-- The members of an object from one of them to the closing brace. -/
def readMembers : Nat → List Char → Option (List (String × Json) × List Char)
  | 0, _ => none
  | steps + 1, text => do
      let (name, rest) ← readName text
      let (value, rest) ← readValue steps rest
      if (skip rest).head? = some ',' then do
        let (members, rest) ← readMembers steps (skip (skip rest).tail)
        some ((name, value) :: members, rest)
      else if (skip rest).head? = some '\x7d' then some ([(name, value)], (skip rest).tail)
      else none

end

/-- `json.loads`: one value with nothing but blanks around it. -/
def loads (text : List Char) : Option Json := do
  let (value, rest) ← readValue (text.length + 1) (skip text)
  if skip rest = [] then some value else none

/-! ## Strings read back -/

theorem hexDigit_digitChar : ∀ digit < 16, hexDigit (Nat.digitChar digit) = some digit := by
  decide

theorem readUnit_unitEscape {unit : Nat} (small : unit < 0x10000) (rest : List Char) :
    readUnit ((unitEscape unit).drop 2 ++ rest) = some (unit, rest) := by
  have digit (place : Nat) : hexDigit (Nat.digitChar (unit / place % 16)) =
      some (unit / place % 16) := hexDigit_digitChar _ (Nat.mod_lt _ (by decide))
  have last : hexDigit (Nat.digitChar (unit % 16)) = some (unit % 16) :=
    hexDigit_digitChar _ (Nat.mod_lt _ (by decide))
  have total : ((unit / 4096 % 16 * 16 + unit / 256 % 16) * 16 + unit / 16 % 16) * 16 +
      unit % 16 = unit := by omega
  simp only [unitEscape, List.drop_succ_cons, List.drop_zero, List.cons_append, List.nil_append,
    readUnit, digit, last, Option.bind_eq_bind, Option.bind_some, total]

theorem unitEscape_cons (unit : Nat) :
    unitEscape unit = '\\' :: 'u' :: (unitEscape unit).drop 2 := rfl

theorem char_range (char : Char) :
    char.toNat < 0xd800 ∨ (0xdfff < char.toNat ∧ char.toNat < 0x110000) := char.valid

theorem readUnicode_char {char : Char} (small : char.toNat < 0x10000) (rest : List Char) :
    readUnicode ((unitEscape char.toNat).drop 2 ++ rest) = some (char, rest) := by
  have range := char_range char
  simp only [readUnicode, readUnit_unitEscape small, Option.bind_eq_bind, Option.bind_some]
  rw [if_neg (by omega), if_neg (by omega), Char.ofNat_toNat]

theorem readUnicode_pair {high low : Nat} (first : 0xd800 ≤ high ∧ high < 0xdc00)
    (second : 0xdc00 ≤ low ∧ low < 0xe000) (rest : List Char) :
    readUnicode ((unitEscape high).drop 2 ++ (unitEscape low ++ rest)) =
      some (Char.ofNat (0x10000 + (high - 0xd800) * 0x400 + (low - 0xdc00)), rest) := by
  have after : readLow (unitEscape low ++ rest) = some (low, rest) := by
    rw [unitEscape_cons, List.cons_append, List.cons_append, readLow,
      readUnit_unitEscape (by omega)]
    simp only [Option.bind_eq_bind, Option.bind_some, if_pos second]
  simp only [readUnicode, readUnit_unitEscape (show high < 0x10000 by omega),
    Option.bind_eq_bind, Option.bind_some, if_pos first, after]

theorem pair_value {value : Nat} (large : 0x10000 ≤ value) :
    0x10000 + (0xd800 + (value - 0x10000) / 0x400 - 0xd800) * 0x400 +
      (0xdc00 + (value - 0x10000) % 0x400 - 0xdc00) = value := by
  have split := Nat.div_add_mod (value - 0x10000) 0x400
  omega

theorem readUnicode_large {char : Char} (large : 0x10000 ≤ char.toNat) (rest : List Char) :
    readUnicode ((unitEscape (0xd800 + (char.toNat - 0x10000) / 0x400)).drop 2 ++
      (unitEscape (0xdc00 + (char.toNat - 0x10000) % 0x400) ++ rest)) = some (char, rest) := by
  have range := char_range char
  rw [readUnicode_pair (by omega) (by omega), pair_value large, Char.ofNat_toNat]

/-- One step of the reader through an escape. -/
theorem readText_backslash {text rest : List Char} {char : Char}
    (escaped : readEscape text = some (char, rest)) (steps : Nat) :
    readText (steps + 1) ('\\' :: text) =
      (readText steps rest).map fun found => (char :: found.1, found.2) := by
  rw [readText, if_neg (by decide), if_pos rfl, escaped]
  simp only [Option.bind_eq_bind, Option.bind_some]
  cases readText steps rest <;> rfl

theorem readEscape_unicode {text rest : List Char} {char : Char}
    (read : readUnicode text = some (char, rest)) :
    readEscape ('u' :: text) = some (char, rest) := by
  simpa [readEscape] using read

/-- The reader takes back one character that the encoder wrote. -/
theorem readText_escapeChar (ascii : Bool) (char : Char) (rest : List Char) (steps : Nat) :
    readText (steps + 1) (escapeChar ascii char ++ rest) =
      (readText steps rest).map fun found => (char :: found.1, found.2) := by
  unfold escapeChar
  by_cases quote : char = '"'
  · subst quote
    rw [if_pos rfl]
    exact readText_backslash (by simp [readEscape]) steps
  rw [if_neg quote]
  by_cases backslash : char = '\\'
  · subst backslash
    rw [if_pos rfl]
    exact readText_backslash (by simp [readEscape]) steps
  rw [if_neg backslash]
  by_cases newline : char = '\n'
  · subst newline
    rw [if_pos rfl]
    exact readText_backslash (by simp [readEscape]) steps
  rw [if_neg newline]
  by_cases carriage : char = '\r'
  · subst carriage
    rw [if_pos rfl]
    exact readText_backslash (by simp [readEscape]) steps
  rw [if_neg carriage]
  by_cases tab : char = '\t'
  · subst tab
    rw [if_pos rfl]
    exact readText_backslash (by simp [readEscape]) steps
  rw [if_neg tab]
  by_cases feed : char = '\x0c'
  · subst feed
    rw [if_pos rfl]
    exact readText_backslash (by simp [readEscape]) steps
  rw [if_neg feed]
  by_cases back : char = '\x08'
  · subst back
    rw [if_pos rfl]
    exact readText_backslash (by simp [readEscape]) steps
  rw [if_neg back]
  by_cases control : char.toNat < 0x20
  · rw [if_pos control, unitEscape_cons]
    exact readText_backslash
      (readEscape_unicode (readUnicode_char (by omega) rest)) steps
  rw [if_neg control]
  by_cases coded : ascii = true ∧ 0x7e < char.toNat
  · rw [if_pos coded]
    by_cases small : char.toNat < 0x10000
    · rw [if_pos small, unitEscape_cons]
      exact readText_backslash (readEscape_unicode (readUnicode_char small rest)) steps
    · rw [if_neg small, unitEscape_cons, List.append_assoc]
      exact readText_backslash
        (readEscape_unicode (readUnicode_large (Nat.le_of_not_lt small) rest)) steps
  · rw [if_neg coded, List.singleton_append, readText, if_neg quote, if_neg backslash,
      if_neg control]
    cases readText steps rest <;> rfl

theorem escape_length (ascii : Bool) (chars : List Char) :
    chars.length ≤ (chars.flatMap (escapeChar ascii)).length := by
  induction chars with
  | nil => exact Nat.le_refl 0
  | cons char rest inductionHypothesis =>
      have some_char : 0 < (escapeChar ascii char).length := by
        unfold escapeChar
        split_ifs <;> simp [unitEscape]
      rw [List.flatMap_cons, List.length_append, List.length_cons]
      omega

/-- The reader takes back a string's payload. -/
theorem readText_escape (ascii : Bool) (chars rest : List Char) {steps : Nat}
    (enough : chars.length < steps) :
    readText steps (chars.flatMap (escapeChar ascii) ++ '"' :: rest) = some (chars, rest) := by
  induction chars generalizing steps with
  | nil =>
      obtain ⟨steps, rfl⟩ := Nat.exists_eq_add_one.mpr enough
      rw [List.flatMap_nil, List.nil_append, readText, if_pos rfl]
  | cons char more inductionHypothesis =>
      obtain ⟨steps, rfl⟩ := Nat.exists_eq_add_one.mpr (Nat.zero_lt_of_lt enough)
      rw [List.flatMap_cons, List.append_assoc, readText_escapeChar,
        inductionHypothesis (Nat.lt_of_succ_lt_succ enough), Option.map_some]

theorem readText_quoted (ascii : Bool) (value : String) (rest : List Char) :
    readText (escape ascii value ++ '"' :: rest).length (escape ascii value ++ '"' :: rest) =
      some (value.toList, rest) := by
  refine readText_escape ascii value.toList rest ?_
  have payload := escape_length ascii value.toList
  rw [List.length_append, List.length_cons, escape]
  omega

/-! ## Numbers read back -/

/-- What follows a value does not continue a number. -/
def Follows (rest : List Char) : Prop := ∀ char ∈ rest.head?, isNumberChar char = false

theorem follows_cons {char : Char} (stops : isNumberChar char = false) (rest : List Char) :
    Follows (char :: rest) := by
  intro first same
  rw [List.head?_cons, Option.mem_some_iff] at same
  rw [← same]
  exact stops

theorem takeWhile_follows {rest : List Char} (follows : Follows rest) :
    rest.takeWhile isNumberChar = [] ∧ rest.dropWhile isNumberChar = rest := by
  cases rest with
  | nil => exact ⟨rfl, rfl⟩
  | cons first rest =>
      have stops := follows first rfl
      constructor
      · rw [List.takeWhile_cons_of_neg (by simp [stops])]
      · rw [List.dropWhile_cons_of_neg (by simp [stops])]

theorem takeWhile_token {token rest : List Char} (number : token.all isNumberChar = true)
    (follows : Follows rest) :
    (token ++ rest).takeWhile isNumberChar = token ∧
      (token ++ rest).dropWhile isNumberChar = rest := by
  rw [List.all_eq_true] at number
  rw [List.takeWhile_append_of_pos number, List.dropWhile_append_of_pos number,
    (takeWhile_follows follows).1, (takeWhile_follows follows).2, List.append_nil]
  exact ⟨rfl, rfl⟩

theorem isNumberChar_of_digit {char : Char} (digit : char.isDigit = true) :
    isNumberChar char = true := by
  simp [isNumberChar, digit]

theorem natText_digits (value : Nat) : ∀ char ∈ natText value, char.isDigit = true := by
  intro char mem
  exact Nat.isDigit_of_mem_toDigits (by decide) (by decide) mem

theorem readNat_natText (value : Nat) : readNat (natText value) = some value := by
  have back : Nat.ofDigitChars 10 (natText value) 0 = value := Nat.ofDigitChars_ten_toDigits
  rw [readNat, back]
  exact if_pos rfl

theorem natText_head (value : Nat) : (natText value).head? ≠ some '-' := by
  intro minus
  have digit := natText_digits value '-' (List.mem_of_mem_head? minus)
  revert digit
  decide

theorem readInt_intText (value : Int) : readInt (intText value) = some value := by
  cases value with
  | ofNat value =>
      rw [intText, readInt, if_neg (natText_head value), readNat_natText]
      rfl
  | negSucc value =>
      rw [intText, readInt, List.head?_cons, if_pos rfl, List.tail_cons, readNat_natText]
      rfl

theorem intText_number (value : Int) : (intText value).all isNumberChar = true := by
  rw [List.all_eq_true]
  intro char mem
  cases value with
  | ofNat value => exact isNumberChar_of_digit (natText_digits value char mem)
  | negSucc value =>
      rcases List.mem_cons.mp mem with rfl | mem
      · decide
      · exact isNumberChar_of_digit (natText_digits (value + 1) char mem)

theorem intText_ne_nil (value : Int) : intText value ≠ [] := by
  cases value with
  | ofNat value => exact Nat.toDigits_ne_nil
  | negSucc value => exact List.cons_ne_nil _ _

/-- Digits alone are no fraction. -/
theorem isReal_intText (value : Int) : isReal (intText value) = false := by
  have digits (number : Nat) : (natText number).dropWhile Char.isDigit = [] := by
    rw [List.dropWhile_eq_nil_iff]
    exact natText_digits number
  cases value with
  | ofNat value =>
      simp only [isReal, intText, natText_head value, if_false, digits]
      exact Bool.and_false _
  | negSucc value =>
      simp only [isReal, intText, List.head?_cons, if_true, List.tail_cons, digits]
      exact Bool.and_false _

theorem readNumber_int (value : Int) {rest : List Char} (follows : Follows rest) :
    readNumber (intText value ++ rest) = some (.int value, rest) := by
  obtain ⟨token, after⟩ := takeWhile_token (intText_number value) follows
  simp only [readNumber, token, after, isReal_intText, Bool.false_eq_true, if_false,
    readInt_intText, Option.map_some]

/-! ## Values read back -/

/-- Real literals are numbers, and no object repeats a name. -/
inductive WellFormed : Json → Prop
  | null : WellFormed .null
  | bool (value : Bool) : WellFormed (.bool value)
  | int (value : Int) : WellFormed (.int value)
  | real (literal : String) (number : literal.toList.all isNumberChar = true)
      (valid : isReal literal.toList = true) : WellFormed (.real literal)
  | text (value : String) : WellFormed (.text value)
  | list (items : List Json) (each : ∀ item ∈ items, WellFormed item) : WellFormed (.list items)
  | object (members : List (String × Json)) (distinct : (members.map Prod.fst).Nodup)
      (each : ∀ member ∈ members, WellFormed member.2) : WellFormed (.object members)

theorem readNumber_real {literal : String} (number : literal.toList.all isNumberChar = true)
    (valid : isReal literal.toList = true) {rest : List Char} (follows : Follows rest) :
    readNumber (literal.toList ++ rest) = some (.real literal, rest) := by
  obtain ⟨token, after⟩ := takeWhile_token number follows
  simp only [readNumber, token, after, valid, if_true, String.ofList_toList]

/-- A text that begins like a value, and not with a blank or the end of a list or object. -/
def Begins (text : List Char) : Prop :=
  ∃ first rest, text = first :: rest ∧ isBlank first = false ∧ first ≠ ']' ∧ first ≠ '\x7d'

theorem Begins.skip {text : List Char} (begins : Begins text) (rest : List Char) :
    skip (text ++ rest) = text ++ rest := by
  obtain ⟨first, more, rfl, solid, _⟩ := begins
  rw [JsonReader.skip, List.cons_append, List.dropWhile_cons_of_neg (by simp [solid])]

theorem begins_number {text : List Char} (number : text.all isNumberChar = true)
    (some_char : text ≠ []) : Begins text := by
  obtain ⟨first, rest, rfl⟩ := List.exists_cons_of_ne_nil some_char
  rw [List.all_cons, Bool.and_eq_true] at number
  refine ⟨first, rest, rfl, ?_, ?_, ?_⟩
  · simp only [isBlank, Bool.or_eq_false_iff, decide_eq_false_iff_not]
    refine ⟨⟨⟨?_, ?_⟩, ?_⟩, ?_⟩ <;>
      (rintro rfl; exact absurd number.1 (by decide))
  · rintro rfl
    exact absurd number.1 (by decide)
  · rintro rfl
    exact absurd number.1 (by decide)

theorem isReal_ne_nil {token : List Char} (valid : isReal token = true) : token ≠ [] := by
  rintro rfl
  simp [isReal, isFraction, isExponent] at valid

theorem render_begins {value : Json} (formed : WellFormed value) (ascii : Bool) :
    Begins (render ascii value) := by
  cases formed with
  | null => exact ⟨'n', _, rfl, by decide, by decide, by decide⟩
  | bool value =>
      cases value with
      | false => exact ⟨'f', _, rfl, by decide, by decide, by decide⟩
      | true => exact ⟨'t', _, rfl, by decide, by decide, by decide⟩
  | int value =>
      rw [render]
      exact begins_number (intText_number value) (intText_ne_nil value)
  | real literal number valid =>
      rw [render]
      exact begins_number number (isReal_ne_nil valid)
  | text value =>
      rw [render]
      exact ⟨'"', _, rfl, by decide, by decide, by decide⟩
  | list items each =>
      cases items with
      | nil => exact ⟨'[', _, rfl, by decide, by decide, by decide⟩
      | cons item rest =>
          rw [render]
          exact ⟨'[', _, rfl, by decide, by decide, by decide⟩
  | object members distinct each =>
      cases members with
      | nil => exact ⟨'\x7b', _, rfl, by decide, by decide, by decide⟩
      | cons member rest =>
          obtain ⟨name, value⟩ := member
          rw [render]
          exact ⟨'\x7b', _, rfl, by decide, by decide, by decide⟩

/-- Steps that suffice for a value's text are not none. -/
theorem steps_succ {value : Json} (formed : WellFormed value) {ascii : Bool} {steps : Nat}
    (enough : (render ascii value).length ≤ steps) : ∃ fewer, steps = fewer + 1 := by
  obtain ⟨first, rest, begun, _⟩ := render_begins formed ascii
  rw [begun, List.length_cons] at enough
  exact Nat.exists_eq_add_one.mpr (by omega)

/-- The reader takes a value back from its text, whatever may follow. -/
def Reads (ascii : Bool) (value : Json) : Prop :=
  ∀ (rest : List Char) {steps : Nat}, Follows rest → (render ascii value).length ≤ steps →
    readValue steps (render ascii value ++ rest) = some (value, rest)

/-- A text that is a number is dispatched as one. -/
theorem readValue_number {text rest : List Char} (number : text.all isNumberChar = true)
    (some_char : text ≠ []) (steps : Nat) :
    readValue (steps + 1) (text ++ rest) = readNumber (text ++ rest) := by
  obtain ⟨first, more, rfl⟩ := List.exists_cons_of_ne_nil some_char
  rw [List.all_cons, Bool.and_eq_true] at number
  have other (char : Char) (no_number : isNumberChar char = false) : first ≠ char := by
    rintro rfl
    rw [no_number] at number
    exact absurd number.1 (by decide)
  rw [List.cons_append, readValue, if_neg (other '"' (by decide)),
    if_neg (other '[' (by decide)), if_neg (other '\x7b' (by decide)),
    if_neg (other 'n' (by decide)), if_neg (other 't' (by decide)),
    if_neg (other 'f' (by decide))]

section Compound

variable {ascii : Bool}

theorem head_tail (char : Char) (rest : List Char) (solid : isBlank char = false) :
    (skip (char :: rest)).head? = some char ∧ (skip (char :: rest)).tail = rest := by
  rw [skip, List.dropWhile_cons_of_neg (by simp [solid])]
  exact ⟨rfl, rfl⟩

theorem renderItems_follows (items : List Json) (rest : List Char) :
    Follows (renderItems ascii items ++ rest) := by
  cases items with
  | nil => exact follows_cons (by decide) rest
  | cons item items =>
      rw [renderItems]
      exact follows_cons (by decide) _

theorem renderMembers_follows (members : List (String × Json)) (rest : List Char) :
    Follows (renderMembers ascii members ++ rest) := by
  cases members with
  | nil => exact follows_cons (by decide) rest
  | cons member members =>
      obtain ⟨name, value⟩ := member
      rw [renderMembers]
      exact follows_cons (by decide) _

theorem readItems_render (rest : List Char) (items : List Json) {item : Json}
    (begins : ∀ value ∈ items, Begins (render ascii value))
    (reads : ∀ value ∈ item :: items, Reads ascii value) {steps : Nat}
    (enough : (render ascii item ++ renderItems ascii items).length ≤ steps) :
    readItems steps (render ascii item ++ (renderItems ascii items ++ rest)) =
      some (item :: items, rest) := by
  induction items generalizing item steps with
  | nil =>
      rw [renderItems, List.length_append, List.length_singleton] at enough
      obtain ⟨steps, rfl⟩ := Nat.exists_eq_add_one.mpr (show 0 < steps by omega)
      obtain ⟨head, tail⟩ := head_tail ']' rest (by decide)
      rw [readItems, reads item List.mem_cons_self _ (renderItems_follows [] rest) (by omega),
        renderItems, List.singleton_append]
      simp only [Option.bind_eq_bind, Option.bind_some, head, tail]
      rw [if_neg (by decide), if_true]
  | cons next items inductionHypothesis =>
      rw [renderItems, List.length_append, List.length_cons] at enough
      obtain ⟨steps, rfl⟩ := Nat.exists_eq_add_one.mpr (show 0 < steps by omega)
      have more := inductionHypothesis
        (fun value mem => begins value (List.mem_cons_of_mem next mem))
        (fun value mem => reads value (List.mem_cons_of_mem item mem))
        (show (render ascii next ++ renderItems ascii items).length ≤ steps by omega)
      obtain ⟨head, tail⟩ := head_tail ','
        (render ascii next ++ (renderItems ascii items ++ rest)) (by decide)
      rw [readItems,
        reads item List.mem_cons_self _ (renderItems_follows (next :: items) rest) (by omega),
        renderItems, List.cons_append, List.append_assoc]
      simp only [Option.bind_eq_bind, Option.bind_some, head, tail, if_true,
        (begins next List.mem_cons_self).skip, more]

theorem readName_quoted (name : String) {text : List Char} (begins : Begins text)
    (rest : List Char) :
    readName (quoted ascii name ++ ':' :: (text ++ rest)) = some (name, text ++ rest) := by
  obtain ⟨head, tail⟩ := head_tail ':' (text ++ rest) (by decide)
  have next := begins.skip rest
  rw [quoted, List.cons_append, List.append_assoc, List.singleton_append, readName]
  simp only [if_true, readText_quoted, Option.bind_eq_bind, Option.bind_some, head, tail, next,
    String.ofList_toList]

theorem quoted_begins (name : String) : Begins (quoted ascii name) :=
  ⟨'"', _, rfl, by decide, by decide, by decide⟩

theorem readMembers_render (rest : List Char) (members : List (String × Json))
    (member : String × Json)
    (begins : ∀ value ∈ member :: members, Begins (render ascii value.2))
    (reads : ∀ value ∈ member :: members, Reads ascii value.2) {steps : Nat}
    (enough : (render ascii member.2 ++ renderMembers ascii members).length ≤ steps) :
    readMembers steps (quoted ascii member.1 ++
        ':' :: (render ascii member.2 ++ (renderMembers ascii members ++ rest))) =
      some (member :: members, rest) := by
  induction members generalizing member steps with
  | nil =>
      rw [renderMembers, List.length_append, List.length_singleton] at enough
      obtain ⟨steps, rfl⟩ := Nat.exists_eq_add_one.mpr (show 0 < steps by omega)
      obtain ⟨head, tail⟩ := head_tail '\x7d' rest (by decide)
      rw [readMembers, readName_quoted member.1 (begins member List.mem_cons_self)]
      simp only [Option.bind_eq_bind, Option.bind_some]
      rw [reads member List.mem_cons_self _ (renderMembers_follows [] rest) (by omega),
        renderMembers, List.singleton_append]
      simp only [Option.bind_some, head, tail]
      rw [if_neg (by decide), if_true]
  | cons next members inductionHypothesis =>
      obtain ⟨name, value⟩ := next
      rw [renderMembers, List.length_append, List.length_cons, List.length_append,
        List.length_cons] at enough
      obtain ⟨steps, rfl⟩ := Nat.exists_eq_add_one.mpr (show 0 < steps by omega)
      have more := inductionHypothesis (name, value)
        (fun other mem => begins other (List.mem_cons_of_mem member mem))
        (fun other mem => reads other (List.mem_cons_of_mem member mem))
        (show (render ascii value ++ renderMembers ascii members).length ≤ steps by omega)
      obtain ⟨head, tail⟩ := head_tail ',' (quoted ascii name ++
        ':' :: (render ascii value ++ (renderMembers ascii members ++ rest))) (by decide)
      rw [readMembers, readName_quoted member.1 (begins member List.mem_cons_self)]
      simp only [Option.bind_eq_bind, Option.bind_some]
      rw [reads member List.mem_cons_self _
          (renderMembers_follows ((name, value) :: members) rest) (by omega),
        renderMembers, List.cons_append, List.append_assoc, List.cons_append, List.append_assoc]
      simp only [Option.bind_some, head, tail, if_true, (quoted_begins name).skip, more]

theorem foldl_assign (members found : List (String × Json))
    (distinct : ((found ++ members).map Prod.fst).Nodup) :
    members.foldl assign found = found ++ members := by
  induction members generalizing found with
  | nil => rw [List.foldl_nil, List.append_nil]
  | cons member rest inductionHypothesis =>
      have fresh : member.1 ∉ found.map Prod.fst := by
        rw [List.map_append, List.map_cons, List.nodup_append] at distinct
        intro mem
        exact distinct.2.2 _ mem _ List.mem_cons_self rfl
      rw [List.append_cons] at distinct
      rw [List.foldl_cons, assign, if_neg fresh, inductionHypothesis _ distinct,
        List.append_assoc, List.singleton_append]

end Compound

/-- The reader takes back every well-formed value. -/
theorem readValue_render (ascii : Bool) {value : Json} (formed : WellFormed value) :
    Reads ascii value := by
  induction formed with
  | null =>
      intro rest steps follows enough
      obtain ⟨steps, rfl⟩ := steps_succ .null enough
      simp [render, readValue, afterLiteral]
  | bool value =>
      intro rest steps follows enough
      obtain ⟨steps, rfl⟩ := steps_succ (.bool value) enough
      cases value <;> simp [render, readValue, afterLiteral]
  | int value =>
      intro rest steps follows enough
      obtain ⟨steps, rfl⟩ := steps_succ (.int value) enough
      rw [render, readValue_number (intText_number value) (intText_ne_nil value),
        readNumber_int value follows]
  | real literal number valid =>
      intro rest steps follows enough
      obtain ⟨steps, rfl⟩ := steps_succ (.real literal number valid) enough
      rw [render, readValue_number number (isReal_ne_nil valid),
        readNumber_real number valid follows]
  | text value =>
      intro rest steps follows enough
      obtain ⟨steps, rfl⟩ := steps_succ (.text value) enough
      rw [render, quoted, List.cons_append, List.append_assoc, List.singleton_append, readValue,
        if_pos rfl, readText_quoted, Option.map_some, String.ofList_toList]
  | list items each inductionHypothesis =>
      intro rest steps follows enough
      cases items with
      | nil =>
          obtain ⟨steps, rfl⟩ := steps_succ (.list [] each) enough
          obtain ⟨head, tail⟩ := head_tail ']' rest (by decide)
          rw [render, List.cons_append, List.singleton_append, readValue, if_neg (by decide),
            if_pos rfl, if_pos head, tail]
      | cons item items =>
          rw [render, List.length_cons] at enough
          obtain ⟨steps, rfl⟩ := Nat.exists_eq_add_one.mpr (show 0 < steps by omega)
          have begins (other : Json) (mem : other ∈ item :: items) :=
            render_begins (each other mem) ascii
          have read := readItems_render rest items
            (fun other mem => begins other (List.mem_cons_of_mem item mem)) inductionHypothesis
            (show (render ascii item ++ renderItems ascii items).length ≤ steps by omega)
          obtain ⟨first, more, begun, _, no_end, _⟩ := begins item List.mem_cons_self
          have open_list : (render ascii item ++ (renderItems ascii items ++ rest)).head? ≠
              some ']' := by
            rw [begun]
            simpa using no_end
          rw [render, List.cons_append, List.append_assoc, readValue, if_neg (by decide),
            if_pos rfl, (begins item List.mem_cons_self).skip, if_neg open_list, read]
          rfl
  | object members distinct each inductionHypothesis =>
      intro rest steps follows enough
      cases members with
      | nil =>
          obtain ⟨steps, rfl⟩ := steps_succ (.object [] distinct each) enough
          obtain ⟨head, tail⟩ := head_tail '\x7d' rest (by decide)
          rw [render, List.cons_append, List.singleton_append, readValue, if_neg (by decide),
            if_neg (by decide), if_pos rfl, if_pos head, tail]
      | cons member members =>
          obtain ⟨name, value⟩ := member
          rw [render, List.length_cons, List.length_append, List.length_cons] at enough
          obtain ⟨steps, rfl⟩ := Nat.exists_eq_add_one.mpr (show 0 < steps by omega)
          have begins (other : String × Json) (mem : other ∈ (name, value) :: members) :=
            render_begins (each other mem) ascii
          have read := readMembers_render rest members (name, value)
            begins inductionHypothesis
            (show (render ascii value ++ renderMembers ascii members).length ≤ steps by omega)
          have open_object : (quoted ascii name ++ ':' ::
              (render ascii value ++ (renderMembers ascii members ++ rest))).head? ≠
              some '\x7d' := by
            rw [quoted, List.cons_append, List.head?_cons]
            decide
          rw [render, List.cons_append, List.append_assoc, List.cons_append, List.append_assoc,
            readValue, if_neg (by decide), if_neg (by decide), if_pos rfl,
            (quoted_begins name).skip, if_neg open_object, read, Option.map_some]
          simp only [foldl_assign ((name, value) :: members) [] distinct, List.nil_append]

/-- Reading inverts writing. -/
theorem loads_render (ascii : Bool) {value : Json} (formed : WellFormed value) :
    loads (render ascii value) = some value := by
  have begins := (render_begins formed ascii).skip []
  have read := readValue_render ascii formed [] (by rintro char ⟨⟩)
    (Nat.le_succ (render ascii value).length)
  rw [List.append_nil] at begins read
  have ended : skip [] = [] := rfl
  simp only [loads, begins, read, Option.bind_eq_bind, Option.bind_some, ended, if_true]

theorem render_injective {ascii : Bool} {value other : Json} (formed : WellFormed value)
    (formed_other : WellFormed other) (same : render ascii value = render ascii other) :
    value = other := by
  have read := loads_render ascii formed
  rw [same, loads_render ascii formed_other] at read
  exact (Option.some.inj read).symm

end ShadowSpill.Library.JsonReader
