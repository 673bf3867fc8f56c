import Mathlib

/-!
# Names as positions, and rows as one column

A table of names resolves a name to its position, and a column of names to a column of
positions.  Ragged rows become one column of values and the offsets at which the rows start.
Neither loses anything: the table reads the names back, and the offsets cut the rows apart.
-/

namespace ShadowSpill.Library.NameTables

variable {α β γ Name : Type}

/-! ## Columns -/

/-- Every value has its result, in order. -/
theorem mapM_eq_some {f : α → Option β} {values : List α} {results : List β} :
    values.mapM f = some results ↔ values.map f = results.map some := by
  induction values generalizing results with
  | nil =>
      rw [List.mapM_nil, List.map_nil, eq_comm, @eq_comm _ [], List.map_eq_nil_iff]
      exact Option.some_inj
  | cons value rest inductionHypothesis =>
      rw [List.mapM_cons, List.map_cons]
      cases results with
      | nil =>
          simp [Option.bind_eq_some_iff]
      | cons result results =>
          simp only [Option.bind_eq_bind, Option.bind_eq_some_iff, Option.pure_def,
            Option.some_inj, List.cons.injEq, List.map_cons, ← inductionHypothesis]
          constructor
          · rintro ⟨_, here, _, others, rfl, rfl⟩
            exact ⟨here, others⟩
          · rintro ⟨here, others⟩
            exact ⟨result, here, results, others, rfl, rfl⟩

theorem mapM_injective {f : α → Option β}
    (injective : ∀ {value other result}, f value = some result → f other = some result →
      value = other)
    {values others : List α} {results : List β} (first : values.mapM f = some results)
    (second : others.mapM f = some results) : values = others := by
  rw [mapM_eq_some] at first second
  induction results generalizing values others with
  | nil =>
      rw [List.map_eq_nil_iff.mp first, List.map_eq_nil_iff.mp second]
  | cons result rest inductionHypothesis =>
      obtain ⟨value, values, rfl, here, more⟩ := List.map_eq_cons_iff.mp first
      obtain ⟨other, others, rfl, there, others_more⟩ := List.map_eq_cons_iff.mp second
      rw [injective here there, inductionHypothesis more others_more]

theorem mapM_isSome {f : α → Option β} {values : List α}
    (each : ∀ value ∈ values, (f value).isSome) : ∃ results, values.mapM f = some results := by
  induction values with
  | nil => exact ⟨[], rfl⟩
  | cons value rest inductionHypothesis =>
      obtain ⟨result, here⟩ := Option.isSome_iff_exists.mp (each value List.mem_cons_self)
      obtain ⟨results, others⟩ := inductionHypothesis fun other mem =>
        each other (List.mem_cons_of_mem value mem)
      exact ⟨result :: results, by rw [List.mapM_cons, here, others]; rfl⟩

theorem mem_of_mapM {f : α → Option β} {values : List α} {results : List β} {result : β}
    (found : values.mapM f = some results) (mem : result ∈ results) :
    ∃ value ∈ values, f value = some result := by
  have also : some result ∈ values.map f := by
    rw [mapM_eq_some.mp found]
    exact List.mem_map_of_mem mem
  exact List.mem_map.mp also

theorem length_of_mapM {f : α → Option β} {values : List α} {results : List β}
    (found : values.mapM f = some results) : results.length = values.length := by
  have lengths := congrArg List.length (mapM_eq_some.mp found)
  rw [List.length_map, List.length_map] at lengths
  exact lengths.symm

/-- Two columns of a list of records are one column of pairs. -/
theorem map_pair {values others : List α} {f : α → β} {g : α → γ}
    (first : values.map f = others.map f) (second : values.map g = others.map g) :
    values.map (fun value => (f value, g value)) =
      others.map fun value => (f value, g value) := by
  induction values generalizing others with
  | nil =>
      rw [List.map_nil, eq_comm, List.map_eq_nil_iff] at first
      rw [first]
  | cons value rest inductionHypothesis =>
      cases others with
      | nil => cases first
      | cons other others =>
          rw [List.map_cons, List.map_cons, List.cons.injEq] at first second
          rw [List.map_cons, List.map_cons, first.1, second.1,
            inductionHypothesis first.2 second.2]

/-- What the values of one column determine is a column too. -/
theorem map_of_map {values others : List α} {f : α → β} {g : α → γ}
    (same : values.map f = others.map f)
    (determines : ∀ {value other}, f value = f other → g value = g other) :
    values.map g = others.map g := by
  induction values generalizing others with
  | nil =>
      rw [List.map_nil, eq_comm, List.map_eq_nil_iff] at same
      rw [same]
  | cons value rest inductionHypothesis =>
      cases others with
      | nil => cases same
      | cons other others =>
          rw [List.map_cons, List.map_cons, List.cons.injEq] at same
          rw [List.map_cons, List.map_cons, determines same.1, inductionHypothesis same.2]

/-! ## Positions -/

section Positions

variable [DecidableEq Name]

/-- The dictionary from each name to its index: a later entry replaces an earlier one. -/
def positionFrom : Nat → List Name → Name → Option Nat
  | _, [], _ => none
  | index, head :: rest, name =>
    (positionFrom (index + 1) rest name).or (if head = name then some index else none)

def position (table : List Name) (name : Name) : Option Nat := positionFrom 0 table name

theorem positionFrom_some {table : List Name} {name : Name} {start index : Nat}
    (found : positionFrom start table name = some index) :
    start ≤ index ∧ table[index - start]? = some name := by
  induction table generalizing start with
  | nil => cases found
  | cons head rest inductionHypothesis =>
      unfold positionFrom at found
      rcases Option.or_eq_some_iff.mp found with later | ⟨_, here⟩
      · obtain ⟨after, there⟩ := inductionHypothesis later
        refine ⟨by omega, ?_⟩
        rw [show index - start = (index - (start + 1)) + 1 by omega, List.getElem?_cons_succ]
        exact there
      · split at here
        case isTrue same =>
          cases here
          rw [Nat.sub_self, List.getElem?_cons_zero, same]
          exact ⟨Nat.le_refl _, rfl⟩
        case isFalse => cases here

/-- The table reads the name back. -/
theorem getElem?_position {table : List Name} {name : Name} {index : Nat}
    (found : position table name = some index) : table[index]? = some name :=
  (positionFrom_some found).2

theorem position_lt {table : List Name} {name : Name} {index : Nat}
    (found : position table name = some index) : index < table.length :=
  (List.getElem?_eq_some_iff.mp (getElem?_position found)).1

theorem position_injective {table : List Name} {name other : Name} {index : Nat}
    (first : position table name = some index) (second : position table other = some index) :
    name = other :=
  Option.some_inj.mp ((getElem?_position first).symm.trans (getElem?_position second))

theorem position_isSome {table : List Name} {name : Name} (mem : name ∈ table) :
    (position table name).isSome := by
  unfold position
  generalize 0 = start
  induction table generalizing start with
  | nil => cases mem
  | cons head rest inductionHypothesis =>
      unfold positionFrom
      rw [Option.isSome_or, Bool.or_eq_true]
      rcases List.mem_cons.mp mem with rfl | later
      · rw [if_pos rfl]
        exact Or.inr rfl
      · exact Or.inl (inductionHypothesis later (start + 1))

/-- A column of names as a column of positions. -/
def positions (table names : List Name) : Option (List Nat) := names.mapM (position table)

theorem positions_injective {table names others : List Name} {column : List Nat}
    (first : positions table names = some column)
    (second : positions table others = some column) : names = others :=
  mapM_injective position_injective first second

theorem positions_lt {table names : List Name} {column : List Nat}
    (found : positions table names = some column) : ∀ index ∈ column, index < table.length := by
  intro index mem
  obtain ⟨_, _, here⟩ := mem_of_mapM found mem
  exact position_lt here

theorem positions_isSome {table names : List Name} (known : ∀ name ∈ names, name ∈ table) :
    ∃ column, positions table names = some column :=
  mapM_isSome fun name mem => position_isSome (known name mem)

end Positions

/-! ## Ragged rows -/

/-- The values gain a row, and the offsets where it ends. -/
def packRow (packed : List Nat × List α) (row : List α) : List Nat × List α :=
  (packed.1 ++ [(packed.2 ++ row).length], packed.2 ++ row)

/-- Pack ragged rows into one values array and its row offsets. -/
def flattenRows (rows : List (List α)) : List Nat × List α :=
  rows.foldl packRow ([0], [])

/-- Where rows start, and where the last one ends. -/
def rowOffsets (rows : List (List α)) : List Nat :=
  (rows.map List.length).scanl (· + ·) 0

theorem flattenRows_eq (rows : List (List α)) :
    flattenRows rows = (rowOffsets rows, rows.flatten) := by
  suffices packs : ∀ (before : List Nat) (values : List α),
      rows.foldl packRow (before ++ [values.length], values) =
        (before ++ (rows.map List.length).scanl (· + ·) values.length,
          values ++ rows.flatten) from packs [] []
  induction rows with
  | nil => simp
  | cons row rest inductionHypothesis =>
      intro before values
      have after := inductionHypothesis (before ++ [values.length]) (values ++ row)
      rw [List.foldl_cons, packRow, after, List.map_cons, List.scanl_cons, List.flatten_cons,
        List.length_append, List.append_assoc, List.append_assoc, List.singleton_append]

/-- A row of packed rows. -/
def rowAt (packed : List Nat × List α) (index : Nat) : List α :=
  let first := packed.1.getD index 0
  (packed.2.drop first).take (packed.1.getD (index + 1) 0 - first)

theorem rowAt_flattenRows {rows : List (List α)} {index : Nat} {row : List α}
    (found : rows[index]? = some row) : rowAt (flattenRows rows) index = row := by
  suffices cut : ∀ values : List α,
      let offsets := (rows.map List.length).scanl (· + ·) values.length
      ((values ++ rows.flatten).drop (offsets.getD index 0)).take
        (offsets.getD (index + 1) 0 - offsets.getD index 0) = row by
    rw [flattenRows_eq]
    exact cut []
  induction rows generalizing index with
  | nil => simp at found
  | cons head rest inductionHypothesis =>
      intro values
      cases index with
      | zero =>
          cases found
          cases rest <;> simp
      | succ index =>
          have later := inductionHypothesis (by simpa using found) (values ++ head)
          simpa using later

theorem scanl_add_injective {lengths others : List Nat} {start : Nat}
    (same : lengths.scanl (· + ·) start = others.scanl (· + ·) start) : lengths = others := by
  induction lengths generalizing others start with
  | nil =>
      cases others with
      | nil => rfl
      | cons other rest => simp at same
  | cons length rest inductionHypothesis =>
      cases others with
      | nil => simp at same
      | cons other others =>
          rw [List.scanl_cons, List.scanl_cons, List.cons.injEq] at same
          have heads := congrArg List.head? same.2
          rw [List.head?_scanl, List.head?_scanl, Option.some_inj] at heads
          have lengths : length = other := by omega
          subst lengths
          rw [inductionHypothesis same.2]

/-- The offsets cut the rows apart again. -/
theorem flattenRows_injective {rows others : List (List α)}
    (same : flattenRows rows = flattenRows others) : rows = others := by
  rw [flattenRows_eq, flattenRows_eq, Prod.mk.injEq] at same
  exact List.eq_iff_flatten_eq.mpr ⟨same.2, scanl_add_injective same.1⟩

/-- Rows of which one column is kept in rows and another in one piece. -/
theorem rows_of_columns {rows others : List (List α)} {f : α → β} {g : α → γ}
    (ragged : rows.map (List.map f) = others.map (List.map f))
    (packed : rows.flatten.map g = others.flatten.map g)
    (determines : ∀ {value other}, f value = f other → g value = g other → value = other) :
    rows = others := by
  rw [List.eq_iff_flatten_eq]
  constructor
  · have together := congrArg List.flatten ragged
    rw [← List.map_flatten, ← List.map_flatten] at together
    refine List.map_injective_iff.mpr ?_ (map_pair together packed)
    intro value other same
    rw [Prod.mk.injEq] at same
    exact determines same.1 same.2
  · have lengths := congrArg (List.map List.length) ragged
    rw [List.map_map, List.map_map] at lengths
    refine (map_of_map lengths ?_)
    intro row other same
    simpa using same

/-- Offsets of rows: one more than there are rows, ascending from zero to where the values
end. -/
structure Delimits (offsets : List Nat) (rows length : Nat) : Prop where
  count : offsets.length = rows + 1
  first : offsets.head? = some 0
  last : offsets.getLast? = some length
  ascending : offsets.Pairwise (· ≤ ·)

theorem scanl_add_ascending (lengths : List Nat) (start : Nat) :
    (lengths.scanl (· + ·) start).Pairwise (· ≤ ·) ∧
      (∀ offset ∈ lengths.scanl (· + ·) start, start ≤ offset) ∧
      (lengths.scanl (· + ·) start).getLast? = some (start + lengths.sum) := by
  induction lengths generalizing start with
  | nil => simp
  | cons length rest inductionHypothesis =>
      obtain ⟨ascending, above, last⟩ := inductionHypothesis (start + length)
      rw [List.scanl_cons, List.pairwise_cons, List.sum_cons]
      refine ⟨⟨?_, ascending⟩, ?_, ?_⟩
      · intro offset mem
        have bound := above offset mem
        omega
      · intro offset mem
        rcases List.mem_cons.mp mem with rfl | later
        · exact Nat.le_refl _
        · have bound := above offset later
          omega
      · rw [List.getLast?_cons, last, Option.getD_some, Nat.add_assoc]

theorem rowOffsets_delimits (rows : List (List α)) :
    Delimits (rowOffsets rows) rows.length rows.flatten.length := by
  obtain ⟨ascending, _, last⟩ := scanl_add_ascending (rows.map List.length) 0
  constructor
  case count => rw [rowOffsets, List.length_scanl, List.length_map]
  case first => exact List.head?_scanl
  case last => rw [rowOffsets, last, Nat.zero_add, List.length_flatten]
  case ascending => exact ascending

/-- Rows of names as positions, packed. -/
def flattenStrings [DecidableEq Name] (rows : List (List Name)) (table : List Name) :
    Option (List Nat × List Nat) :=
  rows.foldlM (fun packed row => (positions table row).map (packRow packed)) ([0], [])

section Strings

variable [DecidableEq Name] {rows others : List (List Name)} {table : List Name}
  {packed : List Nat × List Nat}

theorem flattenStrings_eq (rows : List (List Name)) (table : List Name) :
    flattenStrings rows table = (rows.mapM (positions table)).map flattenRows := by
  suffices folds : ∀ start : List Nat × List Nat,
      rows.foldlM (fun packed row => (positions table row).map (packRow packed)) start =
        (rows.mapM (positions table)).map (List.foldl packRow start) from folds ([0], [])
  induction rows with
  | nil => exact fun _ => rfl
  | cons row rest inductionHypothesis =>
      intro start
      rw [List.foldlM_cons, List.mapM_cons]
      cases positions table row with
      | none => rfl
      | some found =>
          refine (inductionHypothesis (packRow start found)).trans ?_
          cases rest.mapM (positions table) <;> rfl

theorem flattenStrings_some (found : flattenStrings rows table = some packed) :
    ∃ resolved, rows.mapM (positions table) = some resolved ∧ flattenRows resolved = packed := by
  rw [flattenStrings_eq, Option.map_eq_some_iff] at found
  exact found

theorem flattenStrings_injective (first : flattenStrings rows table = some packed)
    (second : flattenStrings others table = some packed) : rows = others := by
  obtain ⟨resolved, here, packs⟩ := flattenStrings_some first
  obtain ⟨resolvedOthers, there, packsOthers⟩ := flattenStrings_some second
  have same := flattenRows_injective (packs.trans packsOthers.symm)
  subst same
  exact mapM_injective positions_injective here there

theorem flattenStrings_lt (found : flattenStrings rows table = some packed) :
    ∀ index ∈ packed.2, index < table.length := by
  obtain ⟨resolved, here, rfl⟩ := flattenStrings_some found
  rw [flattenRows_eq]
  intro index mem
  obtain ⟨row, inResolved, inRow⟩ := List.mem_flatten.mp mem
  obtain ⟨_, _, there⟩ := mem_of_mapM here inResolved
  exact positions_lt there index inRow

theorem flattenStrings_delimits (found : flattenStrings rows table = some packed) :
    Delimits packed.1 rows.length packed.2.length := by
  obtain ⟨resolved, here, rfl⟩ := flattenStrings_some found
  rw [flattenRows_eq, ← length_of_mapM here]
  exact rowOffsets_delimits resolved

theorem lengths_of_mapM {resolved : List (List Nat)}
    (found : rows.mapM (positions table) = some resolved) :
    resolved.map List.length = rows.map List.length := by
  induction rows generalizing resolved with
  | nil =>
      cases found
      rfl
  | cons row rest inductionHypothesis =>
      obtain ⟨first, others, rfl, here, there⟩ :=
        List.map_eq_cons_iff.mp (mapM_eq_some.mp found).symm
      rw [List.map_cons, List.map_cons, length_of_mapM here.symm,
        inductionHypothesis (mapM_eq_some.mpr there.symm)]

theorem flattenStrings_length (found : flattenStrings rows table = some packed) :
    packed.2.length = rows.flatten.length := by
  obtain ⟨resolved, here, rfl⟩ := flattenStrings_some found
  rw [flattenRows_eq, List.length_flatten, List.length_flatten, lengths_of_mapM here]

theorem flattenStrings_isSome (known : ∀ row ∈ rows, ∀ name ∈ row, name ∈ table) :
    ∃ packed, flattenStrings rows table = some packed := by
  obtain ⟨resolved, here⟩ := @mapM_isSome _ _ (positions table) rows fun row mem =>
    Option.isSome_iff_exists.mpr (positions_isSome (known row mem))
  exact ⟨flattenRows resolved, by rw [flattenStrings_eq, here]; rfl⟩

end Strings

end ShadowSpill.Library.NameTables
