import Mathlib.Algebra.BigOperators.Intervals
import Mathlib.Algebra.Order.BigOperators.Group.Finset
import Mathlib.Data.List.GetD
import Mathlib.Logic.Function.Basic

/-!
# Rows packed in one array

Rows of elements share one flat array.  Each row has a room, which starts at its offset
and ends at the next row's, and is filled at its own cursor.  An element may merge into
the last one of its row.  Packing moves every row down until no room has a gap; the
offsets alone delimit the rows then.
-/

namespace ShadowSpill.Library.PackedRows

variable {α : Type}

/-! ## Lists that merge at their end -/

/-- Append an element, or merge it into the last one. -/
def recordInto (merge : α → α → Option α) (values : List α) (value : α) : List α :=
  match values.getLast? with
  | none => values ++ [value]
  | some last =>
    match merge last value with
    | none => values ++ [value]
    | some merged => values.dropLast ++ [merged]

section Lists

variable {merge : α → α → Option α}

@[simp] theorem recordInto_nil (value : α) : recordInto merge [] value = [value] := rfl

theorem recordInto_merged {earlier : List α} {last value merged : α}
    (merges : merge last value = some merged) :
    recordInto merge (earlier ++ [last]) value = earlier ++ [merged] := by
  simp [recordInto, merges]

theorem recordInto_appended {earlier : List α} {last value : α}
    (apart : merge last value = none) :
    recordInto merge (earlier ++ [last]) value = earlier ++ [last] ++ [value] := by
  simp [recordInto, apart]

theorem length_recordInto_le (merge : α → α → Option α) (values : List α) (value : α) :
    (recordInto merge values value).length ≤ values.length + 1 := by
  rcases List.eq_nil_or_concat values with rfl | ⟨earlier, last, rfl⟩
  · simp
  · rw [List.concat_eq_append]
    cases merges : merge last value with
    | none => simp [recordInto_appended merges]
    | some merged => simp [recordInto_merged merges]

/-- The whole list, merged at its end element by element. -/
def mergedList (merge : α → α → Option α) (values : List α) : List α :=
  values.foldl (recordInto merge) []

theorem mergedList_concat (values : List α) (value : α) :
    mergedList merge (values ++ [value]) = recordInto merge (mergedList merge values) value := by
  simp [mergedList]

/-- Two elements merge exactly when they have the same key, and keep it. -/
structure MergesByKey {κ : Type} (merge : α → α → Option α) (key : α → κ) : Prop where
  merged : ∀ {last value result : α}, merge last value = some result →
    key last = key value ∧ key result = key value
  apart : ∀ {last value : α}, merge last value = none → key last ≠ key value

section Keys

variable {κ : Type} {key : α → κ}

/-- Merging keeps the key of the last element. -/
theorem MergesByKey.getLast?_key (byKey : MergesByKey merge key) (values : List α) :
    (mergedList merge values).getLast?.map key = values.getLast?.map key := by
  induction values using List.reverseRecOn with
  | nil => rfl
  | append_singleton values value _ =>
    rw [mergedList_concat]
    rcases List.eq_nil_or_concat (mergedList merge values) with empty | ⟨earlier, last, split⟩
    · simp [empty]
    · rw [split, List.concat_eq_append]
      cases merges : merge last value with
      | none => simp [recordInto_appended merges]
      | some result => simp [recordInto_merged merges, (byKey.merged merges).2]

/-- Merging keeps the keys. -/
theorem MergesByKey.mem_keys (byKey : MergesByKey merge key) (values : List α) (sought : κ) :
    sought ∈ (mergedList merge values).map key ↔ sought ∈ values.map key := by
  induction values using List.reverseRecOn with
  | nil => rfl
  | append_singleton values value inductionHypothesis =>
    rw [mergedList_concat, List.map_append, List.mem_append, ← inductionHypothesis]
    rcases List.eq_nil_or_concat (mergedList merge values) with empty | ⟨earlier, last, split⟩
    · simp [empty]
    · rw [split, List.concat_eq_append]
      cases merges : merge last value with
      | none => simp [recordInto_appended merges, or_assoc]
      | some result =>
        rcases byKey.merged merges with ⟨sameLast, sameResult⟩
        simp [recordInto_merged merges, sameLast, sameResult]

/-- The merged keys ascend strictly exactly when the keys arrive in order. -/
theorem MergesByKey.pairwise_lt_iff [LinearOrder κ] (byKey : MergesByKey merge key)
    (values : List α) :
    ((mergedList merge values).map key).Pairwise (· < ·) ↔
      (values.map key).Pairwise (· ≤ ·) := by
  induction values using List.reverseRecOn with
  | nil => exact iff_of_true List.Pairwise.nil List.Pairwise.nil
  | append_singleton values value inductionHypothesis =>
    have lastKey := byKey.getLast?_key values
    have keys := byKey.mem_keys values
    have ordered : (values.map key ++ [key value]).Pairwise (· ≤ ·) ↔
        (values.map key).Pairwise (· ≤ ·) ∧ ∀ earlier ∈ values.map key, earlier ≤ key value := by
      simp [List.pairwise_append]
    rw [mergedList_concat, List.map_append, List.map_singleton, ordered, ← inductionHypothesis]
    rcases List.eq_nil_or_concat (mergedList merge values) with empty | ⟨earlier, last, split⟩
    · have none : values.map key = [] := by
        apply List.eq_nil_iff_forall_not_mem.mpr
        intro sought
        rw [← keys sought, empty]
        exact List.not_mem_nil
      simp [empty, none]
    · rw [List.concat_eq_append] at split
      simp only [split, List.map_append, List.map_singleton, List.mem_append,
        List.mem_singleton] at keys
      rw [split]
      -- The last key bounds the others exactly when they ascend.
      have bounded : ((earlier ++ [last]).map key).Pairwise (· < ·) → key last ≤ key value →
          ∀ sought ∈ values.map key, sought ≤ key value := by
        intro ascending below sought mem
        rw [List.map_append, List.map_singleton, List.pairwise_append] at ascending
        rcases (keys sought).mpr mem with before | rfl
        · exact (ascending.2.2 sought before _ (List.mem_singleton_self _)).le.trans below
        · exact below
      have lastMem : key last ∈ values.map key := (keys _).mp (Or.inr rfl)
      cases merges : merge last value with
      | none =>
        rw [recordInto_appended merges, List.map_append, List.map_singleton]
        constructor
        · intro ascending
          have parts := List.pairwise_append.mp ascending
          have below := parts.2.2 (key last) (by simp) _ (List.mem_singleton_self _)
          exact ⟨parts.1, bounded parts.1 below.le⟩
        · rintro ⟨ascending, bound⟩
          refine List.pairwise_append.mpr ⟨ascending, List.pairwise_singleton _ _, ?_⟩
          have below := lt_of_le_of_ne (bound _ lastMem) (byKey.apart merges)
          intro sought mem _ isValue
          rw [List.mem_singleton.mp isValue]
          rw [List.map_append, List.map_singleton, List.mem_append, List.mem_singleton] at mem
          rw [List.map_append, List.map_singleton, List.pairwise_append] at ascending
          rcases mem with before | rfl
          · exact (ascending.2.2 sought before _ (List.mem_singleton_self _)).trans below
          · exact below
      | some result =>
        rcases byKey.merged merges with ⟨sameLast, sameResult⟩
        rw [recordInto_merged merges]
        have sameKeys : (earlier ++ [result]).map key = (earlier ++ [last]).map key := by
          simp [sameLast, sameResult]
        rw [sameKeys]
        exact ⟨fun ascending => ⟨ascending, bounded ascending sameLast.le⟩, And.left⟩

end Keys

end Lists

/-! ## Rooms -/

/-- The flat array, with the start of each row's room and its cursor. -/
structure Rooms (α : Type) where
  offset : Nat → Nat
  cursor : Nat → Nat
  cells : Nat → α

namespace Rooms

/-- Empty rooms of the given starts. -/
def opened (offset : Nat → Nat) (cells : Nat → α) : Rooms α where
  offset := offset
  cursor := offset
  cells := cells

/-- The elements written to a row. -/
def row (rooms : Rooms α) (index : Nat) : List α :=
  (List.range' (rooms.offset index) (rooms.cursor index - rooms.offset index)).map
    rooms.cells

/-- The element written last to a row. -/
def last (rooms : Rooms α) (index : Nat) : Option α :=
  if rooms.offset index < rooms.cursor index then some (rooms.cells (rooms.cursor index - 1))
  else none

/-- Write at the cursor of a row and move it on. -/
def push (rooms : Rooms α) (index : Nat) (value : α) : Rooms α :=
  { rooms with
    cursor := Function.update rooms.cursor index (rooms.cursor index + 1)
    cells := Function.update rooms.cells (rooms.cursor index) value }

/-- Overwrite the element written last to a row. -/
def setLast (rooms : Rooms α) (index : Nat) (value : α) : Rooms α :=
  { rooms with cells := Function.update rooms.cells (rooms.cursor index - 1) value }

/-- Append an element to a row, or merge it into the last one. -/
def record (merge : α → α → Option α) (rooms : Rooms α) (index : Nat) (value : α) :
    Rooms α :=
  match rooms.last index with
  | none => rooms.push index value
  | some last =>
    match merge last value with
    | none => rooms.push index value
    | some merged => rooms.setLast index merged

/-- The first `count` rows keep to their rooms. -/
def Within (rooms : Rooms α) (count : Nat) : Prop :=
  ∀ index < count, rooms.offset index ≤ rooms.cursor index ∧
    rooms.cursor index ≤ rooms.offset (index + 1)

section Rows

variable {rooms : Rooms α} {count : Nat}

theorem opened_within {offset : Nat → Nat} (cells : Nat → α)
    (ordered : ∀ index < count, offset index ≤ offset (index + 1)) :
    (opened offset cells).Within count :=
  fun index bound => ⟨le_rfl, ordered index bound⟩

@[simp] theorem row_opened (offset : Nat → Nat) (cells : Nat → α) (index : Nat) :
    (opened offset cells).row index = [] := by
  simp [row, opened]

theorem length_row (rooms : Rooms α) (index : Nat) :
    (rooms.row index).length = rooms.cursor index - rooms.offset index := by
  simp [row]

/-- A later room starts where the rows before it have ended. -/
theorem Within.cursor_le (within : rooms.Within count) {first second : Nat}
    (ordered : first < second) (bound : second ≤ count) :
    rooms.cursor first ≤ rooms.offset second := by
  induction second, ordered using Nat.le_induction with
  | base => exact (within first bound).2
  | succ second _ inductionHypothesis =>
    exact (inductionHypothesis (by omega)).trans
      ((within second bound).1.trans (within second bound).2)

/-- Two rows have no cell in common. -/
theorem Within.apart (within : rooms.Within count) {first second cell : Nat}
    (firstBound : first < count) (secondBound : second < count) (ne : first ≠ second)
    (inFirst : rooms.offset first ≤ cell ∧ cell < rooms.offset (first + 1)) :
    cell < rooms.offset second ∨ rooms.cursor second ≤ cell := by
  rcases Nat.lt_or_gt_of_ne ne with before | after
  · left
    rcases Nat.lt_or_ge (first + 1) second with further | next
    · have stop := (within (first + 1) (by omega)).1.trans
        (within.cursor_le further secondBound.le)
      omega
    · obtain rfl : second = first + 1 := by omega
      exact inFirst.2
  · right
    exact (within.cursor_le after firstBound.le).trans inFirst.1

/-- A row only reads the cells between its offset and its cursor. -/
theorem row_congr {other : Rooms α} {index : Nat} (offset : other.offset index = rooms.offset index)
    (cursor : other.cursor index = rooms.cursor index)
    (cells : ∀ cell, rooms.offset index ≤ cell → cell < rooms.cursor index →
      other.cells cell = rooms.cells cell) :
    other.row index = rooms.row index := by
  unfold row
  rw [offset, cursor]
  apply List.map_congr_left
  intro cell mem
  rw [List.mem_range'_1] at mem
  exact cells cell mem.1 (by omega)

theorem row_of_lt {index : Nat} (written : rooms.offset index < rooms.cursor index) :
    rooms.row index =
      (List.range' (rooms.offset index) (rooms.cursor index - 1 - rooms.offset index)).map
        rooms.cells ++ [rooms.cells (rooms.cursor index - 1)] := by
  have split : rooms.cursor index - rooms.offset index =
      (rooms.cursor index - 1 - rooms.offset index) + 1 := by omega
  have here : rooms.offset index + (rooms.cursor index - 1 - rooms.offset index) =
      rooms.cursor index - 1 := by omega
  unfold row
  rw [split, List.range'_concat, List.map_append, List.map_singleton, Nat.one_mul, here]

theorem last_eq (index : Nat) : rooms.last index = (rooms.row index).getLast? := by
  unfold last
  split
  case isTrue written => rw [row_of_lt written, List.getLast?_append_of_ne_nil] <;> simp
  case isFalse empty =>
    have none : rooms.cursor index - rooms.offset index = 0 := by omega
    simp [row, none]

theorem push_row_self (within : rooms.Within count) {index : Nat} (bound : index < count)
    (value : α) : (rooms.push index value).row index = rooms.row index ++ [value] := by
  have ordered := (within index bound).1
  have written : (rooms.push index value).offset index < (rooms.push index value).cursor index := by
    simp [push]
    omega
  rw [row_of_lt written]
  simp only [push, Function.update_self, Nat.add_sub_cancel]
  congr 1
  unfold row
  apply List.map_congr_left
  intro cell mem
  rw [List.mem_range'_1] at mem
  exact Function.update_of_ne (by omega) _ _

theorem push_row_other (within : rooms.Within count) {index other : Nat} (bound : index < count)
    (otherBound : other < count) (ne : other ≠ index)
    (room : rooms.cursor index < rooms.offset (index + 1)) (value : α) :
    (rooms.push index value).row other = rooms.row other := by
  refine row_congr rfl ?_ ?_
  · exact Function.update_of_ne ne _ _
  · intro cell lower upper
    have apart := within.apart bound otherBound (Ne.symm ne)
      ⟨(within index bound).1, room⟩
    exact Function.update_of_ne (by omega) _ _

theorem setLast_row_self {index : Nat} (written : rooms.offset index < rooms.cursor index)
    (value : α) :
    (rooms.setLast index value).row index = (rooms.row index).dropLast ++ [value] := by
  have still : (rooms.setLast index value).offset index <
      (rooms.setLast index value).cursor index := written
  rw [row_of_lt written, List.dropLast_concat, row_of_lt still]
  simp only [setLast, Function.update_self]
  congr 1
  apply List.map_congr_left
  intro cell mem
  rw [List.mem_range'_1] at mem
  exact Function.update_of_ne (by omega) _ _

theorem setLast_row_other (within : rooms.Within count) {index other : Nat}
    (bound : index < count) (otherBound : other < count) (ne : other ≠ index)
    (written : rooms.offset index < rooms.cursor index) (value : α) :
    (rooms.setLast index value).row other = rooms.row other := by
  refine row_congr rfl rfl ?_
  intro cell lower upper
  have room := (within index bound).2
  have inside : rooms.offset index ≤ rooms.cursor index - 1 ∧
      rooms.cursor index - 1 < rooms.offset (index + 1) := by omega
  have apart := within.apart bound otherBound (Ne.symm ne) inside
  exact Function.update_of_ne (by omega) _ _

theorem push_within (within : rooms.Within count) {index : Nat}
    (room : rooms.cursor index < rooms.offset (index + 1)) (value : α) :
    (rooms.push index value).Within count := by
  intro other bound
  have kept := within other bound
  by_cases same : other = index
  · subst same
    simp only [push, Function.update_self]
    omega
  · simp only [push, Function.update_of_ne same]
    exact kept

end Rows

/-! ## Recording -/

section Recording

variable {merge : α → α → Option α} {rooms : Rooms α} {count : Nat}

@[simp] theorem record_offset (index : Nat) (value : α) :
    (rooms.record merge index value).offset = rooms.offset := by
  unfold record
  split
  · rfl
  · split <;> rfl

/-- Recording in a room that is not full merges into the row and leaves the others. -/
theorem record_spec (merge : α → α → Option α) (within : rooms.Within count)
    {index : Nat} (bound : index < count)
    (room : (rooms.row index).length < rooms.offset (index + 1) - rooms.offset index)
    (value : α) :
    (rooms.record merge index value).Within count ∧
      (rooms.record merge index value).row index =
        recordInto merge (rooms.row index) value ∧
      ∀ other < count, other ≠ index →
        (rooms.record merge index value).row other = rooms.row other := by
  have ordered := (within index bound).1
  have notFull : rooms.cursor index < rooms.offset (index + 1) := by
    rw [length_row] at room
    omega
  have pushed := push_within within notFull value
  have self := push_row_self within bound value
  have others : ∀ other < count, other ≠ index →
      (rooms.push index value).row other = rooms.row other :=
    fun other otherBound ne => push_row_other within bound otherBound ne notFull value
  unfold record recordInto
  rw [last_eq]
  cases isLast : (rooms.row index).getLast? with
  | none => exact ⟨pushed, self, others⟩
  | some last =>
    cases merges : merge last value with
    | none =>
      simp only [merges]
      exact ⟨pushed, self, others⟩
    | some merged =>
      simp only [merges]
      have written : rooms.offset index < rooms.cursor index := by
        by_contra empty
        have none : rooms.cursor index - rooms.offset index = 0 := by omega
        simp [row, none] at isLast
      exact ⟨within, setLast_row_self written merged,
        fun other otherBound ne => setLast_row_other within bound otherBound ne written merged⟩

/-- Record one write after another. -/
def recordAll (merge : α → α → Option α) (rooms : Rooms α) (writes : List (Nat × α)) :
    Rooms α :=
  writes.foldl (fun rooms write => rooms.record merge write.1 write.2) rooms

/-- The writes to one row. -/
def writesTo (index : Nat) (writes : List (Nat × α)) : List α :=
  (writes.filter fun write => write.1 = index).map (·.2)

@[simp] theorem writesTo_append (index : Nat) (first second : List (Nat × α)) :
    writesTo index (first ++ second) = writesTo index first ++ writesTo index second := by
  simp [writesTo]

@[simp] theorem writesTo_flatMap {β : Type} (index : Nat) (values : List β)
    (writes : β → List (Nat × α)) :
    writesTo index (values.flatMap writes) =
      values.flatMap fun value => writesTo index (writes value) := by
  simp [writesTo, List.filter_flatMap, List.map_flatMap]

theorem recordAll_append (first second : List (Nat × α)) :
    rooms.recordAll merge (first ++ second) =
      (rooms.recordAll merge first).recordAll merge second :=
  List.foldl_append

/-- A loop whose every pass makes some writes makes all of them. -/
theorem recordAll_of_foldl {σ β : Type} (part : σ → Rooms α) {pass : σ → β → σ}
    {writes : β → List (Nat × α)}
    (makes : ∀ state value, part (pass state value) =
      (part state).recordAll merge (writes value)) (values : List β) (state : σ) :
    part (values.foldl pass state) =
      (part state).recordAll merge (values.flatMap writes) := by
  induction values generalizing state with
  | nil => rfl
  | cons value rest inductionHypothesis =>
    rw [List.foldl_cons, inductionHypothesis, makes, List.flatMap_cons, recordAll_append]

/-- Rooms that hold every write leave each row as if it were a list of its own. -/
theorem recordAll_spec (merge : α → α → Option α) (within : rooms.Within count)
    {writes : List (Nat × α)}
    (inside : ∀ write ∈ writes, write.1 < count)
    (room : ∀ index < count, (rooms.row index).length + (writesTo index writes).length ≤
      rooms.offset (index + 1) - rooms.offset index) :
    (rooms.recordAll merge writes).Within count ∧
      ∀ index < count, (rooms.recordAll merge writes).row index =
        (writesTo index writes).foldl (recordInto merge) (rooms.row index) := by
  induction writes generalizing rooms with
  | nil => exact ⟨within, fun _ _ => rfl⟩
  | cons write rest inductionHypothesis =>
    have bound := inside write List.mem_cons_self
    have here : writesTo write.1 (write :: rest) = write.2 :: writesTo write.1 rest := by
      simp [writesTo]
    have elsewhere : ∀ index ≠ write.1, writesTo index (write :: rest) = writesTo index rest := by
      intro index ne
      simp [writesTo, Ne.symm ne]
    have notFull := room write.1 bound
    rw [here, List.length_cons] at notFull
    rcases record_spec merge within bound (by omega) write.2 with
      ⟨stillWithin, self, others⟩
    have roomAfter : ∀ index < count,
        ((rooms.record merge write.1 write.2).row index).length +
          (writesTo index rest).length ≤
        (rooms.record merge write.1 write.2).offset (index + 1) -
          (rooms.record merge write.1 write.2).offset index := by
      intro index indexBound
      rw [record_offset]
      by_cases same : index = write.1
      · subst same
        have grown := length_recordInto_le merge (rooms.row write.1) write.2
        rw [self]
        omega
      · rw [others index indexBound same]
        have kept := room index indexBound
        rwa [elsewhere index same] at kept
    rcases inductionHypothesis stillWithin
      (fun other mem => inside other (List.mem_cons_of_mem _ mem)) roomAfter with
      ⟨within', rows⟩
    refine ⟨within', fun index indexBound => ?_⟩
    refine (rows index indexBound).trans ?_
    by_cases same : index = write.1
    · subst same
      rw [self, here, List.foldl_cons]
    · rw [others index indexBound same, elsewhere index same]

end Recording

end Rooms

/-! ## Packing -/

/-- Rows that only their offsets delimit. -/
structure Packed (α : Type) where
  offset : Nat → Nat
  cells : Nat → α

def Packed.row (packed : Packed α) (index : Nat) : List α :=
  (List.range' (packed.offset index) (packed.offset (index + 1) - packed.offset index)).map
    packed.cells

namespace Rooms

/-- What packing has moved so far, and where the next row goes. -/
structure Moved (α : Type) where
  offset : Nat → Nat
  cells : Nat → α
  next : Nat

/-- Move one row down to the end of the ones before it. -/
def moveDown (cursor : Nat → Nat) (moved : Moved α) (index : Nat) : Moved α :=
  let start := moved.offset index
  let length := cursor index - start
  { offset := Function.update moved.offset index moved.next
    cells := fun cell =>
      if moved.next ≤ cell ∧ cell < moved.next + length then
        moved.cells (start + (cell - moved.next))
      else moved.cells cell
    next := moved.next + length }

/-- The rows before `count`, moved down. -/
def movedRows (rooms : Rooms α) (count : Nat) : Moved α :=
  (List.range count).foldl (moveDown rooms.cursor) ⟨rooms.offset, rooms.cells, 0⟩

/-- Close the gaps that the rooms left, and make the offsets exact. -/
def pack (rooms : Rooms α) (count : Nat) : Packed α where
  offset := Function.update (rooms.movedRows count).offset count (rooms.movedRows count).next
  cells := (rooms.movedRows count).cells

/-- Where a row starts once the gaps before it are closed. -/
def packedStart (rooms : Rooms α) (index : Nat) : Nat :=
  ∑ before ∈ Finset.range index, (rooms.row before).length

/-- The rows before `done` are where they belong, and nothing above them has moved. -/
structure MovedTo (rooms : Rooms α) (done : Nat) (moved : Moved α) : Prop where
  next : moved.next = rooms.packedStart done
  starts : ∀ index < done, moved.offset index = rooms.packedStart index
  kept : ∀ index, done ≤ index → moved.offset index = rooms.offset index
  rows : ∀ index < done, ∀ place < (rooms.row index).length,
    moved.cells (rooms.packedStart index + place) = rooms.cells (rooms.offset index + place)
  above : ∀ cell, rooms.offset done ≤ cell → moved.cells cell = rooms.cells cell

section Packing

variable {rooms : Rooms α} {count : Nat}

theorem packedStart_succ (index : Nat) :
    rooms.packedStart (index + 1) = rooms.packedStart index + (rooms.row index).length :=
  Finset.sum_range_succ _ _

theorem packedStart_mono (rooms : Rooms α) {first second : Nat} (ordered : first ≤ second) :
    rooms.packedStart first ≤ rooms.packedStart second :=
  Finset.sum_le_sum_of_subset (Finset.range_mono ordered)

/-- Rows only move down. -/
theorem packedStart_le (within : rooms.Within count) {index : Nat} (bound : index ≤ count) :
    rooms.packedStart index ≤ rooms.offset index := by
  induction index with
  | zero => exact Nat.zero_le _
  | succ index inductionHypothesis =>
    have below := inductionHypothesis (by omega)
    have fits := within index bound
    rw [packedStart_succ, length_row]
    omega

theorem moveDown_moves (within : rooms.Within count) {done : Nat} (bound : done < count)
    {moved : Moved α} (soFar : MovedTo rooms done moved) :
    MovedTo rooms (done + 1) (moveDown rooms.cursor moved done) := by
  have start := soFar.kept done le_rfl
  have fits := within done bound
  have down := packedStart_le within bound.le
  have length := length_row rooms done
  constructor
  case next =>
    simp only [moveDown, start, soFar.next]
    rw [packedStart_succ, length]
  case starts =>
    intro index before
    by_cases same : index = done
    · subst same
      simp [moveDown, soFar.next]
    · simp only [moveDown, Function.update_of_ne same]
      exact soFar.starts index (by omega)
  case kept =>
    intro index after
    simp only [moveDown, Function.update_of_ne (show index ≠ done by omega)]
    exact soFar.kept index (by omega)
  case rows =>
    intro index before place inRow
    by_cases same : index = done
    · subst same
      have inside : moved.next ≤ rooms.packedStart index + place ∧
          rooms.packedStart index + place <
            moved.next + (rooms.cursor index - moved.offset index) := by
        rw [soFar.next, start]
        omega
      simp only [moveDown]
      rw [if_pos inside, start, soFar.next, Nat.add_sub_cancel_left]
      exact soFar.above _ (by omega)
    · have earlier : index + 1 ≤ done := by omega
      have ends := packedStart_mono rooms earlier
      rw [packedStart_succ] at ends
      simp only [moveDown]
      rw [if_neg (by rw [soFar.next]; omega)]
      exact soFar.rows index (by omega) place inRow
  case above =>
    intro cell higher
    simp only [moveDown]
    rw [if_neg (by rw [soFar.next, start]; omega)]
    exact soFar.above cell (by omega)

theorem movedRows_moved (within : rooms.Within count) {done : Nat} (bound : done ≤ count) :
    MovedTo rooms done (rooms.movedRows done) := by
  induction done with
  | zero =>
    constructor
    case next => rfl
    case starts => exact fun _ impossible => absurd impossible (Nat.not_lt_zero _)
    case kept => exact fun _ _ => rfl
    case rows => exact fun _ impossible => absurd impossible (Nat.not_lt_zero _)
    case above => exact fun _ _ => rfl
  | succ done inductionHypothesis =>
    unfold movedRows
    rw [List.range_succ, List.foldl_append]
    exact moveDown_moves within bound (inductionHypothesis (by omega))

/-- Packing keeps every row. -/
theorem pack_row (within : rooms.Within count) {index : Nat} (bound : index < count) :
    (rooms.pack count).row index = rooms.row index := by
  have moved := movedRows_moved within le_rfl
  have starts : ∀ other ≤ count, (rooms.pack count).offset other = rooms.packedStart other := by
    intro other otherBound
    unfold pack
    by_cases same : other = count
    · subst same
      simp [moved.next]
    · simp only [Function.update_of_ne same]
      exact moved.starts other (by omega)
  unfold Packed.row
  rw [starts index bound.le, starts (index + 1) bound, packedStart_succ,
    Nat.add_sub_cancel_left]
  apply List.ext_getElem
  · simp
  · intro place inPacked inRow
    simp only [List.getElem_map, List.getElem_range', Nat.one_mul, row]
    exact moved.rows index bound place inRow

end Packing

end Rooms

end ShadowSpill.Library.PackedRows
