import ShadowSpill.Library.RangeLists
import ShadowSpill.Runtime.Ranges

/-!
# What the scans of the free list find

In one range the low place is the least aligned fit and the high places are the
greatest, so a range without a place holds no fit at all.  A scan returns one of
the ranges that have a place, or passes every one of them over.
-/

namespace ShadowSpill.Runtime.RangePlaces

open Library.Word64 Ranges

/-- A request of `bytes` at `start` is aligned and lies in the range. -/
structure FitsIn (range : Range) (bytes alignment start : Nat) : Prop where
  aligned : alignment ∣ start
  lower : range.offset ≤ start
  upper : start + bytes ≤ range.offset + range.bytes

/-- The range ends at an address that a word can hold. -/
def Fits (range : Range) : Prop :=
  range.offset + range.bytes < modulus

/-! ## Alignment -/

theorem alignUp_spec {value alignment aligned : Nat}
    (positive : 0 < alignment) (result : alignUp value alignment = some aligned) :
    alignment ∣ aligned ∧ value ≤ aligned ∧
      ∀ other, alignment ∣ other → value ≤ other → aligned ≤ other := by
  unfold alignUp at result
  simp only at result
  have split := Nat.div_add_mod value alignment
  have small := Nat.mod_lt value positive
  split_ifs at result with whole wide wide <;> cases result
  · refine ⟨Nat.dvd_of_mod_eq_zero whole, by omega, ?_⟩
    intro other _ bound
    exact bound
  · have next : value + (alignment - value % alignment) =
        alignment * (value / alignment + 1) := by
      rw [Nat.mul_succ]
      omega
    refine ⟨⟨_, next⟩, by omega, ?_⟩
    rintro other ⟨quotient, rfl⟩ bound
    rw [next]
    apply Nat.mul_le_mul_left
    by_contra lower
    have step : alignment * quotient ≤ alignment * (value / alignment) :=
      Nat.mul_le_mul_left _ (by omega)
    have positive' : 0 < value % alignment := Nat.pos_of_ne_zero whole
    omega

theorem alignUp_none {value alignment other : Nat}
    (positive : 0 < alignment) (result : alignUp value alignment = none)
    (aligned : alignment ∣ other) (bound : value ≤ other) : modulus ≤ other := by
  unfold alignUp at result
  simp only at result
  split_ifs at result with whole wide wide
  · omega
  · have split := Nat.div_add_mod value alignment
    have small := Nat.mod_lt value positive
    obtain ⟨quotient, rfl⟩ := aligned
    have past : value / alignment + 1 ≤ quotient := by
      by_contra lower
      have step : alignment * quotient ≤ alignment * (value / alignment) :=
        Nat.mul_le_mul_left _ (by omega)
      have positive' : 0 < value % alignment := Nat.pos_of_ne_zero whole
      omega
    have step : alignment * (value / alignment + 1) ≤ alignment * quotient :=
      Nat.mul_le_mul_left _ past
    rw [Nat.mul_succ] at step
    unfold uint64Max at wide
    omega

theorem alignDown_le (value alignment : Nat) : alignDown value alignment ≤ value :=
  Nat.sub_le _ _

theorem dvd_alignDown (value alignment : Nat) :
    alignment ∣ alignDown value alignment :=
  Nat.dvd_sub_mod value

theorem le_alignDown {value alignment other : Nat}
    (aligned : alignment ∣ other) (bound : other ≤ value) :
    other ≤ alignDown value alignment := by
  obtain ⟨quotient, rfl⟩ := aligned
  have split := Nat.div_add_mod value alignment
  rcases Nat.eq_zero_or_pos alignment with rfl | positive
  · simp [alignDown]
  · have step : quotient ≤ value / alignment :=
      (Nat.le_div_iff_mul_le positive).2 (by rw [Nat.mul_comm]; exact bound)
    have scaled : alignment * quotient ≤ alignment * (value / alignment) :=
      Nat.mul_le_mul_left _ step
    unfold alignDown
    omega

/-! ## Places -/

/-- What a place function promises about one range: a place is a fit at or above
`minimum`, and where it gives none there is none. -/
structure Sound (place : Range → Option Nat) (bytes alignment minimum : Nat) :
    Prop where
  fits : ∀ {range start}, Fits range → place range = some start →
    FitsIn range bytes alignment start ∧ minimum ≤ start
  complete : ∀ {range start}, Fits range → place range = none →
    minimum ≤ start → ¬ FitsIn range bytes alignment start

section Places

variable {bytes alignment : Nat}

theorem lowPlace_sound (positive : 0 < alignment) :
    Sound (lowPlace bytes alignment) bytes alignment 0 := by
  constructor
  · intro range start fits result
    unfold lowPlace at result
    cases up : alignUp range.offset alignment with
    | none => simp [up] at result
    | some aligned =>
        simp only [up] at result
        split_ifs at result with outside large
        cases result
        have spec := alignUp_spec positive up
        exact ⟨⟨spec.1, spec.2.1, by omega⟩, Nat.zero_le _⟩
  · rintro range start fits result _ ⟨aligned, lower, upper⟩
    unfold lowPlace at result
    cases up : alignUp range.offset alignment with
    | none =>
        have beyond := alignUp_none positive up aligned lower
        unfold Fits at fits
        omega
    | some low =>
        simp only [up] at result
        have spec := alignUp_spec positive up
        have least := spec.2.2 start aligned lower
        split_ifs at result with outside large <;> omega

theorem highPlaceFrom_sound {minimum : Nat} :
    Sound (highPlaceFrom bytes alignment minimum) bytes alignment minimum := by
  constructor
  · intro range start fits result
    unfold highPlaceFrom at result
    rw [wrap_eq fits] at result
    simp only at result
    have down := alignDown_le (range.offset + range.bytes - bytes) alignment
    split_ifs at result with below outside short outside short <;>
      cases result <;>
      exact ⟨⟨dvd_alignDown _ _, by omega, by omega⟩, by omega⟩
  · rintro range start fits result above ⟨aligned, lower, upper⟩
    have most := le_alignDown aligned (Nat.le_sub_of_add_le upper)
    unfold highPlaceFrom at result
    rw [wrap_eq fits] at result
    simp only at result
    split_ifs at result with below outside short outside short <;> omega

/-- Best fit high asks for the high place above address zero. -/
theorem highPlace_eq {range : Range} (fits : Fits range) :
    highPlace bytes alignment range = highPlaceFrom bytes alignment 0 range := by
  have start : (if range.offset > 0 then range.offset else 0) = range.offset := by
    split_ifs <;> omega
  unfold highPlace highPlaceFrom
  simp only [wrap_eq fits, start]
  have same : (bytes > range.bytes ∨ range.offset + range.bytes < range.offset) ↔
      (range.offset + range.bytes < range.offset ∨
        range.offset > range.offset + range.bytes ∨
          bytes > range.offset + range.bytes - range.offset) := by
    omega
  simp only [same]

theorem highPlace_sound : Sound (highPlace bytes alignment) bytes alignment 0 := by
  constructor
  · intro range start fits result
    rw [highPlace_eq fits] at result
    exact highPlaceFrom_sound.fits fits result
  · intro range start fits result
    rw [highPlace_eq fits] at result
    exact highPlaceFrom_sound.complete fits result

end Places

/-! ## Scans -/

section Select

variable {place : Range → Option Nat} {precedes : Range → Nat → Selection → Bool}
  {position aligned : Nat} {selection : Selection} {range : Range}
  {ranges : List Range}

theorem select_cons_none (none : place range = none) :
    select place precedes position selection (range :: ranges) =
      select place precedes (position + 1) selection ranges := by
  rw [select, none]

theorem select_cons_passed (fits : place range = some aligned)
    (passed : precedes range aligned selection = false) :
    select place precedes position selection (range :: ranges) =
      select place precedes (position + 1) selection ranges := by
  simp [select, fits, passed]

theorem select_cons_taken (fits : place range = some aligned)
    (taken : precedes range aligned selection = true) :
    select place precedes position selection (range :: ranges) =
      select place precedes (position + 1)
        ⟨some (position, range), aligned, range.bytes⟩ ranges := by
  simp [select, fits, taken]

end Select

/-- A selection names a range of the list, at its position and with its place. -/
def Names (place : Range → Option Nat) (position : Nat) (ranges : List Range)
    (selection : Selection) : Prop :=
  ∃ index range, ranges[index]? = some range ∧
    selection.selected = some (position + index, range) ∧
    place range = some selection.aligned

theorem Names.cons {place : Range → Option Nat} {position : Nat}
    {ranges : List Range} {selection : Selection} (range : Range)
    (names : Names place (position + 1) ranges selection) :
    Names place position (range :: ranges) selection := by
  obtain ⟨index, found, get, chosen, fits⟩ := names
  refine ⟨index + 1, found, by simpa using get, ?_, fits⟩
  rw [chosen, Nat.add_right_comm, Nat.add_assoc]

/-- A scan either passes over every range that has a place, or names one of
them. -/
theorem select_spec (place : Range → Option Nat)
    (precedes : Range → Nat → Selection → Bool) (ranges : List Range)
    (position : Nat) (selection : Selection) :
    (select place precedes position selection ranges = selection ∧
        ∀ range ∈ ranges, ∀ start, place range = some start →
          precedes range start selection = false) ∨
      Names place position ranges
        (select place precedes position selection ranges) := by
  induction ranges generalizing position selection with
  | nil => exact Or.inl ⟨rfl, by simp⟩
  | cons range ranges ih =>
      cases placed : place range with
      | none =>
          rw [select_cons_none placed]
          apply (ih (position + 1) selection).imp _ (Names.cons range)
          rintro ⟨same, passed⟩
          refine ⟨same, ?_⟩
          intro other mem start result
          rcases List.mem_cons.1 mem with rfl | mem
          · simp [placed] at result
          · exact passed other mem start result
      | some aligned =>
          cases better : precedes range aligned selection with
          | false =>
              rw [select_cons_passed placed better]
              apply (ih (position + 1) selection).imp _ (Names.cons range)
              rintro ⟨same, passed⟩
              refine ⟨same, ?_⟩
              intro other mem start result
              rcases List.mem_cons.1 mem with rfl | mem
              · rw [placed] at result
                cases result
                exact better
              · exact passed other mem start result
          | true =>
              rw [select_cons_taken placed better]
              right
              rcases ih (position + 1)
                ⟨some (position, range), aligned, range.bytes⟩ with
                ⟨same, _⟩ | names
              · rw [same]
                exact ⟨0, range, rfl, rfl, placed⟩
              · exact names.cons range

/-- The first-fit scan returns a range of the list with its place, or finds
none that has one. -/
theorem allocateFirst_spec (place : Range → Option Nat) (ranges : List Range)
    (position : Nat) :
    (allocateFirst place position ranges = none ∧
        ∀ range ∈ ranges, place range = none) ∨
      ∃ index range start, ranges[index]? = some range ∧
        allocateFirst place position ranges = some (position + index, range, start) ∧
        place range = some start := by
  induction ranges generalizing position with
  | nil => exact Or.inl ⟨rfl, by simp⟩
  | cons range ranges ih =>
      unfold allocateFirst
      cases placed : place range with
      | some start => exact Or.inr ⟨0, range, start, rfl, rfl, placed⟩
      | none =>
          rcases ih (position + 1) with ⟨same, passed⟩ | ⟨index, found, start, get, chosen, fits⟩
          · left
            exact ⟨same, by simpa using ⟨placed, passed⟩⟩
          · right
            refine ⟨index + 1, found, start, by simpa using get, ?_, fits⟩
            simp only [chosen, Nat.add_right_comm, Nat.add_assoc]

end ShadowSpill.Runtime.RangePlaces
