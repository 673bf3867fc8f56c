import Mathlib

/-!
# Half-open address ranges and the lowest aligned gap

A set of taken addresses is given as a list of half-open ranges.  What a
first-fit scan over such a list looks for is `IsLowestFit`: the least multiple
of the alignment at which the request meets no taken address.  It is unique,
so two scans that see the same addresses agree whatever ranges they read.

The scan itself is a cursor that only rises.  `Bounded` is its invariant, and
`Bounded.advance`, `Bounded.fit_of_gap` and `Bounded.fit_of_clear` are its
three exits; they do not mention the order in which ranges are read.
-/

namespace ShadowSpill.Library.AddressRanges

/-- A half-open address range `[start, finish)`. -/
structure AddressRange where
  start : Nat
  finish : Nat
deriving DecidableEq, Repr, Inhabited

/-- The address lies in the range. -/
def AddressRange.Contains (range : AddressRange) (address : Nat) : Prop :=
  range.start ≤ address ∧ address < range.finish

/-- Some range of the list contains the address. -/
def Covers (ranges : List AddressRange) (address : Nat) : Prop :=
  ∃ range ∈ ranges, range.Contains address

@[simp]
theorem not_covers_nil (address : Nat) : ¬ Covers [] address := by
  simp [Covers]

@[simp]
theorem covers_cons (range : AddressRange) (ranges : List AddressRange)
    (address : Nat) :
    Covers (range :: ranges) address ↔
      range.Contains address ∨ Covers ranges address := by
  simp [Covers]

@[simp]
theorem covers_append (first second : List AddressRange) (address : Nat) :
    Covers (first ++ second) address ↔
      Covers first address ∨ Covers second address := by
  simp [Covers, or_and_right, exists_or]

/-! ## Aligned addresses -/

/-- The least multiple of `alignment` at or above `value`. -/
def alignUp (value alignment : Nat) : Nat :=
  (value + alignment - 1) / alignment * alignment

theorem dvd_alignUp (value alignment : Nat) :
    alignment ∣ alignUp value alignment :=
  Dvd.intro_left _ rfl

theorem le_alignUp (value : Nat) {alignment : Nat} (positive : 0 < alignment) :
    value ≤ alignUp value alignment := by
  have split := Nat.div_add_mod (value + alignment - 1) alignment
  have small := Nat.mod_lt (value + alignment - 1) positive
  rw [Nat.mul_comm] at split
  unfold alignUp
  omega

theorem alignUp_lt_add (value : Nat) {alignment : Nat}
    (positive : 0 < alignment) :
    alignUp value alignment < value + alignment := by
  have split := Nat.div_add_mod (value + alignment - 1) alignment
  rw [Nat.mul_comm] at split
  unfold alignUp
  omega

theorem alignUp_le_of_dvd
    {value alignment other : Nat}
    (positive : 0 < alignment)
    (aligned : alignment ∣ other)
    (bound : value ≤ other) :
    alignUp value alignment ≤ other := by
  obtain ⟨quotient, rfl⟩ := aligned
  unfold alignUp
  have step : (value + alignment - 1) / alignment ≤ quotient := by
    apply Nat.le_of_lt_succ
    rw [Nat.div_lt_iff_lt_mul positive, Nat.succ_mul, Nat.mul_comm quotient]
    omega
  rw [Nat.mul_comm alignment]
  exact Nat.mul_le_mul_right _ step

@[simp]
theorem alignUp_zero (alignment : Nat) : alignUp 0 alignment = 0 := by
  unfold alignUp
  rcases Nat.eq_zero_or_pos alignment with rfl | positive
  · simp
  · rw [Nat.div_eq_of_lt (by omega), Nat.zero_mul]

/-! ## The lowest fit -/

/-- A request of `needed` bytes at `offset` meets no occupied address. -/
def Clears (occupied : Nat → Prop) (needed offset : Nat) : Prop :=
  ∀ address, offset ≤ address → address < offset + needed → ¬ occupied address

/-- The least aligned offset at which the request meets no occupied address. -/
structure IsLowestFit
    (occupied : Nat → Prop) (needed alignment offset : Nat) : Prop where
  aligned : alignment ∣ offset
  clears : Clears occupied needed offset
  lowest :
    ∀ other, alignment ∣ other → Clears occupied needed other → offset ≤ other

theorem IsLowestFit.unique
    {occupied : Nat → Prop} {needed alignment first second : Nat}
    (firstFit : IsLowestFit occupied needed alignment first)
    (secondFit : IsLowestFit occupied needed alignment second) :
    first = second :=
  Nat.le_antisymm
    (firstFit.lowest second secondFit.aligned secondFit.clears)
    (secondFit.lowest first firstFit.aligned firstFit.clears)

theorem IsLowestFit.congr
    {first second : Nat → Prop} {needed alignment offset : Nat}
    (same : ∀ address, first address ↔ second address)
    (fit : IsLowestFit first needed alignment offset) :
    IsLowestFit second needed alignment offset := by
  have equal : first = second := funext fun address => propext (same address)
  exact equal ▸ fit

/-- What is the lowest fit for fewer taken addresses is so for more, if it clears
them too. -/
theorem IsLowestFit.of_clears
    {fewer more : Nat → Prop} {needed alignment offset : Nat}
    (fit : IsLowestFit fewer needed alignment offset)
    (weaker : ∀ address, fewer address → more address)
    (clears : Clears more needed offset) :
    IsLowestFit more needed alignment offset :=
  ⟨fit.aligned, clears, fun other aligned otherClears =>
    fit.lowest other aligned fun address lower upper held =>
      otherClears address lower upper (weaker address held)⟩

/-- Above the last taken address there is always room. -/
theorem exists_isLowestFit
    {occupied : Nat → Prop} {limit alignment : Nat} (needed : Nat)
    (positive : 0 < alignment)
    (ends : ∀ address, occupied address → address < limit) :
    ∃ fit ≤ alignUp limit alignment, IsLowestFit occupied needed alignment fit := by
  classical
  have above : alignment ∣ alignUp limit alignment ∧
      Clears occupied needed (alignUp limit alignment) := by
    refine ⟨dvd_alignUp limit alignment, fun address lower _ held => ?_⟩
    have raised := le_alignUp limit positive
    have early := ends address held
    omega
  have some_fit : ∃ fit, alignment ∣ fit ∧ Clears occupied needed fit := ⟨_, above⟩
  obtain ⟨aligned, clears⟩ := Nat.find_spec some_fit
  exact ⟨Nat.find some_fit, Nat.find_min' some_fit above, aligned, clears,
    fun other otherAligned otherClears =>
      Nat.find_min' some_fit ⟨otherAligned, otherClears⟩⟩

/-- No aligned fit lies below the cursor. -/
def Bounded (occupied : Nat → Prop) (needed alignment cursor : Nat) : Prop :=
  ∀ other, alignment ∣ other → Clears occupied needed other → cursor ≤ other

theorem bounded_zero (occupied : Nat → Prop) (needed alignment : Nat) :
    Bounded occupied needed alignment 0 :=
  fun _ _ _ => Nat.zero_le _

section Scan

variable {occupied : Nat → Prop} {needed alignment cursor : Nat}

/-- A taken range that begins before the candidate ends pushes the cursor past
its own end. -/
theorem Bounded.advance
    (bounded : Bounded occupied needed alignment cursor)
    (positive : 0 < alignment)
    (some_needed : 0 < needed)
    {range : AddressRange}
    (taken : ∀ address, range.Contains address → occupied address)
    (nonempty : range.start < range.finish)
    (meets : range.start < alignUp cursor alignment + needed) :
    Bounded occupied needed alignment range.finish := by
  intro other aligned clears
  by_contra early
  have above : alignUp cursor alignment ≤ other :=
    alignUp_le_of_dvd positive aligned (bounded other aligned clears)
  -- The request at `other` and the range share the larger of their starts.
  rcases Nat.le_total other range.start with before | after
  · exact clears range.start before (by omega)
      (taken range.start ⟨le_rfl, nonempty⟩)
  · exact clears other le_rfl (by omega) (taken other ⟨after, by omega⟩)

/-- When the aligned cursor clears every taken address it is the lowest fit. -/
theorem Bounded.fit_of_clear
    (bounded : Bounded occupied needed alignment cursor)
    (positive : 0 < alignment)
    (clears : Clears occupied needed (alignUp cursor alignment)) :
    IsLowestFit occupied needed alignment (alignUp cursor alignment) where
  aligned := dvd_alignUp cursor alignment
  clears := clears
  lowest := fun other aligned otherClears =>
    alignUp_le_of_dvd positive aligned (bounded other aligned otherClears)

/-- The aligned cursor is the lowest fit once every taken range either ends at
or below the cursor or begins at or above the end of the candidate. -/
theorem Bounded.fit_of_gap
    (bounded : Bounded occupied needed alignment cursor)
    (positive : 0 < alignment)
    (separated :
      ∀ address, occupied address →
        address < cursor ∨ alignUp cursor alignment + needed ≤ address) :
    IsLowestFit occupied needed alignment (alignUp cursor alignment) := by
  refine bounded.fit_of_clear positive ?_
  intro address lower upper held
  have above := le_alignUp cursor positive
  rcases separated address held with below | beyond <;> omega

end Scan

end ShadowSpill.Library.AddressRanges
