import ShadowSpill.Simulator.TransferTiming

/-!
# The arithmetic of a copy is exact

Every function of the timing computes on natural numbers what it names: what a copy owes is
lowered by the product of rate and time, the time that is left is a ceiling, and only a
result that does not fit is replaced or refused.
-/

namespace ShadowSpill.Simulator.TransferArithmetic

open Library.RestoringDivision TransferTiming

theorem uint64Max_toNat : uint64Max.toNat = 2 ^ 64 - 1 := rfl

theorem nsPerSecond_toNat : nsPerSecond.toNat = 10 ^ 9 := rfl

theorem toNat_le_limit (word : UInt64) : word.toNat ≤ 2 ^ 64 - 1 := by
  have bound := word.toNat_lt
  omega

theorem never_lt_iff {left right : UInt64} :
    uint64Max - right < left ↔ 2 ^ 64 - 1 < left.toNat + right.toNat := by
  have bound := toNat_le_limit right
  rw [UInt64.lt_iff_toNat_lt, sub_toNat bound, uint64Max_toNat]
  omega

theorem saturatedAdd_toNat (left right : UInt64) :
    (saturatedAdd left right).toNat = min (left.toNat + right.toNat) (2 ^ 64 - 1) := by
  unfold saturatedAdd
  split
  · rename_i exceeds
    have exceeds := never_lt_iff.mp exceeds
    rw [uint64Max_toNat]
    omega
  · rename_i fits
    have fits := (not_congr never_lt_iff).mp fits
    rw [add_toNat (by omega)]
    omega

theorem addOverflow_eq (left right : UInt64) :
    (addOverflow left right).map UInt64.toNat =
      if left.toNat + right.toNat ≤ 2 ^ 64 - 1 then some (left.toNat + right.toNat) else none := by
  unfold addOverflow
  split
  · rename_i exceeds
    rw [if_neg (Nat.not_le.mpr (never_lt_iff.mp exceeds))]
    rfl
  · rename_i fits
    have fits := Nat.le_of_not_lt ((not_congr never_lt_iff).mp fits)
    rw [if_pos fits, Option.map_some, add_toNat (by omega)]

/-! ## Ceilings -/

theorem mul_add_ceilDiv {divisor : Nat} (positive : 0 < divisor) (count rest : Nat) :
    (count * divisor + rest) ⌈/⌉ divisor = count + rest ⌈/⌉ divisor := by
  rw [Nat.ceilDiv_eq_add_pred_div, Nat.ceilDiv_eq_add_pred_div, Nat.add_assoc,
    Nat.add_sub_assoc (by omega), Nat.mul_comm, Nat.mul_add_div positive]

/-- The smallest number of whole seconds that does not fit. -/
theorem limit_lt_of_seconds {seconds : UInt64} (many : uint64Max / nsPerSecond < seconds) :
    2 ^ 64 - 1 < seconds.toNat * 10 ^ 9 := by
  have many : 18446744073 < seconds.toNat := UInt64.lt_iff_toNat_lt.mp many
  omega

theorem seconds_fit {seconds : UInt64} (few : ¬uint64Max / nsPerSecond < seconds) :
    seconds.toNat * 10 ^ 9 ≤ 2 ^ 64 - 1 := by
  have few : ¬18446744073 < seconds.toNat := fun wrong =>
    few (UInt64.lt_iff_toNat_lt.mpr wrong)
  omega

theorem scaledDivide_divides {multiplicand divisor : UInt64}
    (small : multiplicand.toNat < divisor.toNat) :
    (scaledDivide multiplicand divisor).Divides divisor (multiplicand.toNat * 10 ^ 9) := by
  unfold scaledDivide
  split
  · rename_i direct
    have direct : multiplicand.toNat ≤ 18446744073 := UInt64.le_iff_toNat_le.mp direct
    have product : (multiplicand * nsPerSecond).toNat = multiplicand.toNat * 10 ^ 9 := by
      rw [mul_toNat (by rw [nsPerSecond_toNat]; omega), nsPerSecond_toNat]
    constructor
    · dsimp only
      rw [UInt64.toNat_div, UInt64.toNat_mod, product]
      exact Nat.div_add_mod' _ _
    · dsimp only
      rw [UInt64.toNat_mod]
      exact Nat.mod_lt _ (Nat.zero_lt_of_lt small)
  · exact Division.scale_divides small (by decide) (by decide)

/-! ## What a copy owes -/

/-- In billionths of a byte. -/
def owed (transfer : Transfer) : Nat :=
  transfer.remainingBytes.toNat * 10 ^ 9 + transfer.remainingFraction.toNat

/-- The fraction is one. -/
def Proper (transfer : Transfer) : Prop :=
  transfer.remainingFraction.toNat < 10 ^ 9

theorem owed_congr {first second : Transfer}
    (bytes : first.remainingBytes = second.remainingBytes)
    (fraction : first.remainingFraction = second.remainingFraction) :
    owed first = owed second := by
  unfold owed
  rw [bytes, fraction]

variable {transfer : Transfer}

/-- The quotient of a dividend below a multiple of the divisor. -/
theorem quotient_lt {divisor : UInt64} {dividend bound : Nat} {division : Division}
    (divides : division.Divides divisor dividend)
    (small : dividend < bound * divisor.toNat) : division.quotient.toNat < bound := by
  apply Nat.lt_of_mul_lt_mul_right (a := divisor.toNat)
  have exact := divides.exact
  omega

/-- The bytes beyond whole seconds and the fraction, by the rate. -/
theorem fraction_divides (proper : Proper transfer) (positive : 0 < transfer.rate.toNat) :
    let scaled := scaledDivide (transfer.remainingBytes % transfer.rate) transfer.rate
    (Division.add transfer.rate (transfer.remainingFraction % transfer.rate)
        ⟨scaled.quotient + transfer.remainingFraction / transfer.rate,
          scaled.remainder⟩).Divides transfer.rate
      (transfer.remainingBytes.toNat % transfer.rate.toNat * 10 ^ 9 +
        transfer.remainingFraction.toNat) := by
  intro scaled
  have below := Nat.mod_lt transfer.remainingBytes.toNat positive
  have part := Nat.div_add_mod' transfer.remainingFraction.toNat transfer.rate.toNat
  have small := Nat.mod_lt transfer.remainingFraction.toNat positive
  have few := Nat.div_le_self transfer.remainingFraction.toNat transfer.rate.toNat
  have proper : transfer.remainingFraction.toNat < 10 ^ 9 := proper
  have modulus : (transfer.remainingBytes % transfer.rate).toNat =
      transfer.remainingBytes.toNat % transfer.rate.toNat := UInt64.toNat_mod _ _
  have divides : scaled.Divides transfer.rate
      (transfer.remainingBytes.toNat % transfer.rate.toNat * 10 ^ 9) := by
    rw [← modulus] at below ⊢
    exact scaledDivide_divides below
  have quotient : scaled.quotient.toNat < 10 ^ 9 := quotient_lt divides (by omega)
  have whole : (scaled.quotient + transfer.remainingFraction / transfer.rate).toNat =
      scaled.quotient.toNat +
        transfer.remainingFraction.toNat / transfer.rate.toNat := by
    rw [add_toNat (by rw [UInt64.toNat_div]; omega), UInt64.toNat_div]
  have more : Division.Divides transfer.rate
      (transfer.remainingBytes.toNat % transfer.rate.toNat * 10 ^ 9 +
        transfer.remainingFraction.toNat / transfer.rate.toNat * transfer.rate.toNat)
      ⟨scaled.quotient + transfer.remainingFraction / transfer.rate, scaled.remainder⟩ := by
    refine ⟨?_, divides.below⟩
    have exact := divides.exact
    dsimp only
    rw [whole, Nat.add_mul]
    omega
  have total : transfer.remainingBytes.toNat % transfer.rate.toNat * 10 ^ 9 +
      transfer.remainingFraction.toNat / transfer.rate.toNat * transfer.rate.toNat +
        (transfer.remainingFraction % transfer.rate).toNat =
      transfer.remainingBytes.toNat % transfer.rate.toNat * 10 ^ 9 +
        transfer.remainingFraction.toNat := by
    rw [UInt64.toNat_mod]
    omega
  rw [← total]
  apply more.add
  · rw [UInt64.toNat_mod]
    exact small
  · rw [total]
    omega

/-- The time that is left is the ceiling, or the greatest word. -/
theorem remainingTimeNs_toNat (proper : Proper transfer)
    (positive : 0 < transfer.rate.toNat) :
    (remainingTimeNs transfer).toNat =
      min (owed transfer ⌈/⌉ transfer.rate.toNat) (2 ^ 64 - 1) := by
  have split := Nat.div_add_mod' transfer.remainingBytes.toNat transfer.rate.toNat
  have divides := fraction_divides proper positive
  have ceil := divides.ceil
  have below := Nat.mod_lt transfer.remainingBytes.toNat positive
  have whole : transfer.remainingFraction.toNat < 10 ^ 9 := proper
  have small := @quotient_lt _ _ (2 * 10 ^ 9) _ divides (by omega)
  have seconds : (transfer.remainingBytes / transfer.rate).toNat =
      transfer.remainingBytes.toNat / transfer.rate.toNat := UInt64.toNat_div _ _
  have owes : owed transfer =
      transfer.remainingBytes.toNat / transfer.rate.toNat * 10 ^ 9 * transfer.rate.toNat +
        (transfer.remainingBytes.toNat % transfer.rate.toNat * 10 ^ 9 +
          transfer.remainingFraction.toNat) := by
    unfold owed
    rw [Nat.mul_right_comm]
    omega
  rw [owes, mul_add_ceilDiv positive, ← ceil]
  unfold remainingTimeNs
  dsimp only
  by_cases many : uint64Max / nsPerSecond < transfer.remainingBytes / transfer.rate
  · have exceeds := limit_lt_of_seconds many
    rw [seconds] at exceeds
    rw [if_pos many, uint64Max_toNat]
    exact (min_eq_right (exceeds.le.trans (Nat.le_add_right _ _))).symm
  · have fits := seconds_fit many
    have product : (transfer.remainingBytes / transfer.rate * nsPerSecond).toNat =
        transfer.remainingBytes.toNat / transfer.rate.toNat * 10 ^ 9 := by
      rw [mul_toNat (by rw [nsPerSecond_toNat]; omega), seconds, nsPerSecond_toNat]
    rw [if_neg many, saturatedAdd_toNat, product]
    congr 2
    rw [add_toNat]
    · congr 1
      split <;> rfl
    · split
      · show _ + 1 < _
        omega
      · show _ + 0 < _
        omega

/-! ## Taking off what was moved -/

theorem subtractProduct_proper {left right : UInt64} (proper : Proper transfer) :
    Proper (subtractProduct transfer left right) := by
  unfold subtractProduct
  split
  · show (0 : UInt64).toNat < 10 ^ 9
    decide
  · exact proper

/-- A product takes its bytes off, or all that is owed. -/
theorem subtractProduct_owed {left right : UInt64} (proper : Proper transfer) :
    owed (subtractProduct transfer left right) =
      owed transfer - left.toNat * right.toNat * 10 ^ 9 := by
  have proper : transfer.remainingFraction.toNat < 10 ^ 9 := proper
  unfold subtractProduct
  split
  · rename_i more
    have positive : 0 < left.toNat := Nat.pos_of_ne_zero (ne_zero_iff.mp more.1)
    have above := UInt64.lt_iff_toNat_lt.mp more.2
    rw [UInt64.toNat_div, Nat.div_lt_iff_lt_mul positive, Nat.mul_comm] at above
    show 0 * 10 ^ 9 + 0 = owed transfer - _
    unfold owed
    omega
  · rename_i fits
    have bound : left.toNat * right.toNat ≤ transfer.remainingBytes.toNat := by
      by_cases none : left = 0
      · rw [none, UInt64.toNat_zero, Nat.zero_mul]
        exact Nat.zero_le _
      · have positive : 0 < left.toNat := Nat.pos_of_ne_zero (ne_zero_iff.mp none)
        have most : right.toNat ≤ (transfer.remainingBytes / left).toNat :=
          Nat.le_of_not_lt fun wrong =>
            fits ⟨none, UInt64.lt_iff_toNat_lt.mpr wrong⟩
        rw [UInt64.toNat_div, Nat.le_div_iff_mul_le positive, Nat.mul_comm] at most
        exact most
    have word := transfer.remainingBytes.toNat_lt
    have product : (left * right).toNat = left.toNat * right.toNat := mul_toNat (by omega)
    have rest : (transfer.remainingBytes - left * right).toNat =
        transfer.remainingBytes.toNat - left.toNat * right.toNat := by
      rw [sub_toNat (by omega), product]
    unfold owed
    dsimp only
    rw [rest]
    omega

theorem subtractFraction_owed {fraction : UInt64} (proper : Proper transfer)
    (small : fraction.toNat < 10 ^ 9) :
    Proper (subtractFraction transfer fraction) ∧
      owed (subtractFraction transfer fraction) = owed transfer - fraction.toNat := by
  have proper : transfer.remainingFraction.toNat < 10 ^ 9 := proper
  unfold subtractFraction Proper owed
  split_ifs with level borrow
  · have level := UInt64.le_iff_toNat_le.mp level
    dsimp only
    rw [sub_toNat level]
    constructor <;> omega
  · have level : ¬fraction.toNat ≤ transfer.remainingFraction.toNat := fun wrong =>
      level (UInt64.le_iff_toNat_le.mpr wrong)
    have borrow := ne_zero_iff.mp borrow
    have complement : (nsPerSecond - fraction).toNat = 10 ^ 9 - fraction.toNat :=
      sub_toNat small.le
    dsimp only
    have one : (1 : UInt64).toNat ≤ transfer.remainingBytes.toNat :=
      Nat.one_le_iff_ne_zero.mpr borrow
    rw [add_toNat (by omega), complement, sub_toNat one, UInt64.toNat_one]
    constructor <;> omega
  · have level : ¬fraction.toNat ≤ transfer.remainingFraction.toNat := fun wrong =>
      level (UInt64.le_iff_toNat_le.mpr wrong)
    rw [not_not] at borrow
    dsimp only
    rw [borrow, UInt64.toNat_zero, Nat.zero_mul, Nat.zero_add]
    refine ⟨by decide, ?_⟩
    omega

/-- A product by whole seconds, whole bytes and what is left of both. -/
theorem product_parts (elapsed rate : Nat) :
    elapsed * rate = elapsed * (rate / 10 ^ 9) * 10 ^ 9 +
      elapsed / 10 ^ 9 * (rate % 10 ^ 9) * 10 ^ 9 +
        elapsed % 10 ^ 9 * (rate % 10 ^ 9) / 10 ^ 9 * 10 ^ 9 +
          elapsed % 10 ^ 9 * (rate % 10 ^ 9) % 10 ^ 9 := by
  have rates := Nat.div_add_mod' rate (10 ^ 9)
  have times := Nat.div_add_mod' elapsed (10 ^ 9)
  have last := Nat.div_add_mod' (elapsed % 10 ^ 9 * (rate % 10 ^ 9)) (10 ^ 9)
  calc elapsed * rate
      = elapsed * (rate / 10 ^ 9 * 10 ^ 9 + rate % 10 ^ 9) := by rw [rates]
    _ = elapsed * (rate / 10 ^ 9) * 10 ^ 9 + elapsed * (rate % 10 ^ 9) := by ring
    _ = elapsed * (rate / 10 ^ 9) * 10 ^ 9 +
        (elapsed / 10 ^ 9 * 10 ^ 9 + elapsed % 10 ^ 9) * (rate % 10 ^ 9) := by rw [times]
    _ = elapsed * (rate / 10 ^ 9) * 10 ^ 9 +
        elapsed / 10 ^ 9 * (rate % 10 ^ 9) * 10 ^ 9 +
          elapsed % 10 ^ 9 * (rate % 10 ^ 9) := by ring
    _ = _ := by rw [Nat.add_assoc _ _ (elapsed % 10 ^ 9 * (rate % 10 ^ 9) % 10 ^ 9), last]

/-- What is owed falls by the rate times the time, to a billionth of a byte. -/
theorem advanceProgress_owed {now : UInt64} (proper : Proper transfer)
    (later : transfer.progressNs.toNat ≤ now.toNat) :
    Proper (advanceProgress transfer now) ∧
      owed (advanceProgress transfer now) =
        owed transfer - (now.toNat - transfer.progressNs.toNat) * transfer.rate.toNat := by
  have elapsed : (now - transfer.progressNs).toNat =
      now.toNat - transfer.progressNs.toNat := sub_toNat later
  have small := Nat.mod_lt (now - transfer.progressNs).toNat (by decide : 0 < 10 ^ 9)
  have slow := Nat.mod_lt transfer.rate.toNat (by decide : 0 < 10 ^ 9)
  have product : ((now - transfer.progressNs) % nsPerSecond *
      (transfer.rate % nsPerSecond)).toNat =
      (now - transfer.progressNs).toNat % 10 ^ 9 * (transfer.rate.toNat % 10 ^ 9) := by
    have fits : (now - transfer.progressNs).toNat % 10 ^ 9 *
        (transfer.rate.toNat % 10 ^ 9) ≤ 10 ^ 9 * 10 ^ 9 :=
      Nat.mul_le_mul small.le slow.le
    rw [mul_toNat, UInt64.toNat_mod, UInt64.toNat_mod, nsPerSecond_toNat]
    rw [UInt64.toNat_mod, UInt64.toNat_mod, nsPerSecond_toNat]
    omega
  unfold advanceProgress
  dsimp only
  have coarse := @subtractProduct_proper transfer (now - transfer.progressNs)
    (transfer.rate / nsPerSecond) proper
  have seconds := @subtractProduct_proper _ ((now - transfer.progressNs) / nsPerSecond)
    (transfer.rate % nsPerSecond) coarse
  have whole := @subtractProduct_proper _ ((now - transfer.progressNs) % nsPerSecond *
    (transfer.rate % nsPerSecond) / nsPerSecond) 1 seconds
  have fraction : ((now - transfer.progressNs) % nsPerSecond *
      (transfer.rate % nsPerSecond) % nsPerSecond).toNat < 10 ^ 9 := by
    rw [UInt64.toNat_mod]
    exact Nat.mod_lt _ (by decide)
  rcases subtractFraction_owed whole fraction with ⟨proper', exact⟩
  refine ⟨proper', ?_⟩
  rw [exact, subtractProduct_owed seconds, subtractProduct_owed coarse,
    subtractProduct_owed proper, Nat.sub_sub, Nat.sub_sub, Nat.sub_sub, ← elapsed,
    product_parts (now - transfer.progressNs).toNat transfer.rate.toNat]
  simp only [UInt64.toNat_div, UInt64.toNat_mod, product, nsPerSecond_toNat,
    UInt64.toNat_one, Nat.mul_one, Nat.add_assoc]

/-! ## Durations -/

theorem copyBits_eq (bits : Nat) {divisor value : UInt64} {division : Division}
    (small : value.toNat < divisor.toNat)
    (divides : division.Divides divisor (value.toNat * (10 ^ 9 / 2 ^ bits))) :
    copyBits divisor value bits division =
      some (division.scale divisor value nsPerSecond.toNat bits) := by
  induction bits generalizing division with
  | zero => rfl
  | succ bit ih =>
      have few : division.quotient.toNat < 10 ^ 9 + 1 := by
        apply quotient_lt divides
        calc value.toNat * (10 ^ 9 / 2 ^ (bit + 1))
            ≤ value.toNat * 10 ^ 9 := Nat.mul_le_mul_left _ (Nat.div_le_self _ _)
          _ ≤ divisor.toNat * 10 ^ 9 := Nat.mul_le_mul_right _ small.le
          _ < (10 ^ 9 + 1) * divisor.toNat := by omega
      have unchecked : ¬uint64Max / 2 < division.quotient := by
        intro wrong
        have wrong : 9223372036854775807 < division.quotient.toNat :=
          UInt64.lt_iff_toNat_lt.mp wrong
        omega
      unfold copyBits Division.scale
      rw [if_neg unchecked]
      apply ih
      exact Division.Divides.read_scale small (by decide) divides

/-- The exact duration, or nothing where it does not fit. -/
theorem copyDurationNs_eq (bytes rate : UInt64) :
    (copyDurationNs bytes rate).map UInt64.toNat =
      if rate ≠ 0 ∧ bytes.toNat * 10 ^ 9 ⌈/⌉ rate.toNat ≤ 2 ^ 64 - 1 then
        some (bytes.toNat * 10 ^ 9 ⌈/⌉ rate.toNat)
      else none := by
  unfold copyDurationNs
  by_cases none : rate = 0
  · simp [none]
  · have positive : 0 < rate.toNat := Nat.pos_of_ne_zero (ne_zero_iff.mp none)
    have split := Nat.div_add_mod' bytes.toNat rate.toNat
    have seconds : (bytes / rate).toNat = bytes.toNat / rate.toNat := UInt64.toNat_div _ _
    have modulus : (bytes % rate).toNat = bytes.toNat % rate.toNat := UInt64.toNat_mod _ _
    have small : (bytes % rate).toNat < rate.toNat := by
      rw [modulus]
      exact Nat.mod_lt _ positive
    have bits := @copyBits_eq 30 _ _ ⟨0, 0⟩ small (by
      rw [Nat.div_eq_of_lt (by decide), Nat.mul_zero]
      exact Division.divides_zero positive)
    have divides := @Division.scale_divides rate (bytes % rate) nsPerSecond.toNat 30 small
      (by decide) (by decide)
    generalize Division.scale rate (bytes % rate) nsPerSecond.toNat 30 ⟨0, 0⟩ = divided
      at bits divides
    have ceil := divides.ceil
    have total : bytes.toNat * 10 ^ 9 = bytes.toNat / rate.toNat * 10 ^ 9 * rate.toNat +
        (bytes % rate).toNat * nsPerSecond.toNat := by
      rw [modulus, nsPerSecond_toNat, Nat.mul_right_comm]
      omega
    have few : divided.quotient.toNat < 10 ^ 9 := by
      apply quotient_lt divides
      rw [nsPerSecond_toNat, Nat.mul_comm]
      exact Nat.mul_lt_mul_of_pos_left small (by decide)
    have rounded : (if divided.remainder ≠ 0 then divided.quotient + 1
        else divided.quotient).toNat =
        divided.quotient.toNat + if divided.remainder ≠ 0 then 1 else 0 := by
      split
      · apply add_toNat
        rw [UInt64.toNat_one]
        omega
      · rfl
    rw [if_neg none, total, mul_add_ceilDiv positive, ← ceil]
    dsimp only
    rw [bits]
    dsimp only
    by_cases many : uint64Max / nsPerSecond < bytes / rate
    · have exceeds := limit_lt_of_seconds many
      rw [seconds] at exceeds
      rw [if_pos many, if_neg]
      · rfl
      · rintro ⟨_, fits⟩
        exact absurd (Nat.le_add_right _ _)
          (Nat.not_le.mpr (Nat.lt_of_le_of_lt fits exceeds))
    · have fits := seconds_fit many
      rw [seconds] at fits
      have product : (bytes / rate * nsPerSecond).toNat =
          bytes.toNat / rate.toNat * 10 ^ 9 := by
        rw [mul_toNat (by rw [nsPerSecond_toNat, seconds]; omega), seconds,
          nsPerSecond_toNat]
      rw [if_neg many, addOverflow_eq, product, rounded]
      simp only [none, ne_eq, not_false_eq_true, true_and]

/-- What a phase takes at a rate. -/
def phaseCost (rate : UInt64) (phase : TransferPhase) : Nat :=
  if phase.kind = phaseCopy then phase.bytes.toNat * 10 ^ 9 ⌈/⌉ rate.toNat
  else phase.durationNs.toNat

/-- A word for an exact number, if it has one and the request is a known one. -/
def asWord (known : Prop) [Decidable known] (exact : Nat) : Option Nat :=
  if known ∧ exact ≤ 2 ^ 64 - 1 then some exact else none

theorem phaseDurationNs_eq {rate : UInt64} (positive : rate ≠ 0) (phase : TransferPhase) :
    (phaseDurationNs rate phase).map UInt64.toNat =
      asWord (phase.kind ≤ phaseTimed) (phaseCost rate phase) := by
  unfold phaseDurationNs phaseCost asWord
  by_cases unknown : phaseTimed < phase.kind
  · rw [if_pos unknown, if_neg (fun both => absurd unknown (UInt8.not_lt.mpr both.1))]
    rfl
  · have known := UInt8.not_lt.mp unknown
    rw [if_neg unknown]
    by_cases copies : phase.kind = phaseCopy
    · rw [if_pos copies, if_pos copies, copyDurationNs_eq]
      simp only [positive, known, ne_eq, not_false_eq_true, true_and]
    · have fits := toNat_le_limit phase.durationNs
      rw [if_neg copies, if_neg copies, if_pos ⟨known, fits⟩]
      rfl

theorem asWord_pos {known : Prop} [Decidable known] {exact : Nat} (holds : known)
    (fits : exact ≤ 2 ^ 64 - 1) : asWord known exact = some exact :=
  if_pos ⟨holds, fits⟩

theorem asWord_neg {known : Prop} [Decidable known] {exact : Nat}
    (refused : ¬(known ∧ exact ≤ 2 ^ 64 - 1)) : asWord known exact = none :=
  if_neg refused

theorem asWord_none {known : Prop} [Decidable known] {exact : Nat}
    (refused : asWord known exact = none) : ¬(known ∧ exact ≤ 2 ^ 64 - 1) := by
  intro both
  rw [asWord_pos both.1 both.2] at refused
  cases refused

theorem asWord_some {known : Prop} [Decidable known] {exact word : Nat}
    (answered : asWord known exact = some word) : known ∧ exact = word := by
  unfold asWord at answered
  split at answered
  · rename_i both
    exact ⟨both.1, Option.some.inj answered⟩
  · cases answered

theorem addOverflow_asWord (left right : UInt64) :
    (addOverflow left right).map UInt64.toNat = asWord True (left.toNat + right.toNat) := by
  rw [addOverflow_eq]
  unfold asWord
  simp only [true_and]

theorem addPhases_eq {rate : UInt64} (positive : rate ≠ 0) (phases : List TransferPhase)
    (total : UInt64) :
    (addPhases rate total phases).map UInt64.toNat =
      asWord (∀ phase ∈ phases, phase.kind ≤ phaseTimed)
        (total.toNat + (phases.map (phaseCost rate)).sum) := by
  induction phases generalizing total with
  | nil =>
      have fits := toNat_le_limit total
      rw [List.map_nil, List.sum_nil, Nat.add_zero]
      exact (asWord_pos (fun _ mem => by cases mem) fits).symm
  | cons phase rest ih =>
      have exact := phaseDurationNs_eq positive phase
      rw [List.map_cons, List.sum_cons]
      generalize (rest.map (phaseCost rate)).sum = later at ih ⊢
      generalize phaseCost rate phase = cost at exact ⊢
      unfold addPhases
      cases duration : phaseDurationNs rate phase with
      | none =>
          rw [duration] at exact
          have refused := asWord_none exact.symm
          symm
          apply asWord_neg
          rintro ⟨known, fits⟩
          exact refused ⟨known phase (List.mem_cons_self ..), by omega⟩
      | some word =>
          rw [duration] at exact
          rcases asWord_some exact.symm with ⟨known, same⟩
          have sum := addOverflow_asWord total word
          rw [Option.bind_eq_bind, Option.bind_some]
          cases added : addOverflow total word with
          | none =>
              rw [added] at sum
              have exceeds := asWord_none sum.symm
              symm
              apply asWord_neg
              rintro ⟨_, fits⟩
              exact exceeds ⟨trivial, by omega⟩
          | some next =>
              rw [added] at sum
              have value := (asWord_some sum.symm).2
              rw [Option.bind_some, ih, ← value, same, Nat.add_assoc]
              unfold asWord
              simp only [List.forall_mem_cons, known, true_and]

/-- A request that `shadowspill_transfer_duration_ns` answers unless the result is too
large. -/
def Admissible (program : Program) (aliasId : UInt32) (direction : UInt8)
    (rate : UInt64) : Prop :=
  (aliasId < program.aliasCount ∧ direction ≤ transferEvict ∧ rate ≠ 0) ∧
    (phaseBegin program aliasId direction ≤ phaseEnd program aliasId direction ∧
      (phaseEnd program aliasId direction).toNat ≤ program.transferPhases.length) ∧
    ∀ phase ∈ phasesOf program aliasId direction, phase.kind ≤ phaseTimed

instance (program : Program) (aliasId : UInt32) (direction : UInt8) (rate : UInt64) :
    Decidable (Admissible program aliasId direction rate) :=
  inferInstanceAs (Decidable (_ ∧ _ ∧ _))

/-- The ceiling for a plain copy, and the sum over the phases of another. -/
def transferCost (program : Program) (aliasId : UInt32) (direction : UInt8)
    (rate : UInt64) : Nat :=
  if phaseBegin program aliasId direction = phaseEnd program aliasId direction then
    (program.aliasSizeBytes aliasId).toNat * 10 ^ 9 ⌈/⌉ rate.toNat
  else ((phasesOf program aliasId direction).map (phaseCost rate)).sum

theorem transferDurationNs_eq (program : Program) (aliasId : UInt32) (direction : UInt8)
    (rate : UInt64) :
    (transferDurationNs program aliasId direction rate).map UInt64.toNat =
      asWord (Admissible program aliasId direction rate)
        (transferCost program aliasId direction rate) := by
  unfold transferDurationNs asWord transferCost
  by_cases invalid : program.aliasCount ≤ aliasId ∨ transferEvict < direction ∨ rate = 0
  · rw [if_pos invalid, if_neg]
    · rfl
    · rintro ⟨⟨⟨inside, known, positive⟩, _⟩, _⟩
      rcases invalid with outside | unknown | zero
      · exact absurd inside (UInt32.not_lt.mpr outside)
      · exact absurd unknown (UInt8.not_lt.mpr known)
      · exact positive zero
  · have valid := not_or.mp invalid
    have rest := not_or.mp valid.2
    have accepted : aliasId < program.aliasCount ∧ direction ≤ transferEvict ∧ rate ≠ 0 :=
      ⟨UInt32.not_le.mp valid.1, UInt8.not_lt.mp rest.1, rest.2⟩
    rw [if_neg invalid]
    by_cases broken : phaseEnd program aliasId direction <
        phaseBegin program aliasId direction ∨
      program.transferPhases.length < (phaseEnd program aliasId direction).toNat
    · rw [if_pos broken, if_neg]
      · rfl
      · rintro ⟨⟨_, ⟨ordered, bounded⟩, _⟩, _⟩
        rcases broken with disordered | outside
        · exact absurd disordered (UInt32.not_lt.mpr ordered)
        · exact absurd outside (Nat.not_lt.mpr bounded)
    · have whole := not_or.mp broken
      have ranged := And.intro (UInt32.not_lt.mp whole.1) (Nat.le_of_not_lt whole.2)
      rw [if_neg broken]
      by_cases plain : phaseBegin program aliasId direction =
          phaseEnd program aliasId direction
      · have none : phasesOf program aliasId direction = [] := by
          unfold phasesOf
          dsimp only
          rw [plain, Nat.sub_self, List.take_zero]
        have admissible : Admissible program aliasId direction rate :=
          ⟨accepted, ranged, by rw [none]; exact (fun _ mem => by cases mem)⟩
        rw [if_pos plain, if_pos plain, copyDurationNs_eq]
        simp only [accepted.2.2, admissible, ne_eq, not_false_eq_true, true_and]
      · rw [if_neg plain, if_neg plain, addPhases_eq accepted.2.2]
        unfold asWord Admissible
        rw [UInt64.toNat_zero, Nat.zero_add]
        simp only [accepted, ranged, ne_eq, not_false_eq_true, and_self, true_and]

end ShadowSpill.Simulator.TransferArithmetic
