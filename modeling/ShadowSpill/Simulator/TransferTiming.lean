import ShadowSpill.Library.RestoringDivision

/-!
# The timing of a copy

What a copy still owes is kept in bytes and billionths of a byte.  A change of its rate
first takes off what was moved at the old rate, and then sets the end to the time at which
the rest is moved at the new one.
-/

namespace ShadowSpill.Simulator.TransferTiming

open Library.RestoringDivision

/-- `UINT64_MAX`. -/
def uint64Max : UInt64 := 18446744073709551615

/-- `NS_PER_SECOND`. -/
def nsPerSecond : UInt64 := 1000000000

def saturatedAdd (left right : UInt64) : UInt64 :=
  if uint64Max - right < left then uint64Max else left + right

/-- `shadowspill_add_overflow_u64`. -/
def addOverflow (left right : UInt64) : Option UInt64 :=
  if uint64Max - right < left then none else some (left + right)

/-! ## A copy in progress -/

/-- A transfer in a copy phase. -/
structure Transfer where
  payloadStartNs : UInt64
  remainingBytes : UInt64
  /-- Billionths of a byte. -/
  remainingFraction : UInt64
  progressNs : UInt64
  rate : UInt64
  endNs : UInt64
  deriving DecidableEq, Repr

/-- Divide a multiple of a billion by a larger divisor than the multiplicand. -/
def scaledDivide (multiplicand divisor : UInt64) : Division :=
  if multiplicand ≤ uint64Max / nsPerSecond then
    let product := multiplicand * nsPerSecond
    ⟨product / divisor, product % divisor⟩
  else Division.scale divisor multiplicand nsPerSecond.toNat 30 ⟨0, 0⟩

def remainingTimeNs (transfer : Transfer) : UInt64 :=
  let rate := transfer.rate
  let seconds := transfer.remainingBytes / rate
  if uint64Max / nsPerSecond < seconds then uint64Max
  else
    let scaled := scaledDivide (transfer.remainingBytes % rate) rate
    let whole := scaled.quotient + transfer.remainingFraction / rate
    let fraction := transfer.remainingFraction % rate
    let divided := Division.add rate fraction ⟨whole, scaled.remainder⟩
    let rounded := divided.quotient + if divided.remainder ≠ 0 then 1 else 0
    saturatedAdd (seconds * nsPerSecond) rounded

def subtractProduct (transfer : Transfer) (left right : UInt64) : Transfer :=
  if left ≠ 0 ∧ transfer.remainingBytes / left < right then
    { transfer with remainingBytes := 0, remainingFraction := 0 }
  else { transfer with remainingBytes := transfer.remainingBytes - left * right }

def subtractFraction (transfer : Transfer) (fraction : UInt64) : Transfer :=
  if fraction ≤ transfer.remainingFraction then
    { transfer with remainingFraction := transfer.remainingFraction - fraction }
  else if transfer.remainingBytes ≠ 0 then
    { transfer with
      remainingBytes := transfer.remainingBytes - 1
      remainingFraction := transfer.remainingFraction + (nsPerSecond - fraction) }
  else { transfer with remainingFraction := 0 }

def advanceProgress (transfer : Transfer) (now : UInt64) : Transfer :=
  let elapsed := now - transfer.progressNs
  let rate := transfer.rate
  let rateFraction := rate % nsPerSecond
  let product := elapsed % nsPerSecond * rateFraction
  let coarse := subtractProduct transfer elapsed (rate / nsPerSecond)
  let seconds := subtractProduct coarse (elapsed / nsPerSecond) rateFraction
  let whole := subtractProduct seconds (product / nsPerSecond) 1
  subtractFraction whole (product % nsPerSecond)

/-- `start_phase` for a copy. -/
def startPhase (bytes now : UInt64) : Transfer where
  payloadStartNs := now
  remainingBytes := bytes
  remainingFraction := 0
  progressNs := now
  rate := 0
  endNs := if bytes = 0 then now else uint64Max

def payloadActive (transfer : Transfer) (now : UInt64) : Bool :=
  transfer.payloadStartNs ≤ now &&
    (transfer.remainingBytes != 0 || transfer.remainingFraction != 0)

def setRate (transfer : Transfer) (rate now : UInt64) : Transfer :=
  if rate = transfer.rate then transfer
  else
    let advanced :=
      if transfer.rate ≠ 0 then advanceProgress transfer now else transfer
    let changed := { advanced with progressNs := now, rate := rate }
    if rate ≠ 0 then { changed with endNs := saturatedAdd now (remainingTimeNs changed) }
    else changed

/-- `shadowspill_refresh_transfer_rates` for one transfer, with the rate of its lane. -/
def refreshTransferRate (transfer : Transfer) (rate now : UInt64) : Transfer :=
  setRate transfer (if payloadActive transfer now then rate else 0) now

/-! ## A copy under the event loop -/

/-- What the event loop makes of a copy: the states in which it was left by a change of
rates, with their times, and the time at which it was complete. -/
structure Progress where
  refreshed : List (UInt64 × Transfer)
  completed : Option UInt64

/-- The rounds of the main loop while a copy is active.  A rate is given at each interval's
start; the interval ends with another event of the simulation, and the last rate stays.  The
next event is the earliest, and `UINT64_MAX` stands for none. -/
def progress (transfer : Transfer) (now last : UInt64) :
    List (UInt64 × UInt64) → Progress
  | [] =>
    let refreshed := refreshTransferRate transfer last now
    { refreshed := [(now, refreshed)]
      completed := if refreshed.endNs = uint64Max then none else some refreshed.endNs }
  | (rate, duration) :: rest =>
    let refreshed := refreshTransferRate transfer rate now
    let change := saturatedAdd now duration
    let next := if refreshed.endNs ≤ change then refreshed.endNs else change
    if next = uint64Max then { refreshed := [(now, refreshed)], completed := none }
    else if refreshed.endNs = next then
      { refreshed := [(now, refreshed)], completed := some next }
    else
      let later := progress refreshed next last rest
      { later with refreshed := (now, refreshed) :: later.refreshed }

/-! ## Durations -/

/-- The bits of `copy_duration_ns`, whose quotient is checked before it is doubled. -/
def copyBits (divisor value : UInt64) : Nat → Division → Option Division
  | 0, division => some division
  | bit + 1, division =>
    if uint64Max / 2 < division.quotient then none
    else copyBits divisor value bit
      (division.read divisor value (nsPerSecond.toNat.testBit bit))

def copyDurationNs (numerator denominator : UInt64) : Option UInt64 :=
  if denominator = 0 then none
  else
    let whole := numerator / denominator
    let remainder := numerator % denominator
    if uint64Max / nsPerSecond < whole then none
    else
      match copyBits denominator remainder 30 ⟨0, 0⟩ with
      | none => none
      | some divided =>
        addOverflow (whole * nsPerSecond)
          (if divided.remainder ≠ 0 then divided.quotient + 1 else divided.quotient)

/-- `ShadowSpillTransferPhase`, as far as a duration depends on it. -/
structure TransferPhase where
  kind : UInt8
  bytes : UInt64
  durationNs : UInt64

/-- `SHADOWSPILL_TRANSFER_PHASE_COPY`. -/
def phaseCopy : UInt8 := 0

/-- `SHADOWSPILL_TRANSFER_PHASE_TIMED`. -/
def phaseTimed : UInt8 := 1

/-- `SHADOWSPILL_TRANSFER_EVICT`. -/
def transferEvict : UInt8 := 1

/-- What a simulation program says of transfers. -/
structure Program where
  aliasCount : UInt32
  aliasSizeBytes : UInt32 → UInt64
  aliasTransferOffsets : Option (UInt32 → UInt32)
  transferPhases : List TransferPhase

def phaseBegin (program : Program) (aliasId : UInt32) (direction : UInt8) : UInt32 :=
  match program.aliasTransferOffsets with
  | none => 0
  | some offsets => offsets (aliasId * 2 + direction.toUInt32)

def phaseEnd (program : Program) (aliasId : UInt32) (direction : UInt8) : UInt32 :=
  match program.aliasTransferOffsets with
  | none => 0
  | some offsets => offsets (aliasId * 2 + direction.toUInt32 + 1)

/-- The phases of an alias in a direction. -/
def phasesOf (program : Program) (aliasId : UInt32) (direction : UInt8) :
    List TransferPhase :=
  let first := (phaseBegin program aliasId direction).toNat
  (program.transferPhases.drop first).take
    ((phaseEnd program aliasId direction).toNat - first)

def phaseDurationNs (rate : UInt64) (phase : TransferPhase) : Option UInt64 :=
  if phaseTimed < phase.kind then none
  else if phase.kind = phaseCopy then copyDurationNs phase.bytes rate
  else some phase.durationNs

def addPhases (rate total : UInt64) : List TransferPhase → Option UInt64
  | [] => some total
  | phase :: rest => do
    let duration ← phaseDurationNs rate phase
    let sum ← addOverflow total duration
    addPhases rate sum rest

/-- `shadowspill_transfer_duration_ns`. -/
def transferDurationNs (program : Program) (aliasId : UInt32) (direction : UInt8)
    (rate : UInt64) : Option UInt64 :=
  if program.aliasCount ≤ aliasId ∨ transferEvict < direction ∨ rate = 0 then none
  else if phaseEnd program aliasId direction < phaseBegin program aliasId direction ∨
      program.transferPhases.length < (phaseEnd program aliasId direction).toNat then none
  else if phaseBegin program aliasId direction = phaseEnd program aliasId direction then
    copyDurationNs (program.aliasSizeBytes aliasId) rate
  else addPhases rate 0 (phasesOf program aliasId direction)

end ShadowSpill.Simulator.TransferTiming
