import ShadowSpill.Planner.Schedule.Fetches

/-!
# Fingerprints

A residency, the extra pressure and a schedule are compared by fingerprints of 128 bits:
two hashes of 64 bits over the same bytes.
-/

namespace ShadowSpill.Planner.Search.CandidateFingerprints

open Library.Word64 Ir.Schedule Schedule.Fetches
open Residency.Problem (MemoryLocation)

/-- `Fingerprint`. -/
structure Fingerprint where
  low : Nat
  high : Nat
deriving DecidableEq, Repr

/-- `ShadowSpillIndexedSchedule`. -/
structure IndexedSchedule where
  actions : List MemoryAction
  initial : List ResidencySpec
  final : List ResidencySpec
deriving DecidableEq, Repr

/-- `ShadowSpillResidency`: for each alias the spans of boundaries at which it is kept. -/
abbrev Residency := List (List (Nat × Nat))

/-! ## Bytes -/

/-- A number in so many bytes, the lowest first. -/
def littleEndian (width value : Nat) : List Nat :=
  (List.range width).map fun index => value / 256 ^ index % 256

/-- The number that bytes hold. -/
def wordOf (bytes : List Nat) : Nat :=
  bytes.foldr (fun byte rest => byte + 256 * rest) 0

/-! ## Hashes -/

/-- One more word of a hash. -/
def mix (prime hash word : Nat) : Nat :=
  wrap ((hash ^^^ word) * prime)

/-- `hash_words`: eight bytes at a time, and the last ones one by one. -/
def hashWords (prime : Nat) : Nat → List Nat → Nat
  | hash, b0 :: b1 :: b2 :: b3 :: b4 :: b5 :: b6 :: b7 :: rest =>
    hashWords prime (mix prime hash (wordOf [b0, b1, b2, b3, b4, b5, b6, b7])) rest
  | hash, bytes => bytes.foldl (mix prime) hash

def lowPrime : Nat := 1099511628211

def highPrime : Nat := 0x9E3779B97F4A7C15

def lowBasis : Nat := 1469598103934665603

/-- `shadowspill_candidate_hash_bytes`. -/
def hashBytes (hash : Nat) (bytes : List Nat) : Nat :=
  hashWords lowPrime hash bytes

/-- `shadowspill_candidate_hash_bytes_high`. -/
def hashBytesHigh (hash : Nat) (bytes : List Nat) : Nat :=
  hashWords highPrime hash bytes

def locationCode : MemoryLocation → Nat
  | .device => 0
  | .spill => 1

/-- The arrays of a boundary residency. -/
def residencyPieces (specs : List ResidencySpec) : List (List Nat) :=
  [littleEndian 8 specs.length,
    specs.flatMap fun spec => littleEndian 4 spec.aliasId,
    specs.map fun spec => locationCode spec.location]

/-- The arrays of a schedule. -/
def schedulePieces (schedule : IndexedSchedule) : List (List Nat) :=
  [littleEndian 8 schedule.actions.length,
    schedule.actions.flatMap fun action => littleEndian 4 action.trigger,
    schedule.actions.flatMap fun action => littleEndian 4 action.aliasId,
    schedule.actions.map fun action => kindCode action.kind] ++
  residencyPieces schedule.initial ++ residencyPieces schedule.final

/-- `schedule_hash_with`. -/
def scheduleHashWith (step : Nat → List Nat → Nat) (schedule : IndexedSchedule) (hash : Nat) :
    Nat :=
  (schedulePieces schedule).foldl step hash

/-- `indexed_schedule_fingerprint`. -/
def scheduleFingerprint (schedule : IndexedSchedule) : Fingerprint where
  low := scheduleHashWith hashBytes schedule lowBasis
  high := scheduleHashWith hashBytesHigh schedule lowPrime

/-- `shadowspill_residency_hash`. -/
def residencyHash (residency : Residency) (hash prime : Nat) : Nat :=
  residency.foldl (fun hash spans =>
    (spans.flatMap fun span => [span.1, span.2]).foldl (mix prime)
      (mix prime hash spans.length)) hash

/-- The fingerprint that `shadowspill_candidate_reduce_residency` gives a residency. -/
def residencyFingerprint (residency : Residency) : Fingerprint where
  low := residencyHash residency lowBasis lowPrime
  high := residencyHash residency lowPrime highPrime

/-- The fingerprint of the extra pressure, cell by cell. -/
def pressureFingerprint (pressure : List Nat) : Fingerprint where
  low := hashBytes lowBasis (pressure.flatMap (littleEndian 8))
  high := hashBytesHigh lowPrime (pressure.flatMap (littleEndian 8))

def fingerprintBytes (fingerprint : Fingerprint) : List Nat :=
  littleEndian 8 fingerprint.low ++ littleEndian 8 fingerprint.high

/-- `schedule_memo_hash`. -/
def scheduleMemoHash (residency pressure : Fingerprint) (rule fetchHeadroom : Nat) : Nat :=
  [fingerprintBytes residency, fingerprintBytes pressure, littleEndian 1 rule,
    littleEndian 1 fetchHeadroom].foldl hashBytes lowBasis

/-- `hash_slot`; capacities are powers of two. -/
def hashSlot (hash capacity : Nat) : Nat :=
  let folded := hash ^^^ (hash >>> 33)
  let spread := wrap (folded * 0xff51afd7ed558ccd)
  (spread ^^^ (spread >>> 33)) % 2 ^ 32 &&& (capacity - 1)

theorem hashSlot_lt {hash capacity : Nat} (positive : 0 < capacity) :
    hashSlot hash capacity < capacity := by
  have bounded : hashSlot hash capacity ≤ capacity - 1 := Nat.and_le_right
  omega

end ShadowSpill.Planner.Search.CandidateFingerprints
