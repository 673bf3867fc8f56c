import ShadowSpill.Runtime.PoolLeases
import ShadowSpill.Runtime.RangeRequests

/-!
# What a pool keeps

The ranges of the registered owners and the free ranges tile the pool, the
reserved bytes are the charges of the reserved leases, and a predecessor and its
successor name each other.  Each kind of change a call makes to the lease
records has one lemma here.
-/

namespace ShadowSpill.Runtime.PoolInvariant

open Ranges RangeTiling PoolLeases

/-- The range a lease is charged for. -/
def leaseRange (lease : Lease) : Range :=
  ⟨lease.offset, lease.chargedBytes⟩

/-- The ranges of the listed leases that own theirs. -/
def ownedRanges (leases : Nat → Lease) (listed : List Nat) : List Range :=
  (listed.filter fun lease => (leases lease).ownsPoolRange).map fun lease =>
    leaseRange (leases lease)

/-- What a lease adds to the reserved bytes. -/
def reservedCharge (lease : Lease) : Nat :=
  match lease.state with
  | .reserved | .successorReserved => lease.chargedBytes
  | _ => 0

/-- The charges of the leases in a reserved state. -/
def reservedTotal (count : Nat) (leases : Nat → Lease) : Nat :=
  ∑ lease ∈ Finset.range count, reservedCharge (leases lease)

/-- A predecessor that retires and the successor that claims its range name each
other, by number and generation, over one range. -/
structure Joins (predecessor successor : Nat) (source claim : Lease) : Prop where
  source_registered : source.registered = true
  retiring : source.state = .retirePending
  source_owns : source.ownsPoolRange = true
  claim_registered : claim.registered = true
  claiming : claim.state = .successorReserved
  claim_owns : claim.ownsPoolRange = true
  successor : source.causalSuccessor = some successor
  predecessor : claim.causalPredecessor = some predecessor
  generation : claim.causalPredecessorGeneration = source.generation
  offset : claim.offset = source.offset
  charged : claim.chargedBytes = source.chargedBytes

/-- What the record with a number says by itself. -/
structure Valid (count lease : Nat) (record : Lease) : Prop where
  numbered : record.registered = true → lease < count
  active : record.registered = true ↔
    record.state ≠ .free ∧ record.state ≠ .predecessorTransferred
  charges : record.registered = true → 0 < record.chargedBytes
  claimed : record.state = .successorReserved →
    record.causalPredecessor.isSome = true

/-- The first `count` lease records are valid, and every link joins two of
them. -/
structure Records (count : Nat) (leases : Nat → Lease) : Prop where
  valid : ∀ lease, Valid count lease (leases lease)
  forward : ∀ source claim, (leases source).causalSuccessor = some claim →
    Joins source claim (leases source) (leases claim)
  back : ∀ source claim, (leases claim).causalPredecessor = some source →
    Joins source claim (leases source) (leases claim)

/-- The records, the list of owners and the reserved bytes agree. -/
structure Registry (count : Nat) (pool : MemoryPool) : Prop where
  alignment : 0 < pool.minimumAlignment
  records : Records count pool.leases
  nodup : pool.rangeLeases.Nodup
  listed : ∀ lease, lease ∈ pool.rangeLeases ↔
    (pool.leases lease).registered = true ∧
      (pool.leases lease).state ≠ .successorReserved
  reserved : pool.reservedBytes = reservedTotal count pool.leases

/-- The invariant of a pool of `count` lease records. -/
structure Consistent (count : Nat) (pool : MemoryPool) : Prop
    extends Registry count pool where
  tiled : Tiled pool.ranges (ownedRanges pool.leases pool.rangeLeases)

/-! ## Owned ranges -/

section Owned

variable {leases changed : Nat → Lease} {listed : List Nat} {lease : Nat}

theorem ownedRanges_perm {other : List Nat} (perm : listed.Perm other) :
    (ownedRanges leases listed).Perm (ownedRanges leases other) :=
  (perm.filter _).map _

theorem ownedRanges_cons :
    ownedRanges leases (lease :: listed) =
      if (leases lease).ownsPoolRange then
        leaseRange (leases lease) :: ownedRanges leases listed
      else ownedRanges leases listed := by
  unfold ownedRanges
  rw [List.filter_cons]
  split_ifs <;> simp

/-- The range of a listed owner comes first in some order. -/
theorem ownedRanges_erase (mem : lease ∈ listed) :
    (ownedRanges leases listed).Perm
      (if (leases lease).ownsPoolRange then
        leaseRange (leases lease) :: ownedRanges leases (listed.erase lease)
      else ownedRanges leases (listed.erase lease)) := by
  rw [← ownedRanges_cons]
  exact ownedRanges_perm (List.perm_cons_erase mem)

/-- Renaming the listed leases keeps the ranges they own, when each owns what
its old name did. -/
theorem ownedRanges_map (rename : Nat → Nat)
    (owns : ∀ lease ∈ listed,
      (changed (rename lease)).ownsPoolRange = (leases lease).ownsPoolRange)
    (same : ∀ lease ∈ listed,
      leaseRange (changed (rename lease)) = leaseRange (leases lease)) :
    ownedRanges changed (listed.map rename) = ownedRanges leases listed := by
  induction listed with
  | nil => rfl
  | cons lease listed ih =>
      rw [List.map_cons, ownedRanges_cons, ownedRanges_cons,
        owns lease (by simp), same lease (by simp),
        ih (fun other mem => owns other (by simp [mem]))
          (fun other mem => same other (by simp [mem]))]

theorem ownedRanges_congr
    (owns : ∀ lease ∈ listed,
      (changed lease).ownsPoolRange = (leases lease).ownsPoolRange)
    (same : ∀ lease ∈ listed,
      leaseRange (changed lease) = leaseRange (leases lease)) :
    ownedRanges changed listed = ownedRanges leases listed := by
  have renamed := ownedRanges_map id owns same
  rwa [List.map_id] at renamed

end Owned

/-! ## Reserved charges -/

section Charges

variable {count lease : Nat} {leases : Nat → Lease} {record : Lease}

theorem reservedTotal_update (bound : lease < count) :
    reservedTotal count (Function.update leases lease record) +
        reservedCharge (leases lease) =
      reservedTotal count leases + reservedCharge record := by
  have mem : lease ∈ Finset.range count := Finset.mem_range.2 bound
  have others : ∑ other ∈ (Finset.range count).erase lease,
        reservedCharge (Function.update leases lease record other) =
      ∑ other ∈ (Finset.range count).erase lease, reservedCharge (leases other) := by
    apply Finset.sum_congr rfl
    intro other otherMem
    rw [Function.update_of_ne (Finset.ne_of_mem_erase otherMem)]
  unfold reservedTotal
  rw [← Finset.add_sum_erase _ _ mem, ← Finset.add_sum_erase _ _ mem, others,
    Function.update_self]
  omega

theorem reservedTotal_same
    (same : reservedCharge record = reservedCharge (leases lease)) :
    reservedTotal count (Function.update leases lease record) =
      reservedTotal count leases := by
  unfold reservedTotal
  apply Finset.sum_congr rfl
  intro other _
  by_cases equal : other = lease
  · rw [equal, Function.update_self, same]
  · rw [Function.update_of_ne equal]

theorem reservedCharge_le_total (bound : lease < count) :
    reservedCharge (leases lease) ≤ reservedTotal count leases :=
  Finset.single_le_sum (f := fun other => reservedCharge (leases other))
    (fun _ _ => Nat.zero_le _) (Finset.mem_range.2 bound)

end Charges

/-! ## Links -/

section Links

variable {count lease source claim : Nat} {leases : Nat → Lease}

theorem Joins.ne (joins : Joins source claim (leases source) (leases claim)) :
    source ≠ claim := by
  rintro rfl
  have states := joins.retiring.symm.trans joins.claiming
  cases states

/-- A lease with a successor retires. -/
theorem Records.no_successor (records : Records count leases)
    (state : (leases lease).state ≠ .retirePending) :
    (leases lease).causalSuccessor = none := by
  cases link : (leases lease).causalSuccessor with
  | none => rfl
  | some claim => exact absurd (records.forward lease claim link).retiring state

/-- A lease with a predecessor waits for its range. -/
theorem Records.no_predecessor (records : Records count leases)
    (state : (leases lease).state ≠ .successorReserved) :
    (leases lease).causalPredecessor = none := by
  cases link : (leases lease).causalPredecessor with
  | none => rfl
  | some source => exact absurd (records.back source lease link).claiming state

/-- An unregistered lease is free or has passed its range on. -/
theorem Records.unregistered (records : Records count leases)
    (unregistered : (leases lease).registered = false) :
    (leases lease).state = .free ∨
      (leases lease).state = .predecessorTransferred := by
  have active := (records.valid lease).active
  rw [unregistered] at active
  by_contra other
  rw [not_or] at other
  exact Bool.false_ne_true (active.2 other)

/-- The predecessor of a claim is its own. -/
theorem Joins.claim_unique {other : Nat}
    (first : Joins source claim (leases source) (leases claim))
    (second : Joins other claim (leases other) (leases claim)) :
    other = source :=
  Option.some.inj (second.predecessor.symm.trans first.predecessor)

theorem Joins.source_unique {other : Nat}
    (first : Joins source claim (leases source) (leases claim))
    (second : Joins source other (leases source) (leases other)) :
    other = claim :=
  Option.some.inj (second.successor.symm.trans first.successor)

end Links

/-! ## Changes of one record -/

section Records

variable {count lease : Nat} {leases : Nat → Lease} {record : Lease}

theorem valid_update (records : Records count leases)
    (valid : Valid count lease record) (other : Nat) :
    Valid count other (Function.update leases lease record other) := by
  by_cases here : other = lease
  · rw [here, Function.update_self]
    exact valid
  · rw [Function.update_of_ne here]
    exact records.valid other

/-- A record that keeps its place, its range and its links, and that retires
while it has a successor. -/
structure Restates (before after : Lease) : Prop where
  registered : after.registered = before.registered
  owns : after.ownsPoolRange = before.ownsPoolRange
  range : leaseRange after = leaseRange before
  generation : after.generation = before.generation
  successor : after.causalSuccessor = before.causalSuccessor
  predecessor : after.causalPredecessor = before.causalPredecessor
  listed : before.state = .inUse ∨ before.state = .retirePending ∨
    before.state = .reserved
  relisted : after.state = .inUse ∨ after.state = .retirePending ∨
    after.state = .reserved
  retiring : before.causalSuccessor.isSome = true → after.state = .retirePending

theorem Restates.valid (restates : Restates (leases lease) record)
    (valid : Valid count lease (leases lease)) : Valid count lease record := by
  obtain ⟨registered, owns, range, generation, successor, predecessor, listed,
    relisted, retiring⟩ := restates
  simp only [leaseRange, Range.mk.injEq] at range
  obtain ⟨numbered, active, charges, claimed⟩ := valid
  constructor <;> grind

theorem Records.restate (records : Records count leases)
    (restates : Restates (leases lease) record) :
    Records count (Function.update leases lease record) := by
  have valid := restates.valid (records.valid lease)
  obtain ⟨registered, owns, range, generation, successor, predecessor, listed,
    relisted, retiring⟩ := restates
  simp only [leaseRange, Range.mk.injEq] at range
  -- A claim is not listed, so only the source of a link can be restated.
  have joins : ∀ {source claim}, Joins source claim (leases source) (leases claim) →
      Joins source claim (Function.update leases lease record source)
        (Function.update leases lease record claim) := by
    intro source claim joins
    have claimElse : claim ≠ lease := by
      rintro rfl
      have claiming := joins.claiming
      rcases listed with state | state | state <;> rw [state] at claiming <;>
        cases claiming
    rw [Function.update_of_ne claimElse]
    by_cases here : source = lease
    · subst here
      rw [Function.update_self]
      constructor <;> grind [Joins]
    · rw [Function.update_of_ne here]
      exact joins
  refine ⟨valid_update records valid, ?_, ?_⟩
  · intro source claim link
    apply joins
    apply records.forward
    by_cases here : source = lease
    · subst here
      rwa [Function.update_self, successor] at link
    · rwa [Function.update_of_ne here] at link
  · intro source claim link
    apply joins
    apply records.back
    by_cases here : claim = lease
    · subst here
      rwa [Function.update_self, predecessor] at link
    · rwa [Function.update_of_ne here] at link

/-- A record without links. -/
structure Unlinked (record : Lease) : Prop where
  successor : record.causalSuccessor = none
  predecessor : record.causalPredecessor = none

/-- A lease without links may be given any valid record without links. -/
theorem Records.replace (records : Records count leases)
    (before : Unlinked (leases lease)) (after : Unlinked record)
    (valid : Valid count lease record) :
    Records count (Function.update leases lease record) := by
  have joins : ∀ {source claim}, Joins source claim (leases source) (leases claim) →
      Joins source claim (Function.update leases lease record source)
        (Function.update leases lease record claim) := by
    intro source claim joins
    have sourceElse : source ≠ lease := by
      rintro rfl
      have link := before.successor.symm.trans joins.successor
      cases link
    have claimElse : claim ≠ lease := by
      rintro rfl
      have link := before.predecessor.symm.trans joins.predecessor
      cases link
    rw [Function.update_of_ne sourceElse, Function.update_of_ne claimElse]
    exact joins
  refine ⟨valid_update records valid, ?_, ?_⟩
  · intro source claim link
    apply joins
    apply records.forward
    by_cases here : source = lease
    · rw [here, Function.update_self, after.successor] at link
      cases link
    · rwa [Function.update_of_ne here] at link
  · intro source claim link
    apply joins
    apply records.back
    by_cases here : claim = lease
    · rw [here, Function.update_self, after.predecessor] at link
      cases link
    · rwa [Function.update_of_ne here] at link

end Records

/-! ## Changes of a linked pair -/

section Pairs

variable {count source claim : Nat} {leases : Nat → Lease}
  {sourceRecord claimRecord : Lease}

/-- A link is taken away: both records are given valid ones without links. -/
theorem Records.detach (records : Records count leases)
    (joins : Joins source claim (leases source) (leases claim))
    (sourceUnlinked : Unlinked sourceRecord)
    (sourceValid : Valid count source sourceRecord)
    (claimUnlinked : Unlinked claimRecord)
    (claimValid : Valid count claim claimRecord) :
    Records count (Function.update (Function.update leases source sourceRecord)
      claim claimRecord) := by
  have apart := joins.ne
  have lookup : ∀ lease,
      Function.update (Function.update leases source sourceRecord) claim
          claimRecord lease =
        if lease = claim then claimRecord
        else if lease = source then sourceRecord else leases lease := by
    intro lease
    simp only [Function.update_apply]
  have keeps : ∀ {other next}, other ≠ source → next ≠ claim →
      Joins other next (leases other) (leases next) →
      Joins other next
        (Function.update (Function.update leases source sourceRecord) claim
          claimRecord other)
        (Function.update (Function.update leases source sourceRecord) claim
          claimRecord next) := by
    intro other next otherElse nextElse link
    have otherClaim : other ≠ claim := by
      rintro rfl
      have states := link.retiring.symm.trans joins.claiming
      cases states
    have nextSource : next ≠ source := by
      rintro rfl
      have states := link.claiming.symm.trans joins.retiring
      cases states
    rw [lookup, lookup, if_neg otherClaim, if_neg otherElse, if_neg nextElse,
      if_neg nextSource]
    exact link
  refine ⟨?_, ?_, ?_⟩
  · intro lease
    rw [lookup]
    split_ifs with here there
    · exact here ▸ claimValid
    · exact there ▸ sourceValid
    · exact records.valid lease
  · intro other next link
    rw [lookup] at link
    split_ifs at link with here there
    · rw [claimUnlinked.successor] at link
      cases link
    · rw [sourceUnlinked.successor] at link
      cases link
    · have old := records.forward other next link
      apply keeps there _ old
      rintro rfl
      exact there (joins.claim_unique old)
  · intro other next link
    rw [lookup] at link
    split_ifs at link with here there
    · rw [claimUnlinked.predecessor] at link
      cases link
    · rw [sourceUnlinked.predecessor] at link
      cases link
    · have old := records.back other next link
      refine keeps ?_ here old
      rintro rfl
      exact here (joins.source_unique old)

/-- A link is made: a retiring lease without links names a claim, and an
unregistered lease becomes that claim. -/
theorem Records.attach (records : Records count leases)
    (sourceBefore : Unlinked (leases source))
    (claimBefore : Unlinked (leases claim)) (apart : source ≠ claim)
    (joins : Joins source claim sourceRecord claimRecord)
    (sourceValid : Valid count source sourceRecord)
    (claimValid : Valid count claim claimRecord)
    (sourceBack : sourceRecord.causalPredecessor = none)
    (claimOn : claimRecord.causalSuccessor = none) :
    Records count (Function.update (Function.update leases claim claimRecord)
      source sourceRecord) := by
  have lookup : ∀ lease,
      Function.update (Function.update leases claim claimRecord) source
          sourceRecord lease =
        if lease = source then sourceRecord
        else if lease = claim then claimRecord else leases lease := by
    intro lease
    simp only [Function.update_apply]
  have keeps : ∀ {other next},
      Joins other next (leases other) (leases next) →
      Joins other next
        (Function.update (Function.update leases claim claimRecord) source
          sourceRecord other)
        (Function.update (Function.update leases claim claimRecord) source
          sourceRecord next) := by
    intro other next link
    have outside : ∀ {lease}, Unlinked (leases lease) → other ≠ lease ∧
        next ≠ lease := by
      intro lease unlinked
      constructor <;> rintro rfl
      · have none := unlinked.successor.symm.trans link.successor
        cases none
      · have none := unlinked.predecessor.symm.trans link.predecessor
        cases none
    have beside := outside sourceBefore
    have beside' := outside claimBefore
    rw [lookup, lookup, if_neg beside.1, if_neg beside'.1, if_neg beside.2,
      if_neg beside'.2]
    exact link
  have pair : Joins source claim
      (Function.update (Function.update leases claim claimRecord) source
        sourceRecord source)
      (Function.update (Function.update leases claim claimRecord) source
        sourceRecord claim) := by
    rw [lookup, lookup, if_pos rfl, if_neg apart.symm, if_pos rfl]
    exact joins
  refine ⟨?_, ?_, ?_⟩
  · intro lease
    rw [lookup]
    split_ifs with here there
    · exact here ▸ sourceValid
    · exact there ▸ claimValid
    · exact records.valid lease
  · intro other next link
    rw [lookup] at link
    split_ifs at link with here there
    · obtain rfl : claim = next :=
        Option.some.inj (joins.successor.symm.trans link)
      exact here ▸ pair
    · rw [claimOn] at link
      cases link
    · exact keeps (records.forward other next link)
  · intro other next link
    rw [lookup] at link
    split_ifs at link with here there
    · rw [sourceBack] at link
      cases link
    · obtain rfl : source = other :=
        Option.some.inj (joins.predecessor.symm.trans link)
      exact there ▸ pair
    · exact keeps (records.back other next link)

end Pairs

/-! ## The invariant and one record -/

section Invariant

variable {count lease : Nat} {pool : MemoryPool}

theorem Restates.not_claim {before after : Lease}
    (restates : Restates before after) : before.state ≠ .successorReserved := by
  rcases restates.listed with state | state | state <;> rw [state] <;> decide

theorem Restates.not_claim' {before after : Lease}
    (restates : Restates before after) : after.state ≠ .successorReserved := by
  rcases restates.relisted with state | state | state <;> rw [state] <;> decide

/-- A restated record keeps the invariant when the reserved bytes follow it. -/
theorem Consistent.restate {record : Lease} {after : MemoryPool}
    (consistent : Consistent count pool)
    (leases : after.leases = Function.update pool.leases lease record)
    (restates : Restates (pool.leases lease) record)
    (ranges : after.ranges = pool.ranges)
    (rangeLeases : after.rangeLeases = pool.rangeLeases)
    (alignment : after.minimumAlignment = pool.minimumAlignment)
    (reserved : after.reservedBytes =
      reservedTotal count (Function.update pool.leases lease record)) :
    Consistent count after where
  alignment := by rw [alignment]; exact consistent.alignment
  records := by rw [leases]; exact consistent.records.restate restates
  nodup := by rw [rangeLeases]; exact consistent.nodup
  listed := fun other => by
    rw [rangeLeases, leases, consistent.listed]
    by_cases here : other = lease
    · rw [here, Function.update_self, restates.registered]
      simp [restates.not_claim, restates.not_claim']
    · rw [Function.update_of_ne here]
  reserved := by rw [reserved, leases]
  tiled := by
    have same : ownedRanges after.leases after.rangeLeases =
        ownedRanges pool.leases pool.rangeLeases := by
      rw [leases, rangeLeases]
      apply ownedRanges_congr <;> intro other _ <;> by_cases here : other = lease
      · rw [here, Function.update_self, restates.owns]
      · rw [Function.update_of_ne here]
      · rw [here, Function.update_self, restates.range]
      · rw [Function.update_of_ne here]
    rw [ranges, same]
    exact consistent.tiled

/-- The reserved bytes may be any that count the reserved leases. -/
theorem Consistent.recount {reservedBytes : Nat} (consistent : Consistent count pool)
    (counted : reservedBytes = reservedTotal count pool.leases) :
    Consistent count { pool with reservedBytes := reservedBytes } :=
  ⟨⟨consistent.alignment, consistent.records, consistent.nodup, consistent.listed,
    counted⟩, consistent.tiled⟩

/-- A listed lease is in use, retires or is reserved. -/
theorem Registry.listed_state (registry : Registry count pool)
    (mem : lease ∈ pool.rangeLeases) :
    (pool.leases lease).state = .inUse ∨
      (pool.leases lease).state = .retirePending ∨
        (pool.leases lease).state = .reserved := by
  have listed := (registry.listed lease).1 mem
  have active := ((registry.records.valid lease).active).1 listed.1
  cases state : (pool.leases lease).state <;> simp_all

/-- An unregistered lease is not listed. -/
theorem Registry.unlisted (registry : Registry count pool)
    (unregistered : (pool.leases lease).registered = false) :
    lease ∉ pool.rangeLeases := by
  intro mem
  have held := ((registry.listed lease).1 mem).1
  rw [unregistered] at held
  cases held

/-- An unregistered lease has no links. -/
theorem Registry.unlinked (registry : Registry count pool)
    (unregistered : (pool.leases lease).registered = false) :
    Unlinked (pool.leases lease) := by
  have state := registry.records.unregistered unregistered
  constructor
  · apply registry.records.no_successor
    rcases state with state | state <;> rw [state] <;> decide
  · apply registry.records.no_predecessor
    rcases state with state | state <;> rw [state] <;> decide

/-- An unregistered record may be replaced by any unregistered one. -/
theorem Consistent.replace {record : Lease} (consistent : Consistent count pool)
    (before : (pool.leases lease).registered = false)
    (after : Unlinked record) (unregistered : record.registered = false)
    (free : record.state = .free) :
    Consistent count (pool.update lease fun _ => record) where
  alignment := consistent.alignment
  records := by
    apply consistent.records.replace (consistent.toRegistry.unlinked before) after
    constructor <;> simp [unregistered, free]
  nodup := consistent.nodup
  listed := fun other => by
    rw [update_rangeLeases, update_leases, consistent.listed]
    by_cases here : other = lease
    · simp [here, before, unregistered]
    · simp [here]
  reserved := by
    rw [update_reservedBytes, update_leases, reservedTotal_same, consistent.reserved]
    have state := consistent.records.unregistered before
    rcases state with state | state <;> simp [reservedCharge, state, free]
  tiled := by
    have unlisted := consistent.toRegistry.unlisted before
    rw [update_ranges, update_rangeLeases, update_leases]
    have same := @ownedRanges_congr pool.leases
      (Function.update pool.leases lease record) pool.rangeLeases
      (fun other mem => by
        rw [Function.update_of_ne (ne_of_mem_of_not_mem mem unlisted)])
      (fun other mem => by
        rw [Function.update_of_ne (ne_of_mem_of_not_mem mem unlisted)])
    rw [same]
    exact consistent.tiled

end Invariant

end ShadowSpill.Runtime.PoolInvariant
