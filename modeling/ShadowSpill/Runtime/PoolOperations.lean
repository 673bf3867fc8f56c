import ShadowSpill.Runtime.PoolInvariant

/-!
# Every pool operation keeps the invariant

One lemma for each call, refused or not.  Only two need more than the invariant
itself: the reserved bytes have to stay a word when a lease is reserved, and a
reserved lease that gives its own range back has to get a list node for it.
-/

namespace ShadowSpill.Runtime.PoolOperations

open Library.Word64 Ranges RangeTiling RangeRequests PoolLeases PoolInvariant

section Operations

variable {count lease : Nat} {pool : MemoryPool} {heap : Bool}

/-! ## Marking and retiring -/

/-- Whatever its reserved bytes, the pool is consistent once they are counted
again. -/
theorem markReserved_counted (consistent : Consistent count pool)
    {reservedBytes : Nat}
    (counted : reservedBytes =
      reservedTotal count (markReserved pool lease).2.leases) :
    Consistent count
      { (markReserved pool lease).2 with reservedBytes := reservedBytes } := by
  unfold markReserved at counted ⊢
  simp only at counted ⊢
  split_ifs at counted ⊢ with refused
  · exact consistent.recount counted
  · simp only [not_or, not_not] at refused
    refine consistent.restate rfl ⟨rfl, rfl, rfl, rfl, rfl, rfl, Or.inl refused.2,
      Or.inr (Or.inr rfl), ?_⟩ rfl rfl rfl counted
    rw [consistent.records.no_successor (by rw [refused.2]; decide)]
    simp

theorem markReserved_consistent (consistent : Consistent count pool)
    (word : (pool.leases lease).registered = true →
      (pool.leases lease).state = .inUse →
        reservedTotal count pool.leases + (pool.leases lease).chargedBytes < modulus) :
    Consistent count (markReserved pool lease).2 := by
  apply @markReserved_counted count lease pool consistent
  unfold markReserved
  simp only
  split_ifs with refused
  · exact consistent.reserved
  · simp only [not_or, not_not] at refused
    obtain ⟨registered, inUse⟩ := refused
    have total := @reservedTotal_update count lease pool.leases
      { pool.leases lease with state := .reserved }
      ((consistent.records.valid lease).numbered registered)
    simp only [reservedCharge, inUse, Nat.add_zero] at total
    simp only [consistent.reserved, update_leases]
    rw [wrap_eq (word registered inUse), total]

theorem beginRetirement_consistent (consistent : Consistent count pool)
    (event : Option Nat) (expected : Bool) :
    Consistent count (beginRetirement pool lease event expected).2 := by
  unfold beginRetirement
  simp only
  split_ifs with refused
  · exact consistent
  · simp only [not_or, not_not] at refused
    obtain ⟨registered, inUse, _⟩ := refused
    refine consistent.restate rfl ⟨rfl, rfl, rfl, rfl, rfl, rfl, Or.inl inUse,
      Or.inr (Or.inl rfl), fun _ => rfl⟩ rfl rfl rfl ?_
    rw [reservedTotal_same]
    · exact consistent.reserved
    · simp [reservedCharge, inUse]

theorem publishRetirementDependency_consistent
    (consistent : Consistent count pool) (event : Nat) :
    Consistent count (publishRetirementDependency pool lease event).2 := by
  unfold publishRetirementDependency
  simp only
  split_ifs with refused
  · exact consistent
  · simp only [not_or, not_not] at refused
    obtain ⟨registered, retiring, _⟩ := refused
    refine consistent.restate rfl ⟨rfl, rfl, rfl, rfl, rfl, rfl,
      Or.inr (Or.inl retiring), Or.inr (Or.inl retiring), fun _ => retiring⟩
      rfl rfl rfl ?_
    rw [reservedTotal_same]
    · exact consistent.reserved
    · rfl

theorem cancelRetirement_consistent (consistent : Consistent count pool) :
    Consistent count (cancelRetirement pool lease).2 := by
  unfold cancelRetirement
  simp only
  split_ifs with refused
  · exact consistent
  · simp only [not_or, not_not] at refused
    obtain ⟨registered, retiring, free⟩ := refused
    refine consistent.restate rfl ⟨rfl, rfl, rfl, rfl, rfl, rfl,
      Or.inr (Or.inl retiring), Or.inl rfl, fun some_ => absurd some_ free⟩
      rfl rfl rfl ?_
    rw [reservedTotal_same]
    · exact consistent.reserved
    · simp [reservedCharge, retiring]

/-! ## New owners -/

/-- An adopted lease joins the list; what it owns is its new range. -/
theorem adoptLease_some {after : MemoryPool}
    {bytes alignment offset : Nat} {owns : Bool}
    (registry : Registry count pool) (bound : lease < count)
    (result : adoptLease pool lease bytes alignment offset owns = some after) :
    Registry count after ∧ after.ranges = pool.ranges ∧
      (pool.leases lease).registered = false ∧
      after.rangeLeases = lease :: pool.rangeLeases ∧
      after.leases lease =
        { after.leases lease with
          registered := true
          state := .inUse
          chargedBytes := charged bytes
          offset := offset
          causalPredecessor := none
          causalSuccessor := none
          ownsPoolRange := owns } ∧
      (∀ other, other ≠ lease → after.leases other = pool.leases other) := by
  unfold adoptLease at result
  split_ifs at result with refused
  cases result
  simp only [not_or, Bool.not_eq_true] at refused
  obtain ⟨_, unregistered, unlisted, _, _⟩ := refused
  have positive : 0 < charged bytes := by
    unfold charged
    split_ifs <;> omega
  refine ⟨?_, rfl, unregistered, rfl, by simp, ?_⟩
  · constructor
    · exact registry.alignment
    · apply registry.records.replace (registry.unlinked unregistered)
        ⟨rfl, rfl⟩
      constructor
      · exact fun _ => bound
      · simp
      · exact fun _ => positive
      · simp
    · exact List.nodup_cons.2 ⟨unlisted, registry.nodup⟩
    · intro other
      by_cases here : other = lease
      · simp [here]
      · simp [here, registry.listed]
    · simp only [update_leases]
      rw [reservedTotal_same]
      · exact registry.reserved
      · have state := registry.records.unregistered unregistered
        rcases state with state | state <;> simp [reservedCharge, state]
  · intro other here
    simp [here]

theorem adoptLease_owned {after : MemoryPool}
    {bytes alignment offset : Nat} {owns : Bool}
    (registry : Registry count pool) (bound : lease < count)
    (result : adoptLease pool lease bytes alignment offset owns = some after) :
    ownedRanges after.leases after.rangeLeases =
      if owns then
        ⟨offset, charged bytes⟩ :: ownedRanges pool.leases pool.rangeLeases
      else ownedRanges pool.leases pool.rangeLeases := by
  obtain ⟨_, _, unregistered, listed, record, others⟩ :=
    adoptLease_some registry bound result
  have apart : ∀ other ∈ pool.rangeLeases, other ≠ lease := by
    rintro other mem rfl
    have held := ((registry.listed other).1 mem).1
    rw [unregistered] at held
    cases held
  have rest : ownedRanges after.leases pool.rangeLeases =
      ownedRanges pool.leases pool.rangeLeases := by
    apply ownedRanges_congr <;> intro other mem <;>
      rw [others other (apart other mem)]
  rw [listed, ownedRanges_cons, rest, record]
  rfl

theorem adoptBorrowedLease_consistent (consistent : Consistent count pool)
    (bound : lease < count) (bytes alignment offset : Nat) :
    Consistent count
      (adoptBorrowedLease pool lease bytes alignment offset).2 := by
  unfold adoptBorrowedLease
  cases result : adoptLease pool lease bytes alignment offset false with
  | none => exact consistent
  | some after =>
      have adopted := adoptLease_some consistent.toRegistry bound result
      have owned := adoptLease_owned consistent.toRegistry bound result
      refine ⟨adopted.1, ?_⟩
      simp only [Bool.false_eq_true, if_false] at owned
      rw [owned, adopted.2.1]
      exact consistent.tiled

/-- The request that `reserve` makes of the range allocator. -/
def placementRequest (bytes alignment : Nat) : Placement → Request
  | .firstFit => .firstFit bytes alignment
  | .bestFitLow => .bestFitLow bytes alignment
  | .bestFitHigh => .bestFitHigh bytes alignment

theorem reserve_eq {bytes alignment : Nat} {placement : Placement}
    (positive : bytes ≠ 0) :
    reserve heap pool bytes alignment placement =
      (placementRequest bytes (raised pool alignment) placement).serve heap
        pool.ranges := by
  unfold reserve
  rw [if_neg positive]
  cases placement <;> rfl

theorem raised_pos (consistent : Registry count pool) (alignment : Nat) :
    0 < raised pool alignment := by
  have positive := consistent.alignment
  unfold raised
  split_ifs <;> omega

theorem charged_pos (bytes : Nat) : 0 < charged bytes := by
  unfold charged
  split_ifs <;> omega

theorem charged_word {bytes : Nat} (word : bytes < modulus) :
    charged bytes < modulus := by
  unfold charged
  split_ifs
  · decide
  · exact word

theorem placementRequest_proper {bytes alignment : Nat}
    {placement : Placement} (positive : 0 < bytes) (word : bytes < modulus)
    (aligned : 0 < alignment) :
    (placementRequest bytes alignment placement).Proper ∧
      (placementRequest bytes alignment placement).bytes = bytes := by
  cases placement <;> exact ⟨⟨positive, word, aligned⟩, rfl⟩

/-- A free lease is not registered. -/
theorem Records.free_unregistered {leases : Nat → Lease}
    (records : Records count leases) (free : (leases lease).state = .free) :
    (leases lease).registered = false := by
  by_contra registered
  rw [Bool.not_eq_false] at registered
  exact (((records.valid lease).active).1 registered).1 free

/-- Adoption after the reservation cannot fail. -/
theorem reserve_adopted (consistent : Consistent count pool)
    {bytes : Nat} (word : bytes < modulus) {alignment offset : Nat}
    {placement : Placement} {ranges : RangeAllocator}
    (free : (pool.leases lease).state = .free)
    (served : reserve heap pool (charged bytes) (raised pool alignment) placement =
      .ok (offset, ranges)) :
    Tiled ranges (⟨offset, charged bytes⟩ ::
        ownedRanges pool.leases pool.rangeLeases) ∧
      ∃ after, adoptLease { pool with ranges := ranges } lease bytes
        (raised pool alignment) offset true = some after := by
  have aligned := raised_pos consistent.toRegistry alignment
  have twice := raised_pos consistent.toRegistry (raised pool alignment)
  rw [reserve_eq (Nat.pos_iff_ne_zero.1 (charged_pos bytes))] at served
  obtain ⟨proper, size⟩ := @placementRequest_proper _ _ placement
    (charged_pos bytes) (charged_word word) twice
  obtain ⟨_, _, _, tiled, capacity, _, _⟩ :=
    serve_ok consistent.tiled proper served
  rw [size] at tiled
  have fits := tiled.live_bound (List.mem_cons_self)
  have unregistered := Records.free_unregistered consistent.records free
  have unlisted : lease ∉ pool.rangeLeases := by
    intro mem
    have held := ((consistent.listed lease).1 mem).1
    rw [unregistered] at held
    cases held
  refine ⟨tiled, ?_⟩
  unfold adoptLease
  rw [if_neg]
  · exact ⟨_, rfl⟩
  · simp only [unregistered, unlisted, Bool.false_eq_true, false_or, not_or]
    simp only at fits
    omega

/-- A reserved range becomes the lease's own. -/
theorem reserveLease_consistent (consistent : Consistent count pool)
    (bound : lease < count) {bytes : Nat} (word : bytes < modulus)
    (alignment : Nat) (placement : Placement) :
    Consistent count
      (reserveLease heap pool lease bytes alignment placement).2 := by
  unfold reserveLease
  split_ifs with unavailable
  · exact consistent
  · cases served : reserve heap pool (charged bytes) (raised pool alignment)
        placement with
    | error refusal => exact consistent
    | ok granted =>
        obtain ⟨offset, ranges⟩ := granted
        obtain ⟨tiled, after, result⟩ :=
          reserve_adopted consistent word (not_not.1 unavailable) served
        have registry : Registry count { pool with ranges := ranges } :=
          ⟨consistent.alignment, consistent.records, consistent.nodup,
            consistent.listed, consistent.reserved⟩
        have adopted := adoptLease_some registry bound result
        have owned := adoptLease_owned registry bound result
        simp only [result]
        refine ⟨adopted.1, ?_⟩
        rw [if_pos rfl] at owned
        rw [owned, adopted.2.1]
        exact tiled

/-- A split takes the front of a freed range and leaves the rest. -/
theorem splitReusable_consistent {split : Nat} (consistent : Consistent count pool)
    (bound : split < count) (bytes alignment : Nat) :
    Consistent count (splitReusable pool lease split bytes alignment).2 := by
  unfold splitReusable
  simp only
  split_ifs with refused
  · exact consistent
  · simp only [not_or, not_not, not_le, Option.not_isSome_iff_eq_none]
      at refused
    obtain ⟨owns, retiring, free, larger, _⟩ := refused
    cases result : adoptLease pool split bytes (raised pool alignment)
        (pool.leases lease).offset true with
    | none => exact consistent
    | some after =>
        obtain ⟨registry, ranges, unregistered, listed, record, others⟩ :=
          adoptLease_some consistent.toRegistry bound result
        have registered : (pool.leases lease).registered = true := by
          rw [(consistent.records.valid lease).active, retiring]
          decide
        have apart : lease ≠ split := by
          rintro rfl
          rw [unregistered] at registered
          cases registered
        have mem : lease ∈ pool.rangeLeases := by
          rw [consistent.listed, retiring]
          exact ⟨registered, by decide⟩
        have source := others lease apart
        have positive := charged_pos bytes
        have predecessor : (pool.leases lease).causalPredecessor = none :=
          consistent.records.no_predecessor (by rw [retiring]; decide)
        have valid := consistent.records.valid lease
        have unlinked : Unlinked (after.leases lease) := by
          rw [source]
          exact ⟨free, predecessor⟩
        simp only
        constructor
        · constructor
          · exact registry.alignment
          · rw [update_leases]
            apply registry.records.replace unlinked
            · exact ⟨unlinked.successor, unlinked.predecessor⟩
            · rw [source]
              exact ⟨valid.numbered, valid.active,
                fun _ => by simp only; omega, valid.claimed⟩
          · exact registry.nodup
          · intro other
            rw [update_rangeLeases, update_leases, registry.listed]
            by_cases here : other = lease
            · rw [here, Function.update_self]
            · rw [Function.update_of_ne here]
          · rw [update_reservedBytes, update_leases, reservedTotal_same,
              registry.reserved]
            simp [reservedCharge, source, retiring]
        · have tiled := consistent.tiled.perm (ownedRanges_erase mem)
          rw [if_pos owns, leaseRange] at tiled
          have halves := (tiled.split positive larger).perm (List.Perm.swap _ _ _)
          have unlisted := consistent.toRegistry.unlisted unregistered
          rw [update_ranges, ranges, update_rangeLeases, update_leases]
          apply halves.perm
          -- The rest of the list owns what it owned before.
          have rest := @ownedRanges_congr pool.leases
            (Function.update after.leases lease
              { after.leases lease with
                requestedBytes := 0
                chargedBytes := (after.leases lease).chargedBytes - charged bytes
                offset := (after.leases lease).offset + charged bytes })
            (pool.rangeLeases.erase lease)
            (fun other otherMem => by
              rw [Function.update_of_ne
                ((consistent.nodup.mem_erase_iff).1 otherMem).1,
                others other (ne_of_mem_of_not_mem
                  (List.mem_of_mem_erase otherMem) unlisted)])
            (fun other otherMem => by
              rw [Function.update_of_ne
                ((consistent.nodup.mem_erase_iff).1 otherMem).1,
                others other (ne_of_mem_of_not_mem
                  (List.mem_of_mem_erase otherMem) unlisted)])
          apply List.Perm.symm
          rw [listed, ownedRanges_cons, Function.update_of_ne apart.symm, record,
            if_pos rfl, ← rest]
          apply ((ownedRanges_erase mem).cons _).trans
          rw [Function.update_self, source, if_pos owns]
          exact List.Perm.swap _ _ _

/-! ## Successors -/

/-- The scan for a predecessor returns a candidate of the list. -/
theorem selectCausal_spec (leases : Nat → Lease) (bytes alignment : Nat)
    (listed : List Nat) (start : Option Nat) (found : Nat)
    (earlier : ∀ lease, start = some lease →
      isCausalCandidate bytes alignment (leases lease) = true)
    (result : selectCausal leases bytes alignment start listed = some found) :
    (start = some found ∨ found ∈ listed) ∧
      isCausalCandidate bytes alignment (leases found) = true := by
  induction listed generalizing start with
  | nil => exact ⟨Or.inl result, earlier found result⟩
  | cons candidate rest ih =>
      simp only [selectCausal] at result
      split_ifs at result with better
      · have fits := (Bool.and_eq_true_iff.1 better).1
        have step := ih (some candidate)
          (fun lease same => by cases same; exact fits) result
        refine ⟨?_, step.2⟩
        rcases step.1 with same | mem
        · cases same
          exact Or.inr List.mem_cons_self
        · exact Or.inr (List.mem_cons_of_mem _ mem)
      · have step := ih start earlier result
        exact ⟨step.1.imp id (List.mem_cons_of_mem _), step.2⟩

/-- A successor claims the range of a retiring owner; the pool is consistent once
its reserved bytes are counted again. -/
theorem reserveCausalSuccessor_counted (consistent : Consistent count pool)
    (bound : lease < count) (bytes alignment : Nat) {reservedBytes : Nat}
    (counted : reservedBytes =
      reservedTotal count (reserveCausalSuccessor pool lease bytes alignment).2.leases) :
    Consistent count
      { (reserveCausalSuccessor pool lease bytes alignment).2 with
        reservedBytes := reservedBytes } := by
  unfold reserveCausalSuccessor at counted ⊢
  split_ifs at counted ⊢ with refused
  · exact consistent.recount counted
  · simp only [not_or, not_not, Bool.not_eq_true] at refused
    obtain ⟨unregistered, free, positive⟩ := refused
    cases chosen : selectCausal pool.leases bytes (raised pool alignment) none
        pool.rangeLeases with
    | none =>
        rw [chosen] at counted
        exact consistent.recount counted
    | some selected =>
        rw [chosen] at counted
        obtain ⟨found, fits⟩ := selectCausal_spec _ _ _ _ _ _ (by simp) chosen
        have mem : selected ∈ pool.rangeLeases := by simpa using found
        simp only [isCausalCandidate, canPublishCausalDependency,
          Bool.and_eq_true, beq_iff_eq, Option.isNone_iff_eq_none] at fits
        obtain ⟨⟨⟨⟨owns, retiring, _⟩, alone⟩, _⟩, _⟩ := fits
        have registered := ((consistent.listed selected).1 mem).1
        have unlinked := consistent.toRegistry.unlinked unregistered
        have unlisted := consistent.toRegistry.unlisted unregistered
        have apart : selected ≠ lease := ne_of_mem_of_not_mem mem unlisted
        have predecessor : (pool.leases selected).causalPredecessor = none :=
          consistent.records.no_predecessor (by rw [retiring]; decide)
        have valid := consistent.records.valid selected
        simp only at counted ⊢
        constructor
        · constructor
          · exact consistent.alignment
          · simp only [update_leases, Function.update_of_ne apart]
            apply consistent.records.attach ⟨alone, predecessor⟩ unlinked apart
            · constructor <;> first | rfl | assumption
            · exact ⟨valid.numbered, valid.active, valid.charges, valid.claimed⟩
            · refine ⟨fun _ => bound, ?_, fun _ => valid.charges registered, ?_⟩
              · simp
              · simp
            · exact predecessor
            · exact unlinked.successor
          · exact consistent.nodup
          · intro other
            simp only [update_rangeLeases, update_leases, Function.update_of_ne apart,
              consistent.listed, Function.update_apply]
            split_ifs with here there
            · rw [here]
            · simp [there, unregistered]
            · rfl
          · exact counted
        · simp only [update_ranges, update_rangeLeases, update_leases]
          rw [@ownedRanges_congr pool.leases]
          · exact consistent.tiled
          · intro other otherMem
            have beside := ne_of_mem_of_not_mem otherMem unlisted
            by_cases here : other = selected
            · simp [here, apart]
            · simp [here, beside]
          · intro other otherMem
            have beside := ne_of_mem_of_not_mem otherMem unlisted
            by_cases here : other = selected
            · simp [here, apart, leaseRange]
            · simp [here, beside]

/-- The successor's charge joins the reserved bytes. -/
theorem reserveCausalSuccessor_consistent (consistent : Consistent count pool)
    (bound : lease < count) (bytes alignment : Nat)
    (word : (pool.leases lease).registered = false →
      (pool.leases lease).state = .free → 0 < bytes → ∀ other ∈ pool.rangeLeases,
        isCausalCandidate bytes (raised pool alignment) (pool.leases other) = true →
          reservedTotal count pool.leases + (pool.leases other).chargedBytes <
            modulus) :
    Consistent count (reserveCausalSuccessor pool lease bytes alignment).2 := by
  apply reserveCausalSuccessor_counted consistent bound
  unfold reserveCausalSuccessor
  split_ifs with refused
  · exact consistent.reserved
  · simp only [not_or, not_not, Bool.not_eq_true] at refused
    obtain ⟨unregistered, free, positive⟩ := refused
    cases chosen : selectCausal pool.leases bytes (raised pool alignment) none
        pool.rangeLeases with
    | none => exact consistent.reserved
    | some selected =>
        obtain ⟨found, fits⟩ := selectCausal_spec _ _ _ _ _ _ (by simp) chosen
        have mem : selected ∈ pool.rangeLeases := by simpa using found
        have sum :=
          word unregistered free (Nat.pos_of_ne_zero positive) selected mem fits
        simp only [isCausalCandidate, canPublishCausalDependency,
          Bool.and_eq_true, beq_iff_eq, Option.isNone_iff_eq_none] at fits
        have unlisted := consistent.toRegistry.unlisted unregistered
        have apart : selected ≠ lease := ne_of_mem_of_not_mem mem unlisted
        have total := @reservedTotal_update count lease pool.leases
          { pool.leases lease with
            registered := true
            state := .successorReserved
            requestedBytes := bytes
            chargedBytes := (pool.leases selected).chargedBytes
            alignmentBytes := raised pool alignment
            offset := (pool.leases selected).offset
            requestSequence := pool.nextRequestSequence
            causalPredecessor := some selected
            causalPredecessorGeneration := (pool.leases selected).generation
            causalDependencyExpected := false
            ownsPoolRange := true } bound
        simp only [reservedCharge, free, Nat.add_zero] at total
        simp only [update_leases]
        rw [reservedTotal_same, total, wrap_eq, consistent.reserved]
        · rw [consistent.reserved]
          exact sum
        · simp [apart, reservedCharge, fits.1.1.1.2.1]

/-! ## Handoff -/

/-- What a range's transfer does to the records: the predecessor is left without
links, and the successor is listed in its place. -/
theorem transferRange_consistent {source claim reservedBytes : Nat}
    {state : LeaseState}
    (consistent : Consistent count pool)
    (joins : Joins source claim (pool.leases source) (pool.leases claim))
    (listed : state = .inUse ∨ state = .reserved)
    (reserved : reservedBytes + (pool.leases claim).chargedBytes =
      pool.reservedBytes +
        if state = .reserved then (pool.leases claim).chargedBytes else 0) :
    Consistent count { transferRange pool source claim state with
      reservedBytes := reservedBytes } := by
  have apart := joins.ne
  have sourceValid := consistent.records.valid source
  have claimValid := consistent.records.valid claim
  have claimUnlisted : claim ∉ pool.rangeLeases := by
    rw [consistent.listed, joins.claiming]
    simp
  have sourceListed : source ∈ pool.rangeLeases := by
    rw [consistent.listed, joins.retiring]
    exact ⟨joins.source_registered, by decide⟩
  have sourceBack : (pool.leases source).causalPredecessor = none :=
    consistent.records.no_predecessor (by rw [joins.retiring]; decide)
  have claimOn : (pool.leases claim).causalSuccessor = none :=
    consistent.records.no_successor (by rw [joins.claiming]; decide)
  unfold transferRange
  constructor
  · constructor
    · exact consistent.alignment
    · simp only [update_leases, Function.update_of_ne apart.symm]
      refine consistent.records.detach joins
        (⟨rfl, sourceBack⟩ : Unlinked (pool.leases source).passOn) ?_
        (⟨claimOn, rfl⟩ : Unlinked ((pool.leases claim).takeOver state)) ?_
      · constructor <;> simp
      · refine ⟨fun _ => claimValid.numbered joins.claim_registered, ?_,
          fun _ => claimValid.charges joins.claim_registered, ?_⟩
        · rcases listed with rfl | rfl <;> simp [joins.claim_registered]
        · rcases listed with rfl | rfl <;> simp
    · apply consistent.nodup.map_on
      intro first firstMem second secondMem same
      split_ifs at same with here there there
      · rw [here, there]
      · exact absurd (same ▸ secondMem) claimUnlisted
      · exact absurd (same ▸ firstMem) claimUnlisted
      · exact same
    · intro other
      simp only [update_leases, Function.update_of_ne apart.symm,
        Function.update_apply, List.mem_map]
      split_ifs with here there
      · subst here
        rcases listed with rfl | rfl <;>
          simp only [takeOver_registered, joins.claim_registered,
            takeOver_state, true_and] <;>
          exact iff_of_true ⟨source, sourceListed, if_pos rfl⟩ (by decide)
      · subst there
        simp only [passOn_registered, Bool.false_eq_true, false_and, iff_false]
        rintro ⟨lease, mem, same⟩
        split_ifs at same with equal
        · exact apart same.symm
        · exact equal same
      · rw [← consistent.listed]
        constructor
        · rintro ⟨lease, mem, same⟩
          split_ifs at same with equal
          · exact absurd same.symm here
          · exact same ▸ mem
        · intro mem
          exact ⟨other, mem, if_neg there⟩
    · simp only [update_leases, Function.update_of_ne apart.symm]
      have total := @reservedTotal_update count claim
        (Function.update pool.leases source (pool.leases source).passOn)
        ((pool.leases claim).takeOver state)
        (claimValid.numbered joins.claim_registered)
      have passed : reservedTotal count
          (Function.update pool.leases source (pool.leases source).passOn) =
          reservedTotal count pool.leases :=
        reservedTotal_same (by simp [reservedCharge, joins.retiring])
      rw [Function.update_of_ne apart.symm, passed, ← consistent.reserved] at total
      simp only [reservedCharge, takeOver_state, takeOver_chargedBytes,
        joins.claiming] at total
      rcases listed with rfl | rfl
      · simp only [reduceCtorEq, if_false] at reserved
        simp only at total
        omega
      · simp only [if_true] at reserved
        simp only at total
        omega
  · simp only [update_leases, update_ranges, Function.update_of_ne apart.symm]
    rw [@ownedRanges_map pool.leases]
    · exact consistent.tiled
    · intro lease mem
      have beside := ne_of_mem_of_not_mem mem claimUnlisted
      split_ifs with here
      · rw [here, Function.update_self, joins.source_owns]
        exact joins.claim_owns
      · rw [Function.update_of_ne beside, Function.update_of_ne here]
    · intro lease mem
      have beside := ne_of_mem_of_not_mem mem claimUnlisted
      split_ifs with here
      · rw [here, Function.update_self]
        simp [leaseRange, joins.offset, joins.charged]
      · rw [Function.update_of_ne beside, Function.update_of_ne here]

/-- A handoff passes the range of the claim's own predecessor on, or changes
nothing. -/
theorem handoffCausalRange_cases (consistent : Consistent count pool)
    (target : HandoffTarget) :
    (∃ refusal, handoffCausalRange pool lease target = (.error refusal, pool)) ∨
      ∃ source event reservedBytes,
        Joins source lease (pool.leases source) (pool.leases lease) ∧
        handoffCausalRange pool lease target =
          (.ok event, { transferRange pool source lease target.state with
            reservedBytes := reservedBytes }) ∧
        reservedBytes + (pool.leases lease).chargedBytes = pool.reservedBytes +
          if target.state = .reserved then (pool.leases lease).chargedBytes
          else 0 := by
  unfold handoffCausalRange
  simp only
  cases link : (pool.leases lease).causalPredecessor with
  | none => exact Or.inl ⟨_, rfl⟩
  | some source =>
      have joins := consistent.records.back source lease link
      cases target with
      | reserved =>
          simp only [HandoffTarget.state, if_true]
          split_ifs with refused
          · exact Or.inl ⟨_, rfl⟩
          · right
            exact ⟨source, none, pool.reservedBytes, joins, rfl, rfl⟩
      | inUse wanted =>
          cases event : (pool.leases source).causalEvent with
          | none =>
              left
              simp only [event]
              split_ifs with refused
              · exact ⟨_, rfl⟩
              · exact ⟨_, rfl⟩
          | some published =>
              simp only [event, HandoffTarget.state, reduceCtorEq, if_false]
              split_ifs with refused given short
              · exact Or.inl ⟨_, rfl⟩
              · exact Or.inl ⟨_, rfl⟩
              · right
                refine ⟨source, some published, _, joins, rfl, ?_⟩
                omega
              · exact Or.inl ⟨_, rfl⟩

theorem handoffCausalRange_consistent (consistent : Consistent count pool)
    (target : HandoffTarget) :
    Consistent count (handoffCausalRange pool lease target).2 := by
  rcases handoffCausalRange_cases consistent target with
    ⟨refusal, same⟩ | ⟨source, event, reservedBytes, joins, same, reserved⟩
  · rw [same]
    exact consistent
  · rw [same]
    apply transferRange_consistent consistent joins _ reserved
    cases target
    · exact Or.inl rfl
    · exact Or.inr rfl

theorem acquireReservedLease_consistent (consistent : Consistent count pool) :
    Consistent count (acquireReservedLease pool lease).2 := by
  unfold acquireReservedLease
  simp only
  split_ifs with registered claims refused
  · exact handoffCausalRange_consistent consistent _
  · exact consistent
  · simp only [not_or, not_not, not_lt] at refused
    obtain ⟨reserved, enough⟩ := refused
    refine consistent.restate rfl ⟨rfl, rfl, rfl, rfl, rfl, rfl,
      Or.inr (Or.inr reserved), Or.inl rfl, ?_⟩ rfl rfl rfl ?_
    · rw [consistent.records.no_successor (by rw [reserved]; decide)]
      simp
    · have total := @reservedTotal_update count lease pool.leases
        { pool.leases lease with state := .inUse }
        ((consistent.records.valid lease).numbered registered)
      simp only [reservedCharge, reserved] at total
      have kept := consistent.reserved
      simp only
      omega
  · exact consistent

/-! ## Release -/

/-- A reserved lease can give its own range back. -/
def CanFree (heap : Bool) (pool : MemoryPool) (lease : Nat) : Prop :=
  (pool.leases lease).state = .reserved →
    (pool.leases lease).ownsPoolRange = true → NodeAvailable heap pool.ranges

/-- The record of a released lease. -/
def released (pool : MemoryPool) (lease : Nat) : Lease :=
  Lease.clear { pool.leases lease with releaseSequence := pool.nextReleaseSequence }

theorem dropLease_leases (ranges : RangeAllocator) :
    (dropLease (giveUpReserved pool lease) lease ranges).leases =
      Function.update pool.leases lease (released pool lease) := by
  simp [dropLease, giveUpReserved, released]

/-- A listed lease without a successor leaves the list, once the ranges are what
the others own. -/
theorem dropLease_consistent (consistent : Consistent count pool)
    (mem : lease ∈ pool.rangeLeases)
    (alone : (pool.leases lease).causalSuccessor = none)
    {ranges : RangeAllocator}
    (rest : Tiled ranges
      (ownedRanges pool.leases (pool.rangeLeases.erase lease))) :
    Consistent count (dropLease (giveUpReserved pool lease) lease ranges) := by
  have state := consistent.toRegistry.listed_state mem
  have registered := ((consistent.listed lease).1 mem).1
  have predecessor : (pool.leases lease).causalPredecessor = none :=
    consistent.records.no_predecessor ((consistent.listed lease).1 mem).2
  constructor
  · constructor
    · exact consistent.alignment
    · rw [dropLease_leases]
      refine consistent.records.replace ⟨alone, predecessor⟩
        (⟨alone, predecessor⟩ : Unlinked (released pool lease)) ?_
      constructor <;> simp [released, Lease.clear]
    · exact consistent.nodup.erase lease
    · intro other
      rw [dropLease_leases]
      show other ∈ pool.rangeLeases.erase lease ↔ _
      rw [consistent.nodup.mem_erase_iff, consistent.listed]
      by_cases here : other = lease
      · simp [here, released, Lease.clear]
      · simp [here]
    · rw [dropLease_leases]
      show (if (pool.leases lease).state = .reserved then
          pool.reservedBytes - (pool.leases lease).chargedBytes
        else pool.reservedBytes) = _
      have total := @reservedTotal_update count lease pool.leases
        (released pool lease) ((consistent.records.valid lease).numbered registered)
      have kept := consistent.reserved
      rcases state with state | state | state <;>
        simp [reservedCharge, released, Lease.clear, state] at total ⊢ <;>
        omega
  · rw [dropLease_leases]
    show Tiled ranges (ownedRanges _ (pool.rangeLeases.erase lease))
    have same := @ownedRanges_congr pool.leases
      (Function.update pool.leases lease (released pool lease))
      (pool.rangeLeases.erase lease)
      (fun other otherMem => by
        rw [Function.update_of_ne ((consistent.nodup.mem_erase_iff).1 otherMem).1])
      (fun other otherMem => by
        rw [Function.update_of_ne ((consistent.nodup.mem_erase_iff).1 otherMem).1])
    rw [same]
    exact rest

/-- A lease without a successor leaves the list with its range, or stays with
it. -/
theorem releaseRange_consistent (consistent : Consistent count pool)
    (mem : lease ∈ pool.rangeLeases)
    (alone : (pool.leases lease).causalSuccessor = none)
    (node : CanFree heap pool lease) :
    Consistent count (releaseRange heap pool lease).2 := by
  have state := consistent.toRegistry.listed_state mem
  have tiled := consistent.tiled.perm (ownedRanges_erase mem)
  unfold releaseRange freedRanges
  simp only
  by_cases owns : (pool.leases lease).ownsPoolRange = true
  · simp only [if_pos owns, leaseRange] at tiled ⊢
    split_ifs with short
    · exact consistent
    · cases freed : rangeFree heap pool.ranges (pool.leases lease).offset
          (pool.leases lease).chargedBytes with
      | some ranges =>
          exact dropLease_consistent consistent mem alone
            (rangeFree_tiled tiled freed).1
      | none =>
          have kept : (pool.leases lease).state ≠ .reserved := by
            intro reserved
            exact rangeFree_none freed (node reserved owns)
          refine consistent.restate rfl ⟨rfl, rfl, rfl, rfl, rfl, rfl, state, state,
            ?_⟩ rfl rfl rfl ?_
          · simp [alone]
          · rw [reservedTotal_same]
            · simp only [giveUpReserved, if_neg kept]
              exact consistent.reserved
            · rfl
  · simp only [if_neg owns] at tiled ⊢
    split_ifs with short
    · exact consistent
    · exact dropLease_consistent consistent mem alone tiled

theorem releaseLease_consistent (consistent : Consistent count pool)
    (node : CanFree heap pool lease) :
    Consistent count (releaseLease heap pool lease).2 := by
  unfold releaseLease
  simp only
  split
  · next transferred =>
      simp only [Bool.not_eq_true] at transferred
      have unlinked := consistent.toRegistry.unlinked transferred.2
      exact consistent.replace transferred.2
        ⟨unlinked.successor, unlinked.predecessor⟩ rfl rfl
  · split
    · exact consistent
    · next refused =>
        simp only [not_or, not_not] at refused
        obtain ⟨registered, _, mem⟩ := refused
        cases link : (pool.leases lease).causalSuccessor with
        | none =>
            simp only
            split_ifs with other
            · exact consistent
            · exact releaseRange_consistent consistent mem link node
        | some successor =>
            have joins := consistent.records.forward lease successor link
            rcases @handoffCausalRange_cases count successor pool consistent
              .reserved with
              ⟨refusal, same⟩ | ⟨source, event, reservedBytes, other, same, reserved⟩
            · simp only [same]
              exact consistent
            · obtain rfl : source = lease := joins.claim_unique other
              have passed := transferRange_consistent consistent joins
                (Or.inr rfl) reserved
              have apart := joins.ne
              have back : (pool.leases source).causalPredecessor = none :=
                consistent.records.no_predecessor (by rw [joins.retiring]; decide)
              simp only [same]
              apply passed.replace
              · simp [transferRange, apart]
              · constructor
                · simp [transferRange, apart]
                · simp [transferRange, apart, back]
              · rfl
              · rfl

/-- A claim that is given up leaves its predecessor as it was before. -/
theorem abandonClaim_consistent {source : Nat} (consistent : Consistent count pool)
    (joins : Joins source lease (pool.leases source) (pool.leases lease))
    (enough : (pool.leases lease).chargedBytes ≤ pool.reservedBytes) :
    Consistent count (abandonClaim pool source lease) := by
  have apart := joins.ne
  have claimOn : (pool.leases lease).causalSuccessor = none :=
    consistent.records.no_successor (by rw [joins.claiming]; decide)
  have sourceBack : (pool.leases source).causalPredecessor = none :=
    consistent.records.no_predecessor (by rw [joins.retiring]; decide)
  have sourceValid := consistent.records.valid source
  have claimValid := consistent.records.valid lease
  have unlisted : lease ∉ pool.rangeLeases := by
    rw [consistent.listed, joins.claiming]
    simp
  unfold abandonClaim
  constructor
  · constructor
    · exact consistent.alignment
    · simp only [update_leases, Function.update_of_ne apart.symm]
      refine consistent.records.detach joins ⟨rfl, sourceBack⟩ ?_ ⟨claimOn, rfl⟩ ?_
      · exact ⟨sourceValid.numbered, sourceValid.active, sourceValid.charges,
          sourceValid.claimed⟩
      · constructor <;> simp
    · exact consistent.nodup
    · intro other
      simp only [update_rangeLeases, update_leases,
        Function.update_of_ne apart.symm, consistent.listed, Function.update_apply]
      split_ifs with here there
      · simp [here, joins.claiming]
      · rw [there]
      · rfl
    · simp only [update_leases, Function.update_of_ne apart.symm]
      have total := @reservedTotal_update count lease
        (Function.update pool.leases source
          { pool.leases source with causalSuccessor := none })
        (pool.leases lease).abandon
        (claimValid.numbered joins.claim_registered)
      have kept : reservedTotal count (Function.update pool.leases source
          { pool.leases source with causalSuccessor := none }) =
          reservedTotal count pool.leases :=
        reservedTotal_same rfl
      rw [Function.update_of_ne apart.symm, kept, ← consistent.reserved] at total
      simp only [reservedCharge, joins.claiming, abandon_state] at total
      omega
  · simp only [update_leases, update_ranges, update_rangeLeases,
      Function.update_of_ne apart.symm]
    rw [@ownedRanges_congr pool.leases]
    · exact consistent.tiled
    · intro other otherMem
      rw [Function.update_of_ne (ne_of_mem_of_not_mem otherMem unlisted)]
      by_cases here : other = source
      · simp [here]
      · simp [here]
    · intro other otherMem
      rw [Function.update_of_ne (ne_of_mem_of_not_mem otherMem unlisted)]
      by_cases here : other = source
      · simp [here, leaseRange]
      · simp [here]

theorem cancelReservation_consistent (consistent : Consistent count pool)
    (node : CanFree heap pool lease) :
    Consistent count (cancelReservation heap pool lease).2 := by
  unfold cancelReservation
  simp only
  split
  · exact consistent
  · split
    · exact releaseLease_consistent consistent node
    · cases link : (pool.leases lease).causalPredecessor with
      | none => exact consistent
      | some source =>
          simp only
          split_ifs with refused
          · exact consistent
          · simp only [not_or, not_lt] at refused
            exact abandonClaim_consistent consistent
              (consistent.records.back source lease link) refused.2.2

theorem renewLease_consistent (consistent : Consistent count pool)
    (generation : Nat) :
    Consistent count (renewLease pool lease generation).2 := by
  unfold renewLease
  simp only
  split_ifs with refused
  · exact consistent
  · simp only [not_or, Bool.not_eq_true] at refused
    exact consistent.replace refused.1 ⟨rfl, rfl⟩ rfl rfl

end Operations

end ShadowSpill.Runtime.PoolOperations
