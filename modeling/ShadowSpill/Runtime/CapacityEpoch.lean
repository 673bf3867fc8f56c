import ShadowSpill.Runtime.RecordRuns

/-!
# The capacity epoch

Who waits for room reads the pool's epoch and polls it without the lock.  The epoch
moves with every range that is freed or handed over, so while it stays each owner
still owns its range.
-/

namespace ShadowSpill.Runtime.CapacityEpoch

open Ranges PoolLeases PoolOperations PoolRuns PoolLayout LeaseRecords RecordRuns

/-! ## What moves the epoch -/

/-- A reservation that is taken back frees its range again. -/
def reserveMoves (heap : Bool) (pool : MemoryPool) (lease bytes alignment : Nat)
    (placement : Placement) : Nat :=
  if (pool.leases lease).state ≠ .free then 0
  else
    match reserve heap pool (charged bytes) (raised pool alignment) placement with
    | .error _ => 0
    | .ok (offset, ranges) =>
      match adoptLease { pool with ranges := ranges } lease bytes (raised pool alignment)
          offset true with
      | some _ => 0
      | none => if (rangeFree heap ranges offset (charged bytes)).isSome then 1 else 0

/-- A range that is handed over moves the epoch. -/
def handoffMoves (pool : MemoryPool) (successor : Nat) (target : HandoffTarget) : Nat :=
  match (handoffCausalRange pool successor target).1 with
  | .ok _ => 1
  | .error _ => 0

/-- A released lease hands its range over, or frees it if it owns it. -/
def releaseMoves (heap : Bool) (pool : MemoryPool) (lease : Nat) : Nat :=
  let record := pool.leases lease
  if record.state = .predecessorTransferred ∧ ¬ record.registered then 0
  else if ¬ record.registered ∨ record.state = .free ∨ lease ∉ pool.rangeLeases then 0
  else
    match record.causalSuccessor with
    | some successor => handoffMoves pool successor .reserved
    | none =>
      if record.state = .successorReserved ∨ record.state = .predecessorTransferred then 0
      else if record.state = .reserved ∧ pool.reservedBytes < record.chargedBytes then 0
      else if record.ownsPoolRange ∧ (freedRanges heap pool lease).isSome then 1
      else 0

/-- How far a call moves the epoch. -/
def epochMoves (heap : Bool) (pool : MemoryPool) : Operation → Nat
  | .reserveLease lease bytes alignment placement =>
    reserveMoves heap pool lease bytes alignment placement
  | .handoffCausalRange lease target => handoffMoves pool lease target
  | .acquireReservedLease lease =>
    if (pool.leases lease).registered ∧ (pool.leases lease).state = .successorReserved then
      handoffMoves pool lease (.inUse true)
    else 0
  | .cancelReservation lease =>
    if (pool.leases lease).registered ∧ (pool.leases lease).state ≠ .successorReserved then
      releaseMoves heap pool lease
    else 0
  | .releaseLease lease => releaseMoves heap pool lease
  | _ => 0

/-! ## Owners -/

/-- A registered lease owns its range. -/
structure Owns (pool : MemoryPool) (lease : Nat) : Prop where
  listed : lease ∈ pool.rangeLeases
  owns : (pool.leases lease).ownsPoolRange = true

section Owners

variable {count lease other : Nat} {heap : Bool} {pool : MemoryPool}

theorem Owns.registered (owns : Owns pool lease) (laidOut : LaidOut count pool) :
    (pool.leases lease).registered = true ∧ (pool.leases lease).state ≠ .free ∧
      (pool.leases lease).state ≠ .successorReserved := by
  obtain ⟨registered, state⟩ := (laidOut.listed lease).1 owns.listed
  exact ⟨registered, (((laidOut.records.valid lease).active).1 registered).1, state⟩

/-- A change of one record that takes no one's range. -/
theorem Owns.restated {after : MemoryPool} {record : Lease} (owns : Owns pool lease)
    (listed : after.rangeLeases = pool.rangeLeases)
    (leases : after.leases = Function.update pool.leases other record)
    (keeps : other = lease → record.ownsPoolRange = true) : Owns after lease := by
  refine ⟨by rw [listed]; exact owns.listed, ?_⟩
  rw [leases, Function.update_apply]
  split_ifs with here
  · exact keeps here.symm
  · exact owns.owns

/-- A lease that is adopted takes no one's range. -/
theorem adoptLease_owns {ranges : RangeAllocator} {bytes alignment offset : Nat}
    {ownsPoolRange : Bool} {after : MemoryPool} (owns : Owns pool lease)
    (adopted : adoptLease { pool with ranges := ranges } other bytes alignment offset
      ownsPoolRange = some after) : Owns after lease := by
  unfold adoptLease at adopted
  split_ifs at adopted with refused
  cases adopted
  simp only [not_or] at refused
  have apart : lease ≠ other := by
    rintro rfl
    exact refused.2.2.1 owns.listed
  refine ⟨List.mem_cons_of_mem _ owns.listed, ?_⟩
  simp only [update_leases, Function.update_of_ne apart]
  exact owns.owns

theorem reserveLease_owns {bytes alignment : Nat} {placement : Placement}
    (owns : Owns pool lease)
    (still : reserveMoves heap pool other bytes alignment placement = 0) :
    Owns (reserveLease heap pool other bytes alignment placement).2 lease := by
  unfold reserveMoves at still
  unfold reserveLease
  split_ifs at still ⊢
  · exact owns
  · cases served : reserve heap pool (charged bytes) (raised pool alignment) placement with
    | error refusal => exact owns
    | ok granted =>
        obtain ⟨offset, ranges⟩ := granted
        simp only [served] at still ⊢
        cases adopted : adoptLease { pool with ranges := ranges } other bytes
            (raised pool alignment) offset true with
        | some after => exact adoptLease_owns owns adopted
        | none =>
            simp only [adopted] at still
            cases freed : rangeFree heap ranges offset (charged bytes) with
            | some released => simp [freed] at still
            | none => exact ⟨owns.listed, owns.owns⟩

/-- A handoff that fails changes nothing. -/
theorem handoffCausalRange_failed {target : HandoffTarget} {refusal : Refusal}
    {after : MemoryPool}
    (result : handoffCausalRange pool other target = (.error refusal, after)) :
    after = pool := by
  unfold handoffCausalRange at result
  cases claimed : (pool.leases other).causalPredecessor with
  | none =>
      simp only [claimed] at result
      cases result
      rfl
  | some predecessor =>
      simp only [claimed] at result
      split at result
      · cases result
        rfl
      · cases target with
        | reserved => cases result
        | inUse wanted =>
            cases event : (pool.leases predecessor).causalEvent with
            | none =>
                simp only [event] at result
                cases result
                rfl
            | some event' =>
                simp only [event] at result
                split_ifs at result <;> cases result <;> rfl

/-- A range that is not handed over stays. -/
theorem handoffCausalRange_owns {target : HandoffTarget} (owns : Owns pool lease)
    (still : handoffMoves pool other target = 0) :
    Owns (handoffCausalRange pool other target).2 lease := by
  unfold handoffMoves at still
  cases result : handoffCausalRange pool other target with
  | mk outcome after =>
      cases outcome with
      | ok event =>
          rw [result] at still
          cases still
      | error refusal =>
          rw [handoffCausalRange_failed result]
          exact owns

/-- A range that is not freed stays. -/
theorem releaseRange_owns (owns : Owns pool lease)
    (still : (pool.leases other).ownsPoolRange = true →
      (freedRanges heap pool other).isSome = true →
      (pool.leases other).state = .reserved ∧
        pool.reservedBytes < (pool.leases other).chargedBytes) :
    Owns (releaseRange heap pool other).2 lease := by
  unfold releaseRange
  simp only
  split_ifs with short
  · exact owns
  · cases freed : freedRanges heap pool other with
    | none =>
        refine owns.restated rfl rfl ?_
        rintro rfl
        exact owns.owns
    | some ranges =>
        have apart : lease ≠ other := by
          rintro rfl
          exact short (still owns.owns (by rw [freed]; rfl))
        refine ⟨(List.mem_erase_of_ne apart).2 owns.listed, ?_⟩
        rw [dropLease_leases, Function.update_of_ne apart]
        exact owns.owns

theorem releaseLease_owns (owns : Owns pool lease) (laidOut : LaidOut count pool)
    (still : releaseMoves heap pool other = 0) :
    Owns (releaseLease heap pool other).2 lease := by
  obtain ⟨registered, free, _⟩ := owns.registered laidOut
  unfold releaseMoves at still
  unfold releaseLease
  simp only at still ⊢
  by_cases transferred : (pool.leases other).state = .predecessorTransferred ∧
      ¬ (pool.leases other).registered = true
  · rw [if_pos transferred]
    refine owns.restated rfl rfl ?_
    rintro rfl
    exact absurd registered transferred.2
  · rw [if_neg transferred] at still ⊢
    by_cases refused : ¬ (pool.leases other).registered = true ∨
        (pool.leases other).state = .free ∨ other ∉ pool.rangeLeases
    · rw [if_pos refused]
      exact owns
    · rw [if_neg refused] at still ⊢
      cases successor : (pool.leases other).causalSuccessor with
      | some claim =>
          simp only [successor] at still ⊢
          have kept := @handoffCausalRange_owns lease claim pool .reserved owns still
          unfold handoffMoves at still
          cases handed : handoffCausalRange pool claim .reserved with
          | mk outcome after =>
              rw [handed] at still kept
              cases outcome with
              | ok event => cases still
              | error refusal => exact kept
      | none =>
          simp only [successor] at still ⊢
          by_cases pending : (pool.leases other).state = .successorReserved ∨
              (pool.leases other).state = .predecessorTransferred
          · rw [if_pos pending]
            exact owns
          · rw [if_neg pending] at still ⊢
            refine releaseRange_owns owns fun own freed => ?_
            by_contra short
            rw [if_neg short, if_pos ⟨own, freed⟩] at still
            cases still

/-- A call that does not move the epoch takes no owner's range. -/
theorem perform_owns (owns : Owns pool lease) (laidOut : LaidOut count pool)
    {operation : Operation} (still : epochMoves heap pool operation = 0) :
    Owns (perform heap pool operation) lease := by
  obtain ⟨registered, free, claimed⟩ := owns.registered laidOut
  cases operation with
  | reserveLease other bytes alignment placement => exact reserveLease_owns owns still
  | adoptBorrowedLease other bytes alignment offset =>
      simp only [perform, adoptBorrowedLease]
      cases adopted : adoptLease pool other bytes alignment offset false with
      | some after => exact adoptLease_owns owns adopted
      | none => exact owns
  | splitReusable selected split bytes alignment =>
      simp only [perform, splitReusable]
      split_ifs
      · exact owns
      · cases adopted : adoptLease pool split bytes (raised pool alignment)
            (pool.leases selected).offset true with
        | some after =>
            have kept : Owns after lease := adoptLease_owns owns adopted
            refine kept.restated rfl rfl ?_
            rintro rfl
            exact kept.owns
        | none => exact owns
  | markReserved other =>
      simp only [perform, markReserved]
      split_ifs
      · exact owns
      · refine owns.restated rfl rfl ?_
        rintro rfl
        exact owns.owns
  | beginRetirement other event expected =>
      simp only [perform, beginRetirement]
      split_ifs
      · exact owns
      · refine owns.restated rfl rfl ?_
        rintro rfl
        exact owns.owns
  | publishRetirementDependency other event =>
      simp only [perform, publishRetirementDependency]
      split_ifs
      · exact owns
      · refine owns.restated rfl rfl ?_
        rintro rfl
        exact owns.owns
  | cancelRetirement other =>
      simp only [perform, cancelRetirement]
      split_ifs
      · exact owns
      · refine owns.restated rfl rfl ?_
        rintro rfl
        exact owns.owns
  | reserveCausalSuccessor successor bytes alignment =>
      simp only [perform, reserveCausalSuccessor]
      split_ifs with refused
      · exact owns
      · cases selectCausal pool.leases bytes (raised pool alignment) none pool.rangeLeases with
        | none => exact owns
        | some selected =>
            have apart : successor ≠ lease := by
              rintro rfl
              exact refused (Or.inl registered)
            refine ⟨owns.listed, ?_⟩
            simp only [update_leases, Function.update_apply, apart.symm, if_false]
            by_cases here : lease = selected
            · subst here
              simp [apart.symm, owns.owns]
            · simp [here, owns.owns]
  | handoffCausalRange other target => exact handoffCausalRange_owns owns still
  | acquireReservedLease other =>
      simp only [perform, acquireReservedLease]
      simp only [epochMoves] at still ⊢
      split_ifs at still ⊢
      all_goals first
        | exact owns
        | exact handoffCausalRange_owns owns still
        | exact owns.restated rfl rfl fun here => by subst here; exact owns.owns
        | simp_all
  | cancelReservation other =>
      simp only [perform, cancelReservation]
      simp only [epochMoves] at still ⊢
      by_cases held : (pool.leases other).registered = true
      · by_cases claim : (pool.leases other).state = .successorReserved
        · simp only [held, claim, not_true_eq_false, if_false, ne_eq]
          cases (pool.leases other).causalPredecessor with
          | none => exact owns
          | some predecessor =>
              simp only
              split_ifs
              · exact owns
              · have apart : lease ≠ other := by
                  rintro rfl
                  exact claimed claim
                refine ⟨owns.listed, ?_⟩
                have own := owns.owns
                simp only [abandonClaim, update_leases, Function.update_apply, apart, if_false]
                split_ifs with here
                · subst here
                  exact own
                · exact own
        · rw [if_neg (not_not.2 held), if_pos claim]
          rw [if_pos ⟨held, claim⟩] at still
          exact releaseLease_owns owns laidOut still
      · rw [if_pos held]
        exact owns
  | releaseLease other => exact releaseLease_owns owns laidOut still
  | renewLease other generation =>
      simp only [perform, renewLease]
      split_ifs with refused
      · exact owns
      · refine owns.restated rfl rfl ?_
        rintro rfl
        exact absurd (Or.inl registered) refused

end Owners

/-! ## Polling -/

/-- A pool and its `capacity_epoch`. -/
structure PolledPool where
  state : RecordedPool
  capacityEpoch : Nat

/-- The pool and its epoch after a call. -/
def performPolled (heap : Bool) (polled : PolledPool) (operation : RecordOperation) :
    PolledPool where
  state := performRecord heap polled.state operation
  capacityEpoch :=
    match operation with
    | .call called => polled.capacityEpoch + epochMoves heap polled.state.pool called
    | _ => polled.capacityEpoch

/-- One call. -/
inductive PollStep (polled : PolledPool) : PolledPool → Prop where
  | performed (heap : Bool) (operation : RecordOperation)
      (proper : operation.Proper polled.state) :
      PollStep polled (performPolled heap polled operation)

section Polling

variable {polled after : PolledPool} {lease : Nat}

theorem PollStep.recordStep (step : PollStep polled after) :
    RecordStep polled.state after.state := by
  cases step with
  | performed heap operation proper => exact .performed heap operation proper

/-- The epoch never goes back. -/
theorem PollStep.epoch_le (step : PollStep polled after) :
    polled.capacityEpoch ≤ after.capacityEpoch := by
  cases step with
  | performed heap operation proper =>
      cases operation with
      | call called => exact Nat.le_add_right _ _
      | _ => exact le_rfl

/-- A blank record is no owner's. -/
theorem Owns.blank {state : RecordedPool} {record generation : Nat}
    (owns : Owns state.pool lease) (recorded : Recorded state)
    (unregistered : (state.pool.leases record).registered = false) :
    Owns (state.pool.update record fun _ => .blank generation) lease := by
  refine owns.restated rfl rfl ?_
  rintro rfl
  rw [(owns.registered recorded.heapPool.toLaidOut).1] at unregistered
  cases unregistered

theorem PollStep.owns (step : PollStep polled after) (recorded : Recorded polled.state)
    (still : after.capacityEpoch = polled.capacityEpoch)
    (owns : Owns polled.state.pool lease) : Owns after.state.pool lease := by
  cases step with
  | performed heap operation proper =>
      cases operation with
      | acquireLeaseRecord generation =>
          simp only [performPolled, performRecord, acquireLeaseRecord]
          cases result : polled.state.leaseRecords.acquire heap with
          | mk acquired stock =>
              cases acquired with
              | none => exact owns
              | some record =>
                  obtain ⟨spare, _⟩ := recorded.leases.acquire_some result
                  exact owns.blank recorded (recorded.unregistered spare)
      | tryRecycleLeaseRecord record unreferenced =>
          simp only [performPolled, performRecord, tryRecycleLeaseRecord]
          split_ifs with recyclable
          · simp only [isRecyclable, Bool.and_eq_true, Bool.not_eq_true'] at recyclable
            obtain ⟨⟨⟨⟨⟨⟨_, unregistered⟩, _⟩, _⟩, _⟩, _⟩, _⟩ := recyclable
            exact owns.blank recorded unregistered
          · exact owns
      | acquireUseRecord => exact owns
      | releaseUseRecords records hasEvent =>
          simp only [performPolled, performRecord, releaseUseRecords]
          split_ifs
          · exact owns
          · exact owns
      | reserveLeaseRecords minimumFreeRecords =>
          simp only [performPolled, performRecord, reserveLeaseRecords]
          split_ifs
          all_goals exact owns
      | call called =>
          have unmoved : epochMoves heap polled.state.pool called = 0 := by
            simpa [performPolled] using still
          exact perform_owns owns recorded.heapPool.toLaidOut unmoved

/-- While the epoch stays, each owner still owns its range; the induction is on the
calls. -/
theorem owns_while_still (recorded : Recorded polled.state)
    (run : Relation.ReflTransGen PollStep polled after)
    (still : after.capacityEpoch = polled.capacityEpoch)
    (owns : Owns polled.state.pool lease) : Owns after.state.pool lease := by
  have spent : ∀ {later}, Relation.ReflTransGen PollStep polled later →
      Recorded later.state ∧ polled.capacityEpoch ≤ later.capacityEpoch := by
    intro later run
    induction run with
    | refl => exact ⟨recorded, le_rfl⟩
    | tail _ step inductionHypothesis =>
        exact ⟨step.recordStep.recorded inductionHypothesis.1,
          inductionHypothesis.2.trans step.epoch_le⟩
  induction run with
  | refl => exact owns
  | @tail last after run step inductionHypothesis =>
      obtain ⟨kept, later⟩ := spent run
      have moved := step.epoch_le
      exact step.owns kept (by omega) (inductionHypothesis (by omega))

end Polling

end ShadowSpill.Runtime.CapacityEpoch
