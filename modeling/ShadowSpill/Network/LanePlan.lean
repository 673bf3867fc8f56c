import ShadowSpill.Network.RemoteLane

/-!
# The pieces of a lane's transfers

A transfer's pieces tile its bytes, and its numbers follow those of the transfers before
it.  The plan of a lane is the list of the requests for all its pieces, in order; what the
thread computes for a piece is the plan's entry.
-/

namespace ShadowSpill.Network.LanePlan

open Library.Word64 RemoteLane

/-! ## One transfer -/

/-- The length of a piece. -/
def pieceSize (setup : Setup) (work : Work) (index : Nat) : Nat :=
  min setup.pieceBytes (work.bytes - index * setup.pieceBytes)

/-- A piece of a transfer, as a request. -/
def requestOf (setup : Setup) (work : Work) (index : Nat) : Request where
  chunk := work.firstChunk + index
  place :=
    if setup.stages then .ring (stageSlot setup (work.firstChunk + index))
    else .pool (wrap (work.localAddress + index * setup.pieceBytes))
  length := pieceSize setup work index
  remoteOffset := work.remoteOffset + index * setup.pieceBytes

/-- A request as it is posted: its length is a 32-bit number. -/
def cut (request : Request) : Request := { request with length := request.length % 2 ^ 32 }

def requestsOf (setup : Setup) (work : Work) : List Request :=
  (List.range work.chunks).map (requestOf setup work)

/-- A piece of a transfer, as a copy across the ring. -/
def copyOf (setup : Setup) (work : Work) (index : Nat) : Nat × Nat × Nat :=
  (work.firstChunk + index, wrap (work.localAddress + index * setup.pieceBytes),
    pieceSize setup work index)

def copiesOf (setup : Setup) (work : Work) : List (Nat × Nat × Nat) :=
  (List.range work.chunks).map (copyOf setup work)

/-- Every byte of a transfer lies in exactly one of its pieces, and no piece goes
beyond it. -/
structure Tiled (setup : Setup) (work : Work) : Prop where
  within : ∀ index < work.chunks,
    index * setup.pieceBytes + pieceSize setup work index ≤ work.bytes
  covered : ∀ byte < work.bytes, ∃! index, index < work.chunks ∧
    index * setup.pieceBytes ≤ byte ∧
    byte < index * setup.pieceBytes + pieceSize setup work index

/-- The piece count, the piece length and the end of a copy fit their words. -/
structure Sized (setup : Setup) (remoteAddress bytes : Nat) : Prop where
  rounding : bytes + setup.pieceBytes ≤ modulus
  end_ : remoteAddress - setup.reservation + bytes < modulus
  pieces : (bytes + setup.pieceBytes - 1) / setup.pieceBytes < 2 ^ 32
  length : min setup.pieceBytes bytes < 2 ^ 32

instance (setup : Setup) (remoteAddress bytes : Nat) :
    Decidable (Sized setup remoteAddress bytes) :=
  decidable_of_iff
    (bytes + setup.pieceBytes ≤ modulus ∧ remoteAddress - setup.reservation + bytes < modulus ∧
      (bytes + setup.pieceBytes - 1) / setup.pieceBytes < 2 ^ 32 ∧
      min setup.pieceBytes bytes < 2 ^ 32)
    ⟨fun all => ⟨all.1, all.2.1, all.2.2.1, all.2.2.2⟩,
      fun sized => ⟨sized.rounding, sized.end_, sized.pieces, sized.length⟩⟩

/-- The sums of a copy fit 64 bits, and its piece count is not cut down to zero. -/
structure Counted (setup : Setup) (remoteAddress bytes : Nat) : Prop where
  rounding : bytes + setup.pieceBytes ≤ modulus
  end_ : remoteAddress - setup.reservation + bytes < modulus
  pieces : bytes ≠ 0 → (bytes + setup.pieceBytes - 1) / setup.pieceBytes % 2 ^ 32 ≠ 0

instance (setup : Setup) (remoteAddress bytes : Nat) :
    Decidable (Counted setup remoteAddress bytes) :=
  decidable_of_iff
    (bytes + setup.pieceBytes ≤ modulus ∧ remoteAddress - setup.reservation + bytes < modulus ∧
      (bytes ≠ 0 → (bytes + setup.pieceBytes - 1) / setup.pieceBytes % 2 ^ 32 ≠ 0))
    ⟨fun all => ⟨all.1, all.2.1, all.2.2⟩,
      fun counted => ⟨counted.rounding, counted.end_, counted.pieces⟩⟩

/-- A transfer that was planned for a counted copy. -/
structure Planned (setup : Setup) (work : Work) : Prop where
  rounding : work.bytes + setup.pieceBytes ≤ modulus
  chunks : work.chunks = if work.bytes = 0 then 1
    else (work.bytes + setup.pieceBytes - 1) / setup.pieceBytes % 2 ^ 32
  some_ : 0 < work.chunks
  end_ : work.remoteOffset + work.bytes < modulus
  inside : work.remoteOffset + work.bytes ≤ setup.capacity

/-- A transfer whose count and lengths lost nothing to their words. -/
structure Whole (setup : Setup) (work : Work) : Prop where
  chunks : work.chunks = if work.bytes = 0 then 1
    else (work.bytes + setup.pieceBytes - 1) / setup.pieceBytes
  length : min setup.pieceBytes work.bytes < 2 ^ 32

section Transfer

variable {setup : Setup} {work : Work} {index remoteAddress bytes : Nat}

theorem Sized.counted (positive : 0 < setup.pieceBytes)
    (sized : Sized setup remoteAddress bytes) : Counted setup remoteAddress bytes := by
  refine ⟨sized.rounding, sized.end_, fun nonempty => ?_⟩
  rw [Nat.mod_eq_of_lt sized.pieces]
  exact (Nat.div_pos (by omega) positive).ne'

theorem chunkCount_eq (positive : 0 < setup.pieceBytes)
    (rounding : bytes + setup.pieceBytes ≤ modulus) :
    chunkCount setup bytes = if bytes = 0 then 1
      else (bytes + setup.pieceBytes - 1) / setup.pieceBytes % 2 ^ 32 := by
  unfold chunkCount
  split
  · rfl
  · rw [wrap_eq (by omega)]

theorem Planned.chunks_le (planned : Planned setup work) (nonempty : work.bytes ≠ 0) :
    work.chunks ≤ (work.bytes + setup.pieceBytes - 1) / setup.pieceBytes := by
  rw [planned.chunks, if_neg nonempty]
  exact Nat.mod_le _ _

theorem Planned.chunks_lt (planned : Planned setup work) : work.chunks < 2 ^ 32 := by
  rw [planned.chunks]
  split
  · decide
  · exact Nat.mod_lt _ (by decide)

/-- The last piece starts before the transfer's end. -/
theorem Planned.start_lt (positive : 0 < setup.pieceBytes) (planned : Planned setup work)
    (bound : index < work.chunks) (nonempty : work.bytes ≠ 0) :
    index * setup.pieceBytes < work.bytes := by
  have bound := lt_of_lt_of_le bound (planned.chunks_le nonempty)
  have step : (index + 1) * setup.pieceBytes ≤ work.bytes + setup.pieceBytes - 1 :=
    (Nat.le_div_iff_mul_le positive).mp bound
  rw [Nat.succ_mul] at step
  omega

theorem Planned.start_le (positive : 0 < setup.pieceBytes) (planned : Planned setup work)
    (bound : index < work.chunks) : index * setup.pieceBytes ≤ work.bytes := by
  by_cases nonempty : work.bytes = 0
  · have chunks := planned.chunks
    rw [if_pos nonempty] at chunks
    have first : index = 0 := by omega
    rw [first, Nat.zero_mul]
    exact Nat.zero_le _
  · exact (planned.start_lt positive bound nonempty).le

theorem Planned.within (positive : 0 < setup.pieceBytes) (planned : Planned setup work)
    (bound : index < work.chunks) :
    index * setup.pieceBytes + pieceSize setup work index ≤ work.bytes := by
  have start := planned.start_le positive bound
  unfold pieceSize
  omega

theorem Planned.tiled (positive : 0 < setup.pieceBytes) (planned : Planned setup work)
    (whole : Whole setup work) : Tiled setup work := by
  constructor
  · exact fun _ bound => planned.within positive bound
  · intro byte inside
    have chunks := whole.chunks
    rw [if_neg (by omega)] at chunks
    have floor := Nat.div_mul_le_self byte setup.pieceBytes
    have ceiling := Nat.lt_div_mul_add positive (a := byte)
    have bound : byte / setup.pieceBytes < work.chunks := by
      rw [chunks]
      apply (Nat.le_div_iff_mul_le positive).mpr
      rw [Nat.succ_mul]
      omega
    refine ⟨byte / setup.pieceBytes, ⟨bound, floor, ?_⟩, ?_⟩
    · unfold pieceSize
      omega
    · rintro index ⟨_, low, high⟩
      unfold pieceSize at high
      apply le_antisymm
      · exact (Nat.le_div_iff_mul_le positive).mpr low
      · apply Nat.le_of_lt_succ
        apply (Nat.div_lt_iff_lt_mul positive).mpr
        rw [Nat.succ_mul]
        omega

theorem pieceOffset_eq (positive : 0 < setup.pieceBytes) (planned : Planned setup work)
    (bound : index < work.chunks) :
    pieceOffset setup index = index * setup.pieceBytes := by
  have start := planned.start_le positive bound
  have rounding := planned.rounding
  exact wrap_eq (by omega)

theorem pieceLength_eq (positive : 0 < setup.pieceBytes) (planned : Planned setup work)
    (bound : index < work.chunks) :
    pieceLength setup work index = pieceSize setup work index := by
  have start := planned.start_le positive bound
  have rounding := planned.rounding
  unfold pieceLength pieceSize
  rw [pieceOffset_eq positive planned bound, wrapSub_eq start (by omega)]
  dsimp only
  split <;> omega

theorem pieceSize_le (setup : Setup) (work : Work) (index : Nat) :
    pieceSize setup work index ≤ min setup.pieceBytes work.bytes := by
  unfold pieceSize
  omega

/-- What the thread computes for a piece of a planned transfer is its request, cut. -/
theorem requestFor_eq (positive : 0 < setup.pieceBytes) (planned : Planned setup work)
    (bound : index < work.chunks) :
    requestFor setup work (work.firstChunk + index) = cut (requestOf setup work index) := by
  have near := planned.chunks_lt
  have place : wrapSub (wrap (work.firstChunk + index)) (wrap work.firstChunk) = index := by
    rw [wrapSub_wrap (Nat.le_add_right _ _)]
    · exact Nat.add_sub_cancel_left _ _
    · rw [Nat.add_sub_cancel_left]
      unfold modulus
      omega
  have start := planned.start_le positive bound
  have end_ := planned.end_
  have remote : wrap (work.remoteOffset + index * setup.pieceBytes) =
      work.remoteOffset + index * setup.pieceBytes := wrap_eq (by omega)
  unfold requestFor cut requestOf
  dsimp only
  rw [place, pieceOffset_eq positive planned bound, pieceLength_eq positive planned bound,
    remote]

/-- The pieces of a whole transfer are posted at their full length. -/
theorem Whole.cut_eq (whole : Whole setup work) (index : Nat) :
    cut (requestOf setup work index) = requestOf setup work index := by
  have short : pieceSize setup work index < 2 ^ 32 :=
    lt_of_le_of_lt (pieceSize_le setup work index) whole.length
  unfold cut
  rw [show (requestOf setup work index).length % 2 ^ 32 =
    (requestOf setup work index).length from Nat.mod_eq_of_lt short]

end Transfer

/-! ## The transfers of a lane -/

/-- The number of the first piece of a transfer. -/
def firstOf (transfers : List Work) (count : Nat) : Nat :=
  ((transfers.take count).map Work.chunks).sum

/-- The requests for all pieces. -/
def plan (setup : Setup) (transfers : List Work) : List Request :=
  transfers.flatMap (requestsOf setup)

/-- The copies across the ring for all pieces. -/
def copyPlan (setup : Setup) (transfers : List Work) : List (Nat × Nat × Nat) :=
  transfers.flatMap (copiesOf setup)

section Transfers

variable {setup : Setup} {transfers : List Work} {work : Work} {count other : Nat}

@[simp]
theorem firstOf_zero (transfers : List Work) : firstOf transfers 0 = 0 := by
  simp [firstOf]

theorem firstOf_succ (known : transfers[count]? = some work) :
    firstOf transfers (count + 1) = firstOf transfers count + work.chunks := by
  unfold firstOf
  rw [List.take_add_one, known]
  simp

theorem firstOf_mono (ordered : count ≤ other) :
    firstOf transfers count ≤ firstOf transfers other := by
  unfold firstOf
  have prefixed : transfers.take count <+: transfers.take other :=
    List.take_prefix_take_left ordered
  rcases prefixed with ⟨rest, split⟩
  rw [← split, List.map_append, List.sum_append]
  exact Nat.le_add_right _ _

theorem firstOf_append (bound : count ≤ transfers.length) :
    firstOf (transfers ++ [work]) count = firstOf transfers count := by
  unfold firstOf
  rw [List.take_append_of_le_length bound]

theorem firstOf_length_append :
    firstOf (transfers ++ [work]) (transfers.length + 1) =
      firstOf transfers transfers.length + work.chunks := by
  have last : (transfers ++ [work])[transfers.length]? = some work := by simp
  rw [firstOf_succ last, firstOf_append le_rfl]

theorem length_requestsOf : (requestsOf setup work).length = work.chunks := by
  simp [requestsOf]

theorem plan_append :
    plan setup (transfers ++ [work]) = plan setup transfers ++ requestsOf setup work := by
  simp [plan]

theorem copyPlan_append : copyPlan setup (transfers ++ [work]) =
    copyPlan setup transfers ++ copiesOf setup work := by
  simp [copyPlan]

theorem length_plan : (plan setup transfers).length = firstOf transfers transfers.length := by
  unfold plan firstOf
  rw [List.length_flatMap, List.take_length]
  exact congrArg List.sum (List.map_congr_left fun _ _ => length_requestsOf)

theorem length_copyPlan :
    (copyPlan setup transfers).length = firstOf transfers transfers.length := by
  unfold copyPlan firstOf
  rw [List.length_flatMap, List.take_length]
  apply congrArg List.sum
  apply List.map_congr_left
  intro held _
  simp [copiesOf]

/-- A list of blocks, one for each transfer and as long as its pieces, is indexed by
the piece numbers. -/
theorem flatMap_at {α : Type} (block : Work → List α)
    (length : ∀ held, (block held).length = held.chunks)
    (known : transfers[count]? = some work) {index : Nat} (bound : index < work.chunks) :
    (transfers.flatMap block)[firstOf transfers count + index]? = (block work)[index]? := by
  induction transfers generalizing count with
  | nil => simp at known
  | cons head rest ih =>
      rw [List.flatMap_cons]
      cases count with
      | zero =>
          simp only [List.getElem?_cons_zero, Option.some.injEq] at known
          subst known
          rw [firstOf_zero, Nat.zero_add, List.getElem?_append_left]
          rw [length]
          exact bound
      | succ before =>
          simp only [List.getElem?_cons_succ] at known
          have shift : firstOf (head :: rest) (before + 1) =
              head.chunks + firstOf rest before := by
            simp [firstOf]
          rw [shift, List.getElem?_append_right (by rw [length]; omega), length,
            ← ih known]
          congr 1
          omega

theorem plan_at (known : transfers[count]? = some work) {index : Nat}
    (bound : index < work.chunks) :
    (plan setup transfers)[firstOf transfers count + index]? =
      some (requestOf setup work index) := by
  unfold plan
  rw [flatMap_at _ (fun _ => length_requestsOf) known bound]
  simp [requestsOf, bound]

theorem copyPlan_at (known : transfers[count]? = some work) {index : Nat}
    (bound : index < work.chunks) :
    (copyPlan setup transfers)[firstOf transfers count + index]? =
      some (copyOf setup work index) := by
  unfold copyPlan
  rw [flatMap_at _ (fun held => by simp [copiesOf]) known bound]
  simp [copiesOf, bound]

/-- Taking one more of a list. -/
theorem take_succ_of_at {α : Type} {whole : List α} {taken : Nat} {value : α}
    (known : whole[taken]? = some value) :
    whole.take taken ++ [value] = whole.take (taken + 1) := by
  rw [List.take_add_one, known]
  rfl

end Transfers

end ShadowSpill.Network.LanePlan
