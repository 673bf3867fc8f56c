import ShadowSpill.Library.Coordinates

/-!
# The time axis and the placing order

Lease lifetimes are ranked on the sorted distinct endpoint times, and leases
are placed largest first, longest-lived first among equals, then earliest,
then lowest index.  Ranks order the endpoints as the times do,
which is all the index needs of them.
-/

namespace ShadowSpill.Planner.PlacementOrder

open Library.Coordinates

/-- What placement reads from one lease. -/
structure LeaseLifetime where
  bytes : Nat
  alignment : Nat
  startNs : Nat
  endNs : Nat
deriving DecidableEq, Repr, Inhabited

/-- What the callers promise of every lease. -/
structure LeaseLifetime.Admissible (lease : LeaseLifetime) : Prop where
  ordered : lease.startNs ≤ lease.endNs
  aligned : 0 < lease.alignment

instance : DecidablePred LeaseLifetime.Admissible := fun lease =>
  decidable_of_iff (lease.startNs ≤ lease.endNs ∧ 0 < lease.alignment)
    ⟨fun both => ⟨both.1, both.2⟩, fun whole => ⟨whole.ordered, whole.aligned⟩⟩

/-- The lease is held at a time: its lifetime is half open. -/
def LeaseLifetime.LiveAt (lease : LeaseLifetime) (time : Nat) : Prop :=
  lease.startNs ≤ time ∧ time < lease.endNs

/-- The two leases are held at some common time. -/
def LeaseLifetime.Overlaps (first second : LeaseLifetime) : Prop :=
  ∃ time, first.LiveAt time ∧ second.LiveAt time

theorem LeaseLifetime.Overlaps.symm {first second : LeaseLifetime}
    (overlaps : first.Overlaps second) : second.Overlaps first :=
  overlaps.imp fun _ both => both.symm

/-! ## The time axis -/

/-- Every lifetime's two endpoints, in lease order. -/
def endpoints (lifetimes : List LeaseLifetime) : List Nat :=
  lifetimes.flatMap fun lease => [lease.startNs, lease.endNs]

/-- The sorted distinct endpoint times. -/
def axisTimes (lifetimes : List LeaseLifetime) : List Nat :=
  distinct ((endpoints lifetimes).insertionSort (· ≤ ·))

/-- `time_axis_rank`. -/
def timeAxisRank (times : List Nat) (value : Nat) : Nat :=
  ordinal times value

/-- The distinct endpoint times, and each lifetime's endpoints ranked. -/
structure TimeAxis where
  times : List Nat
  startRank : List Nat
  endRank : List Nat

/-- `time_axis_build`. -/
def timeAxisBuild (lifetimes : List LeaseLifetime) : TimeAxis :=
  let times := axisTimes lifetimes
  { times := times
    startRank := lifetimes.map fun lease => timeAxisRank times lease.startNs
    endRank := lifetimes.map fun lease => timeAxisRank times lease.endNs }

section Times

variable {lifetimes : List LeaseLifetime}

theorem axisTimes_strict (lifetimes : List LeaseLifetime) :
    (axisTimes lifetimes).Pairwise (· < ·) :=
  (distinct_spec _ (List.pairwise_insertionSort _ _)).1

theorem mem_axisTimes {time : Nat} :
    time ∈ axisTimes lifetimes ↔
      ∃ lease ∈ lifetimes, time = lease.startNs ∨ time = lease.endNs := by
  rw [axisTimes, (distinct_spec _ (List.pairwise_insertionSort _ _)).2,
    List.mem_insertionSort]
  simp [endpoints]

end Times

/-- The ranks of an admissible lease are ordered and lie on the axis. -/
theorem LeaseLifetime.Admissible.rank_bounds
    {lifetimes : List LeaseLifetime} {lease : LeaseLifetime}
    (admissible : lease.Admissible) (mem : lease ∈ lifetimes) :
    ordinal (axisTimes lifetimes) lease.startNs ≤
        ordinal (axisTimes lifetimes) lease.endNs ∧
      ordinal (axisTimes lifetimes) lease.startNs <
        (axisTimes lifetimes).length ∧
      ordinal (axisTimes lifetimes) lease.endNs <
        (axisTimes lifetimes).length := by
  have strict := axisTimes_strict lifetimes
  have startMem : lease.startNs ∈ axisTimes lifetimes :=
    mem_axisTimes.mpr ⟨lease, mem, Or.inl rfl⟩
  have endMem : lease.endNs ∈ axisTimes lifetimes :=
    mem_axisTimes.mpr ⟨lease, mem, Or.inr rfl⟩
  exact ⟨(ordinal_le_iff strict startMem endMem).mpr admissible.ordered,
    ordinal_lt_length strict startMem, ordinal_lt_length strict endMem⟩

/-! ## The placing order -/

/-- A lease's sort key. -/
structure OrderKey where
  bytes : Nat
  startNs : Nat
  span : Nat
  lifetime : Nat
deriving DecidableEq, Repr

/-- `compare_order`. -/
def compareOrder (first second : OrderKey) : Ordering :=
  if first.bytes ≠ second.bytes then
    if first.bytes > second.bytes then .lt else .gt
  else if first.span ≠ second.span then
    if first.span > second.span then .lt else .gt
  else if first.startNs ≠ second.startNs then
    if first.startNs < second.startNs then .lt else .gt
  else if first.lifetime ≠ second.lifetime then
    if first.lifetime < second.lifetime then .lt else .gt
  else .eq

/-- The first key may precede the second. -/
def OrderKey.Precedes (first second : OrderKey) : Prop :=
  compareOrder first second ≠ .gt

instance : DecidableRel OrderKey.Precedes :=
  fun _ _ => inferInstanceAs (Decidable (_ ≠ _))

theorem OrderKey.precedes_iff (first second : OrderKey) :
    first.Precedes second ↔
      second.bytes < first.bytes ∨
        (first.bytes = second.bytes ∧
          (second.span < first.span ∨
            (first.span = second.span ∧
              (first.startNs < second.startNs ∨
                (first.startNs = second.startNs ∧
                  first.lifetime ≤ second.lifetime))))) := by
  unfold OrderKey.Precedes compareOrder
  split_ifs <;> simp <;> omega

instance : Std.Total OrderKey.Precedes where
  total := fun first second => by
    rw [OrderKey.precedes_iff, OrderKey.precedes_iff]
    omega

instance : IsTrans OrderKey OrderKey.Precedes where
  trans := fun first second third => by
    rw [OrderKey.precedes_iff, OrderKey.precedes_iff, OrderKey.precedes_iff]
    omega

/-- The key of the lease at an index. -/
def orderKey (lifetimes : List LeaseLifetime) (axis : TimeAxis) (index : Nat) :
    OrderKey where
  bytes := (lifetimes.getD index default).bytes
  startNs := (lifetimes.getD index default).startNs
  span := axis.endRank.getD index 0 - axis.startRank.getD index 0
  lifetime := index

/-- `placing_order`. -/
def placingOrder (lifetimes : List LeaseLifetime) (axis : TimeAxis) :
    List OrderKey :=
  ((List.range lifetimes.length).map (orderKey lifetimes axis)).insertionSort
    OrderKey.Precedes

/-- The lease indices in placing order. -/
def placingIndices (lifetimes : List LeaseLifetime) (axis : TimeAxis) :
    List Nat :=
  (placingOrder lifetimes axis).map OrderKey.lifetime

/-- Every lease is placed exactly once. -/
theorem placingIndices_perm (lifetimes : List LeaseLifetime) (axis : TimeAxis) :
    (placingIndices lifetimes axis).Perm (List.range lifetimes.length) := by
  have sorted := (List.perm_insertionSort OrderKey.Precedes
    ((List.range lifetimes.length).map (orderKey lifetimes axis))).map
      OrderKey.lifetime
  have inverse : (OrderKey.lifetime ∘ orderKey lifetimes axis) = id := rfl
  rwa [List.map_map, inverse, List.map_id] at sorted

theorem placingOrder_eq_map (lifetimes : List LeaseLifetime) (axis : TimeAxis) :
    placingOrder lifetimes axis =
      (placingIndices lifetimes axis).map (orderKey lifetimes axis) := by
  rw [placingIndices, List.map_map]
  refine (List.map_id _).symm.trans (List.map_congr_left fun key mem => ?_)
  rw [placingOrder, List.mem_insertionSort] at mem
  obtain ⟨index, _, rfl⟩ := List.mem_map.mp mem
  rfl

/-- The placing order is sorted by the leases' keys. -/
theorem placingIndices_pairwise (lifetimes : List LeaseLifetime)
    (axis : TimeAxis) :
    (placingIndices lifetimes axis).Pairwise fun first second =>
      (orderKey lifetimes axis first).Precedes (orderKey lifetimes axis second) := by
  have sorted : (placingOrder lifetimes axis).Pairwise OrderKey.Precedes :=
    List.pairwise_insertionSort _ _
  rw [placingOrder_eq_map] at sorted
  exact List.pairwise_map.mp sorted

/-- No lease is placed after a smaller one. -/
theorem placingIndices_bytes_le
    {lifetimes : List LeaseLifetime} {axis : TimeAxis}
    {passed rest : List Nat} {lifetime : Nat}
    (split : placingIndices lifetimes axis = passed ++ lifetime :: rest) :
    ∀ earlier ∈ passed, (lifetimes.getD lifetime default).bytes ≤
      (lifetimes.getD earlier default).bytes := by
  intro earlier mem
  have sorted := placingIndices_pairwise lifetimes axis
  rw [split] at sorted
  have precedes := (List.pairwise_append.mp sorted).2.2 earlier mem lifetime
    (by simp)
  rw [OrderKey.precedes_iff] at precedes
  simp only [orderKey] at precedes
  omega

end ShadowSpill.Planner.PlacementOrder
