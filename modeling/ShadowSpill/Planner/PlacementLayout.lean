import ShadowSpill.Library.AddressRanges
import ShadowSpill.Planner.PlacementOrder

/-!
# What a placement is for

Leases are taken in some order, and each gets the lowest aligned offset that
clears the earlier leases it takes into account.  `IsLayout` says so of an
assignment of offsets, for any order and any relation that says which earlier
leases count.  Two facts follow without looking at an algorithm.  If every
pair of leases held at a common time counts, the layout is safe.  If one
relation counts more leases than another, their layouts agree where the extra
leases stand in nobody's way, so an order and a relation have one layout.
-/

namespace ShadowSpill.Planner.PlacementLayout

open Library.AddressRanges Library.Coordinates PlacementOrder

variable {lifetimes : List LeaseLifetime}

/-- The lease at an index. -/
abbrev leaseAt (lifetimes : List LeaseLifetime) (index : Nat) : LeaseLifetime :=
  lifetimes.getD index default

theorem mem_leaseAt {index : Nat} (bound : index < lifetimes.length) :
    leaseAt lifetimes index ∈ lifetimes := by
  rw [leaseAt, List.getD_eq_getElem _ _ bound]
  exact List.getElem_mem bound

theorem startRank_eq {index : Nat} (bound : index < lifetimes.length) :
    (timeAxisBuild lifetimes).startRank.getD index 0 =
      ordinal (axisTimes lifetimes) (leaseAt lifetimes index).startNs := by
  rw [List.getD_eq_getElem _ _ (by simpa [timeAxisBuild] using bound), leaseAt,
    List.getD_eq_getElem _ _ bound]
  simp [timeAxisBuild, timeAxisRank]

theorem endRank_eq {index : Nat} (bound : index < lifetimes.length) :
    (timeAxisBuild lifetimes).endRank.getD index 0 =
      ordinal (axisTimes lifetimes) (leaseAt lifetimes index).endNs := by
  rw [List.getD_eq_getElem _ _ (by simpa [timeAxisBuild] using bound), leaseAt,
    List.getD_eq_getElem _ _ bound]
  simp [timeAxisBuild, timeAxisRank]

/-- The addresses a lease takes at its offset. -/
def leaseRange (lifetimes : List LeaseLifetime) (offsets : List Nat)
    (index : Nat) : AddressRange :=
  ⟨offsets.getD index 0,
    offsets.getD index 0 + (leaseAt lifetimes index).bytes⟩

theorem leaseRange_set_ne
    {offsets : List Nat} {lifetime index offset : Nat}
    (apart : index ≠ lifetime) :
    leaseRange lifetimes (offsets.set lifetime offset) index =
      leaseRange lifetimes offsets index := by
  simp [leaseRange, List.getElem?_set_ne (Ne.symm apart)]

theorem leaseRange_set_self
    (lifetimes : List LeaseLifetime) {offsets : List Nat} {lifetime : Nat}
    (offset : Nat)
    (bound : lifetime < offsets.length) :
    leaseRange lifetimes (offsets.set lifetime offset) lifetime =
      ⟨offset, offset + (leaseAt lifetimes lifetime).bytes⟩ := by
  simp [leaseRange, bound]

/-- The addresses a lease has to clear: those of the earlier leases that count
for it. -/
def Taken (lifetimes : List LeaseLifetime) (Counts : Nat → Nat → Prop)
    (offsets : List Nat) (passed : List Nat) (lifetime address : Nat) : Prop :=
  ∃ earlier ∈ passed, Counts earlier lifetime ∧
    (leaseRange lifetimes offsets earlier).Contains address

theorem taken_congr
    {Counts : Nat → Nat → Prop} {first second : List Nat} {passed : List Nat}
    (same : ∀ earlier ∈ passed,
      leaseRange lifetimes first earlier = leaseRange lifetimes second earlier)
    (lifetime address : Nat) :
    Taken lifetimes Counts first passed lifetime address ↔
      Taken lifetimes Counts second passed lifetime address := by
  unfold Taken
  constructor
  · rintro ⟨earlier, mem, counts, contains⟩
    exact ⟨earlier, mem, counts, same earlier mem ▸ contains⟩
  · rintro ⟨earlier, mem, counts, contains⟩
    exact ⟨earlier, mem, counts, (same earlier mem).symm ▸ contains⟩

/-- Every lease is at the lowest aligned offset that clears the earlier leases
that count for it; an empty one is at the bottom. -/
structure IsLayout (lifetimes : List LeaseLifetime) (Counts : Nat → Nat → Prop)
    (order : List Nat) (offsets : List Nat) : Prop where
  fit : ∀ passed lifetime rest, order = passed ++ lifetime :: rest →
    0 < (leaseAt lifetimes lifetime).bytes →
      IsLowestFit (Taken lifetimes Counts offsets passed lifetime)
        (leaseAt lifetimes lifetime).bytes
        (leaseAt lifetimes lifetime).alignment (offsets.getD lifetime 0)
  zero : ∀ lifetime ∈ order, (leaseAt lifetimes lifetime).bytes = 0 →
    offsets.getD lifetime 0 = 0

/-- The end of the layout of the given leases. -/
def span (lifetimes : List LeaseLifetime) (offsets : List Nat)
    (order : List Nat) : Nat :=
  (order.map fun index => (leaseRange lifetimes offsets index).finish).foldl max 0

theorem isLayout_nil (Counts : Nat → Nat → Prop) (offsets : List Nat) :
    IsLayout lifetimes Counts [] offsets :=
  ⟨fun passed lifetime rest split => by simp at split, by simp⟩

section Snoc

variable {Counts : Nat → Nat → Prop} {passed offsets : List Nat}
  {lifetime offset : Nat}

/-- Placing one more lease last. -/
theorem IsLayout.snoc
    (layout : IsLayout lifetimes Counts passed offsets)
    (fresh : lifetime ∉ passed)
    (bound : lifetime < offsets.length)
    (fit : 0 < (leaseAt lifetimes lifetime).bytes →
      IsLowestFit (Taken lifetimes Counts offsets passed lifetime)
        (leaseAt lifetimes lifetime).bytes
        (leaseAt lifetimes lifetime).alignment offset)
    (zero : (leaseAt lifetimes lifetime).bytes = 0 → offset = 0) :
    IsLayout lifetimes Counts (passed ++ [lifetime])
      (offsets.set lifetime offset) := by
  have others : ∀ member ∈ passed,
      leaseRange lifetimes (offsets.set lifetime offset) member =
        leaseRange lifetimes offsets member := fun member mem =>
    leaseRange_set_ne fun equal => fresh (equal ▸ mem)
  have self : (offsets.set lifetime offset).getD lifetime 0 = offset :=
    congrArg AddressRange.start (leaseRange_set_self lifetimes offset bound)
  have kept : ∀ member ∈ passed,
      (offsets.set lifetime offset).getD member 0 = offsets.getD member 0 :=
    fun member mem => congrArg AddressRange.start (others member mem)
  constructor
  · intro before current rest split positive
    rcases List.eq_nil_or_concat rest with rfl | ⟨init, final, rfl⟩
    · obtain ⟨rfl, single⟩ := List.append_inj' split rfl
      obtain rfl : lifetime = current := by simpa using single
      rw [self]
      exact (fit positive).congr fun address =>
        (taken_congr others lifetime address).symm
    · rw [List.concat_eq_append, ← List.cons_append, ← List.append_assoc] at split
      obtain ⟨rfl, _⟩ := List.append_inj' split rfl
      rw [kept current (by simp)]
      exact (layout.fit before current init rfl positive).congr fun address =>
        (taken_congr (fun member mem => others member (by simp [mem]))
          current address).symm
  · intro member mem empty
    rcases List.mem_append.mp mem with early | last
    · rw [kept member early]
      exact layout.zero member early empty
    · obtain rfl := List.mem_singleton.mp last
      rw [self]
      exact zero empty

theorem span_snoc (fresh : lifetime ∉ passed) (bound : lifetime < offsets.length) :
    span lifetimes (offsets.set lifetime offset) (passed ++ [lifetime]) =
      max (span lifetimes offsets passed)
        (offset + (leaseAt lifetimes lifetime).bytes) := by
  have others : ∀ member ∈ passed,
      (leaseRange lifetimes (offsets.set lifetime offset) member).finish =
        (leaseRange lifetimes offsets member).finish := fun member mem =>
    congrArg AddressRange.finish
      (leaseRange_set_ne fun equal => fresh (equal ▸ mem))
  rw [span, span, List.map_append, List.foldl_append, List.map_congr_left others]
  simp [leaseRange_set_self lifetimes offset bound]

end Snoc

theorem foldl_max_spec (values : List Nat) :
    (∀ value ∈ values, value ≤ values.foldl max 0) ∧
      (values = [] ∧ values.foldl max 0 = 0 ∨ values.foldl max 0 ∈ values) := by
  induction values using List.reverseRecOn with
  | nil => simp
  | append_singleton values last ih =>
      rw [List.foldl_append, List.foldl_cons, List.foldl_nil]
      constructor
      · intro value mem
        rcases List.mem_append.mp mem with early | single
        · exact (ih.1 value early).trans (le_max_left _ _)
        · rw [List.mem_singleton.mp single]
          exact le_max_right _ _
      · right
        rcases Nat.le_total (values.foldl max 0) last with grows | stays
        · simp [max_eq_right grows]
        · rw [max_eq_left stays]
          rcases ih.2 with ⟨_, zero⟩ | mem
          · have equal : last = values.foldl max 0 := by omega
            simp [← equal]
          · exact List.mem_append_left _ mem

/-! ## Safety -/

/-- A layout of some of the leases: aligned, apart wherever lifetimes overlap,
and spanned by the reported bytes. -/
structure SafeLayout (lifetimes : List LeaseLifetime) (placed : List Nat)
    (offsets : List Nat) (requiredBytes : Nat) : Prop where
  aligned : ∀ index ∈ placed,
    (leaseAt lifetimes index).alignment ∣ offsets.getD index 0
  apart : ∀ first ∈ placed, ∀ second ∈ placed, first ≠ second →
    (leaseAt lifetimes first).Overlaps (leaseAt lifetimes second) →
      ∀ address, ¬ ((leaseRange lifetimes offsets first).Contains address ∧
        (leaseRange lifetimes offsets second).Contains address)
  covered : ∀ index ∈ placed,
    (leaseRange lifetimes offsets index).finish ≤ requiredBytes
  reached : (placed = [] ∧ requiredBytes = 0) ∨
    ∃ index ∈ placed, (leaseRange lifetimes offsets index).finish = requiredBytes

theorem SafeLayout.perm {first second offsets : List Nat} {requiredBytes : Nat}
    (perm : first.Perm second)
    (layout : SafeLayout lifetimes first offsets requiredBytes) :
    SafeLayout lifetimes second offsets requiredBytes where
  aligned := fun index mem => layout.aligned index (perm.mem_iff.mpr mem)
  apart := fun one oneMem two twoMem => layout.apart one (perm.mem_iff.mpr oneMem)
    two (perm.mem_iff.mpr twoMem)
  covered := fun index mem => layout.covered index (perm.mem_iff.mpr mem)
  reached := layout.reached.imp
    (And.imp_left fun none => (none ▸ perm).nil_eq.symm)
    (fun ⟨index, mem, reached⟩ => ⟨index, perm.mem_iff.mp mem, reached⟩)

section Safety

variable {Counts : Nat → Nat → Prop} {order offsets : List Nat}

/-- A lease clears each earlier lease that counts for it. -/
theorem IsLayout.clear
    (layout : IsLayout lifetimes Counts order offsets)
    {passed rest : List Nat} {earlier lifetime : Nat}
    (split : order = passed ++ lifetime :: rest)
    (mem : earlier ∈ passed)
    (counts : Counts earlier lifetime) (address : Nat) :
    ¬ ((leaseRange lifetimes offsets earlier).Contains address ∧
      (leaseRange lifetimes offsets lifetime).Contains address) := by
  rintro ⟨contains, lower, upper⟩
  simp only [leaseRange] at lower upper
  have fit := layout.fit passed lifetime rest split (by omega)
  exact fit.clears address lower upper ⟨earlier, mem, counts, contains⟩

/-- A layout is safe when every pair of leases held at a common time counts. -/
theorem IsLayout.safe
    (layout : IsLayout lifetimes Counts order offsets)
    (counts : ∀ first ∈ order, ∀ second ∈ order,
      (leaseAt lifetimes first).Overlaps (leaseAt lifetimes second) →
        Counts first second) :
    SafeLayout lifetimes order offsets (span lifetimes offsets order) where
  aligned := by
    intro index mem
    obtain ⟨passed, rest, split⟩ := List.append_of_mem mem
    rcases Nat.eq_zero_or_pos (leaseAt lifetimes index).bytes with zero | positive
    · rw [layout.zero index mem zero]
      exact dvd_zero _
    · exact (layout.fit passed index rest split positive).aligned
  apart := by
    intro first firstMem second secondMem distinct overlaps address both
    obtain ⟨passed, rest, split⟩ := List.append_of_mem secondMem
    have inSplit := firstMem
    rw [split] at inSplit
    rcases List.mem_append.mp inSplit with before | after
    · exact layout.clear split before (counts first firstMem second secondMem
        overlaps) address both
    · rcases List.mem_cons.mp after with equal | after
      · exact distinct equal
      · obtain ⟨between, beyond, split'⟩ := List.append_of_mem after
        rw [split', ← List.cons_append, ← List.append_assoc] at split
        exact layout.clear split (by simp) (counts second secondMem first firstMem
          overlaps.symm) address both.symm
  covered := fun index mem =>
    (foldl_max_spec _).1 _ (List.mem_map.mpr ⟨index, mem, rfl⟩)
  reached := by
    rcases (foldl_max_spec (order.map fun index =>
        (leaseRange lifetimes offsets index).finish)).2 with ⟨none, zero⟩ | mem
    · exact Or.inl ⟨List.map_eq_nil_iff.mp none, zero⟩
    · obtain ⟨index, inOrder, equal⟩ := List.mem_map.mp mem
      exact Or.inr ⟨index, inOrder, equal⟩

end Safety

/-! ## Counting more leases -/

section Agreement

variable {Fewer More : Nat → Nat → Prop} {order first second : List Nat}

/-- The leases that count only for the second relation share no address, in
the layout of the first, with the leases they count for. -/
def ExtraClear (lifetimes : List LeaseLifetime) (Fewer More : Nat → Nat → Prop)
    (order offsets : List Nat) : Prop :=
  ∀ passed lifetime rest, order = passed ++ lifetime :: rest →
    ∀ earlier ∈ passed, More earlier lifetime → ¬ Fewer earlier lifetime →
      ∀ address, ¬ ((leaseRange lifetimes offsets earlier).Contains address ∧
        (leaseRange lifetimes offsets lifetime).Contains address)

/-- Where the extra leases stand in nobody's way the layouts agree, lease by
lease. -/
theorem IsLayout.eq_of_extraClear
    (few : IsLayout lifetimes Fewer order first)
    (many : IsLayout lifetimes More order second)
    (weaker : ∀ earlier ∈ order, ∀ lifetime,
      Fewer earlier lifetime → More earlier lifetime)
    (clear : ExtraClear lifetimes Fewer More order first) :
    ∀ index ∈ order, first.getD index 0 = second.getD index 0 := by
  have prefixes : ∀ passed rest, order = passed ++ rest →
      ∀ index ∈ passed, first.getD index 0 = second.getD index 0 := by
    intro passed
    induction passed using List.reverseRecOn with
    | nil => simp
    | append_singleton passed lifetime ih =>
        intro rest split index mem
        rw [List.append_assoc, List.singleton_append] at split
        have before := ih (lifetime :: rest) split
        rcases List.mem_append.mp mem with early | last
        · exact before index early
        obtain rfl := List.mem_singleton.mp last
        rcases Nat.eq_zero_or_pos (leaseAt lifetimes index).bytes with
          zero | positive
        · rw [few.zero index (by simp [split]) zero,
            many.zero index (by simp [split]) zero]
        have fewFit := few.fit passed index rest split positive
        have manyFit := many.fit passed index rest split positive
        have ranges : ∀ member ∈ passed,
            leaseRange lifetimes first member =
              leaseRange lifetimes second member := fun member inPassed => by
          rw [leaseRange, leaseRange, before member inPassed]
        -- The first offset clears the extra leases too, and stays the lowest.
        have manyFit' := manyFit.congr fun address =>
          (taken_congr ranges index address).symm
        refine IsLowestFit.unique ⟨fewFit.aligned, ?_, ?_⟩ manyFit'
        · rintro address lower upper ⟨earlier, inPassed, counts, contains⟩
          by_cases fewer : Fewer earlier index
          · exact fewFit.clears address lower upper
              ⟨earlier, inPassed, fewer, contains⟩
          · exact clear passed index rest split earlier inPassed counts fewer
              address ⟨contains, lower, upper⟩
        · intro other aligned clears
          refine fewFit.lowest other aligned fun address lower upper => ?_
          rintro ⟨earlier, inPassed, counts, contains⟩
          exact clears address lower upper
            ⟨earlier, inPassed,
              weaker earlier (by simp [split, inPassed]) index counts, contains⟩
  exact prefixes order [] (by simp)

/-- There is one layout for an order and a relation. -/
theorem IsLayout.unique
    (one : IsLayout lifetimes Fewer order first)
    (other : IsLayout lifetimes Fewer order second) :
    ∀ index ∈ order, first.getD index 0 = second.getD index 0 :=
  one.eq_of_extraClear other (fun _ _ _ => id)
    fun _ _ _ _ _ _ counts unrecorded => (unrecorded counts).elim

end Agreement

end ShadowSpill.Planner.PlacementLayout
