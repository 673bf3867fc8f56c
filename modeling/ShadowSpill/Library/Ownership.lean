import Mathlib

/-!
# Latest owners and chains of succession

Owners come one after another, and each holds some places.  At any moment the
latest owner to hold a place owns it.  `Succeeds` relates an owner to the ones
it takes a place from directly; `exists_next` and `transGen_succeeds` say that
whoever held a place earlier reaches every later holder through direct
successions, so what is checked of direct successions alone holds of all.
-/

namespace ShadowSpill.Library.Ownership

variable {Owner Place : Type*} (holds : Owner → Place → Bool)

/-- The last of the owners so far to hold the place. -/
def latest (passed : List Owner) (place : Place) : Option Owner :=
  passed.reverse.find? fun owner => holds owner place

theorem latest_snoc (passed : List Owner) (owner : Owner) (place : Place) :
    latest holds (passed ++ [owner]) place =
      if holds owner place then some owner else latest holds passed place := by
  rw [latest, List.reverse_append, List.reverse_singleton, List.singleton_append,
    List.find?_cons]
  cases holds owner place with
  | true => rfl
  | false => rfl

/-- The latest owner holds the place, and nobody after it does. -/
theorem latest_eq_some_iff {passed : List Owner} {place : Place} {owner : Owner} :
    latest holds passed place = some owner ↔
      ∃ before after, passed = before ++ owner :: after ∧
        holds owner place = true ∧ ∀ other ∈ after, holds other place = false := by
  rw [latest, List.find?_eq_some_iff_append]
  constructor
  · rintro ⟨held, after, before, split, unheld⟩
    refine ⟨before.reverse, after.reverse, ?_, held, fun other mem => ?_⟩
    · have whole := congrArg List.reverse split
      simpa using whole
    · simpa using unheld other (List.mem_reverse.mp mem)
  · rintro ⟨before, after, rfl, held, unheld⟩
    refine ⟨held, after.reverse, before.reverse, by simp, fun other mem => ?_⟩
    simpa using unheld other (List.mem_reverse.mp mem)

/-- The successor takes some place directly from the predecessor. -/
def Succeeds (order : List Owner) (predecessor successor : Owner) : Prop :=
  ∃ passed rest, order = passed ++ successor :: rest ∧
    ∃ place, holds successor place = true ∧
      latest holds passed place = some predecessor

/-- One more owner adds what it takes itself. -/
theorem succeeds_snoc {order : List Owner} {owner predecessor successor : Owner} :
    Succeeds holds (order ++ [owner]) predecessor successor ↔
      Succeeds holds order predecessor successor ∨
        (successor = owner ∧ ∃ place, holds owner place = true ∧
          latest holds order place = some predecessor) := by
  constructor
  · rintro ⟨passed, rest, split, taken⟩
    rcases List.eq_nil_or_concat rest with rfl | ⟨init, last, rfl⟩
    · obtain ⟨rfl, single⟩ := List.append_inj' split rfl
      obtain rfl : owner = successor := by simpa using single
      exact Or.inr ⟨rfl, taken⟩
    · rw [List.concat_eq_append, ← List.cons_append, ← List.append_assoc] at split
      obtain ⟨rfl, _⟩ := List.append_inj' split rfl
      exact Or.inl ⟨passed, init, rfl, taken⟩
  · rintro (⟨passed, rest, rfl, taken⟩ | ⟨rfl, taken⟩)
    · exact ⟨passed, rest ++ [owner], by simp, taken⟩
    · exact ⟨order, [], rfl, taken⟩

/-- Successions among the first owners stay successions. -/
theorem Succeeds.append {order : List Owner} {predecessor successor : Owner}
    (succeeds : Succeeds holds order predecessor successor) (rest : List Owner) :
    Succeeds holds (order ++ rest) predecessor successor := by
  obtain ⟨passed, after, rfl, taken⟩ := succeeds
  exact ⟨passed, after ++ rest, by simp, taken⟩

theorem Succeeds.mem {order : List Owner} {predecessor successor : Owner}
    (succeeds : Succeeds holds order predecessor successor) :
    successor ∈ order := by
  obtain ⟨passed, rest, rfl, _⟩ := succeeds
  simp

/-- One owner comes before another. -/
def Before (order : List Owner) (first second : Owner) : Prop :=
  ∃ passed between rest, order = passed ++ first :: between ++ second :: rest

/-- An owner that held a place before another holder has a direct successor
there, which is that holder or comes before it. -/
theorem exists_next (passed between rest : List Owner) {first second : Owner}
    {place : Place}
    (firstHolds : holds first place = true)
    (secondHolds : holds second place = true) :
    ∃ before next after, between ++ [second] = before ++ next :: after ∧
      holds next place = true ∧
      Succeeds holds (passed ++ first :: between ++ second :: rest) first next := by
  have found : ((between ++ [second]).find? fun owner => holds owner place).isSome :=
    List.find?_isSome.mpr ⟨second, by simp, secondHolds⟩
  obtain ⟨next, isNext⟩ := Option.isSome_iff_exists.mp found
  obtain ⟨held, before, after, split, unheld⟩ :=
    List.find?_eq_some_iff_append.mp isNext
  refine ⟨before, next, after, split, held, passed ++ first :: before,
    after ++ rest, ?_, place, held, ?_⟩
  · calc passed ++ first :: between ++ second :: rest
        = passed ++ first :: (between ++ [second]) ++ rest := by simp
      _ = passed ++ first :: (before ++ next :: after) ++ rest := by rw [split]
      _ = passed ++ first :: before ++ next :: (after ++ rest) := by simp
  · refine (latest_eq_some_iff holds).mpr ⟨passed, before, rfl, firstHolds, ?_⟩
    intro other mem
    simpa using unheld other mem

/-- Two holders of one place are joined by direct successions. -/
theorem transGen_succeeds {order : List Owner} {first second : Owner}
    {place : Place}
    (before : Before order first second)
    (firstHolds : holds first place = true)
    (secondHolds : holds second place = true) :
    Relation.TransGen (Succeeds holds order) first second := by
  obtain ⟨passed, between, rest, split⟩ := before
  -- Each step leaves fewer owners between the two holders.
  induction size : between.length using Nat.strong_induction_on
    generalizing passed between first with
  | _ size ih =>
      obtain ⟨early, next, after, place_eq, held, succeeds⟩ :=
        exists_next holds passed between rest firstHolds secondHolds
      rw [← split] at succeeds
      rcases List.eq_nil_or_concat after with rfl | ⟨later, last, rfl⟩
      · obtain ⟨_, single⟩ := List.append_inj' place_eq rfl
        obtain rfl : second = next := by simpa using single
        exact Relation.TransGen.single succeeds
      · rw [List.concat_eq_append, ← List.cons_append, ← List.append_assoc] at place_eq
        obtain ⟨rfl, _⟩ := List.append_inj' place_eq rfl
        refine Relation.TransGen.head succeeds ?_
        refine ih later.length ?_ held (passed ++ first :: early) later ?_ rfl
        · simp only [List.length_append, List.length_cons] at size
          omega
        · rw [split]
          simp

section Sorted

variable {order : List Owner} {Earlier : Owner → Owner → Prop}

/-- In a sorted list, what is earlier than an owner stands before it. -/
theorem mem_passed_of_earlier
    (asymmetric : ∀ first second, Earlier first second → ¬ Earlier second first)
    {passed rest : List Owner} {first second : Owner}
    (sorted : (passed ++ second :: rest).Pairwise Earlier)
    (mem : first ∈ passed ++ second :: rest)
    (earlier : Earlier first second) : first ∈ passed := by
  rcases List.mem_append.mp mem with before | after
  · exact before
  · rcases List.mem_cons.mp after with rfl | after
    · exact absurd earlier (asymmetric _ _ earlier)
    · have tail := (List.pairwise_cons.mp (List.pairwise_append.mp sorted).2.1).1
      exact absurd earlier (asymmetric _ _ (tail first after))

theorem before_of_earlier
    (asymmetric : ∀ first second, Earlier first second → ¬ Earlier second first)
    (sorted : order.Pairwise Earlier) {first second : Owner}
    (firstMem : first ∈ order) (secondMem : second ∈ order)
    (earlier : Earlier first second) : Before order first second := by
  obtain ⟨passed, rest, rfl⟩ := List.append_of_mem secondMem
  obtain ⟨before, between, rfl⟩ := List.append_of_mem
    (mem_passed_of_earlier asymmetric sorted firstMem earlier)
  exact ⟨before, between, rest, rfl⟩

/-- Direct succession without the list: of the earlier holders of some place,
the predecessor is the latest. -/
theorem succeeds_iff_of_sorted
    (asymmetric : ∀ first second, Earlier first second → ¬ Earlier second first)
    (sorted : order.Pairwise Earlier) {predecessor successor : Owner} :
    Succeeds holds order predecessor successor ↔
      predecessor ∈ order ∧ successor ∈ order ∧ Earlier predecessor successor ∧
        ∃ place, holds predecessor place = true ∧ holds successor place = true ∧
          ∀ other ∈ order, holds other place = true → Earlier other successor →
            other = predecessor ∨ Earlier other predecessor := by
  constructor
  · rintro ⟨passed, rest, rfl, place, taken, isLatest⟩
    obtain ⟨before, after, rfl, held, unheld⟩ := (latest_eq_some_iff holds).mp isLatest
    have cross := (List.pairwise_append.mp sorted).2.2
    refine ⟨by simp, by simp, cross predecessor (by simp) successor (by simp),
      place, held, taken, fun other mem heldToo earlier => ?_⟩
    have inPassed := mem_passed_of_earlier asymmetric sorted mem earlier
    rcases List.mem_append.mp inPassed with early | late
    · right
      exact (List.pairwise_append.mp (List.pairwise_append.mp sorted).1).2.2 other
        early predecessor (by simp)
    · rcases List.mem_cons.mp late with rfl | late
      · exact Or.inl rfl
      · rw [unheld other late] at heldToo
        cases heldToo
  · rintro ⟨predecessorMem, successorMem, earlier, place, held, taken, isLatest⟩
    obtain ⟨passed, rest, rfl⟩ := List.append_of_mem successorMem
    obtain ⟨before, after, rfl⟩ := List.append_of_mem
      (mem_passed_of_earlier asymmetric sorted predecessorMem earlier)
    refine ⟨_, rest, rfl, place, taken, (latest_eq_some_iff holds).mpr
      ⟨before, after, rfl, held, fun other mem => ?_⟩⟩
    have cross := (List.pairwise_append.mp sorted).2.2 other (by simp [mem])
      successor (by simp)
    have later := (List.pairwise_cons.mp (List.pairwise_append.mp
      (List.pairwise_append.mp sorted).1).2.1).1 other mem
    cases heldToo : holds other place with
    | false => rfl
    | true =>
        rcases isLatest other (by simp [mem]) heldToo cross with rfl | sooner
        · exact absurd later (asymmetric _ _ later)
        · exact absurd sooner (asymmetric _ _ later)

end Sorted

/-- What every direct succession grants, and what the order itself keeps,
holds between any two holders of one place. -/
theorem le_of_succeeds {Time : Type*} [Preorder Time] (start finish : Owner → Time)
    {order : List Owner}
    (sorted : order.Pairwise fun first second => start first ≤ start second)
    (direct : ∀ predecessor successor,
      Succeeds holds order predecessor successor →
        finish predecessor ≤ start successor)
    {first second : Owner} {place : Place}
    (before : Before order first second)
    (firstHolds : holds first place = true)
    (secondHolds : holds second place = true) :
    finish first ≤ start second := by
  obtain ⟨passed, between, rest, rfl⟩ := before
  obtain ⟨early, next, after, split, held, succeeds⟩ :=
    exists_next holds passed between rest firstHolds secondHolds
  refine (direct _ _ succeeds).trans ?_
  rcases List.eq_nil_or_concat after with rfl | ⟨later, last, rfl⟩
  · obtain ⟨_, single⟩ := List.append_inj' split rfl
    obtain rfl : second = next := by simpa using single
    exact le_rfl
  · rw [List.concat_eq_append, ← List.cons_append, ← List.append_assoc] at split
    obtain ⟨rfl, _⟩ := List.append_inj' split rfl
    have tail := (List.pairwise_append.mp sorted).2.2
    exact tail next (by simp) second (by simp)

end ShadowSpill.Library.Ownership
