import ShadowSpill.Planner.Search.Winners

/-!
# The winner does not depend on arrival order

Each store holds the least of what was offered to it, by its own key, whatever the
order; the shared record keeps the first of equal makespans, the slot of a problem the
earlier candidate.  What is decoded from both is the least answer of the search by
makespan, problem and candidate, unless the record came with a plan that no answer
comes up to.
-/

namespace ShadowSpill.Planner.Search.ArrivalOrder

open Winners

variable {σ : Type}

/-! ## Least entries -/

section Least

variable {α κ : Type} [LinearOrder κ] {key : α → κ} {list other : List α}

end Least

/-! ## Answers -/

/-- An answer of a search: the plan to beat of a problem, or a candidate's. -/
structure Answer (σ : Type) where
  problem : Nat
  candidate : Nat
  plan : Plan σ

/-- The winner a problem adopts when it selects the answer. -/
def Answer.selected (answer : Answer σ) : Selected σ where
  makespanNs := answer.plan.makespanNs
  candidateIndex :=
    if answer.candidate = incumbentCandidate then none else some answer.candidate
  schedule := some answer.plan.schedule

/-- Makespan, then problem, then the plan to beat before the candidates in order. -/
def Answer.key (answer : Answer σ) : Key :=
  selectionKey (answer.problem, answer.selected)

/-- Every answer of a search. -/
def answers (placing : Bool) (problems : List (Problem σ)) : List (Answer σ) :=
  problems.zipIdx.flatMap fun entry =>
    entry.1.incumbent.toList.map (Answer.mk entry.2 incumbentCandidate) ++
      entry.1.candidates.zipIdx.flatMap fun candidate =>
        (candidate.1.answer placing).toList.map (Answer.mk entry.2 candidate.2)

variable {placing : Bool} {problems : List (Problem σ)} {events : List (Event σ)}
variable {answer other : Answer σ} {source : Source} {plan : Plan σ} {problem : Nat}
variable {held : Option (Plan σ)}

/-- The results that the loop compares. -/
def considered (held : Option Nat) (results : List (Option (Selected σ))) :
    List (Nat × Selected σ) :=
  results.zipIdx.filterMap fun result =>
    result.1.bind fun winner =>
      if held.isSome ∧ held ≠ some winner.makespanNs then none
      else some (result.2, winner)

end ShadowSpill.Planner.Search.ArrivalOrder
