import Mathlib

/-!
# The stores of a search

Workers evaluate the candidates of every problem.  A candidate offers each plan it
places to one record shared by all of them, and its answer to its own problem's slot.
The plans to beat are offered before the first candidate starts.  What a search decodes
at the end is read from both stores.  The record may come from a wider search, with
the best plan that search has placed.
-/

namespace ShadowSpill.Planner.Search.Winners

variable {σ : Type}

/-! ## Plans -/

/-- A plan that was measured.  A makespan of zero stands for no plan in every store. -/
structure Plan (σ : Type) where
  makespanNs : Nat
  schedule : σ
  positive : 0 < makespanNs
  deriving DecidableEq

/-- The index that names nothing. -/
def noIndex : Nat := 2 ^ 32 - 1

/-- The plan to beat, as the slot names it. -/
def incumbentCandidate : Nat := noIndex - 1

/-! ## The shared record -/

/-- The best plan placed; `bound` mirrors the makespan for readers without the lock. -/
structure BestPlaced (σ : Type) where
  bound : Nat
  makespanNs : Nat
  plan : Option σ
  deriving DecidableEq

/-- Keep the plan if nothing is held or it is faster than what is held. -/
def bestPlacedOffer (best : BestPlaced σ) (plan : Plan σ) : BestPlaced σ :=
  if plan.makespanNs = 0 then best
  else if best.makespanNs = 0 ∨ plan.makespanNs < best.makespanNs then
    ⟨plan.makespanNs, plan.makespanNs, some plan.schedule⟩
  else best

/-- The best answer of one problem. -/
structure Slot (σ : Type) where
  selectedCandidate : Nat
  selectedMakespanNs : Nat
  selected : Option σ
  deriving DecidableEq

/-- Ties fall to the earlier candidate; the plan to beat came before every candidate. -/
def offerProblemWinner (slot : Slot σ) (candidate : Nat) (plan : Plan σ) : Slot σ :=
  if slot.selectedCandidate = noIndex ∨
      plan.makespanNs < slot.selectedMakespanNs ∨
      (plan.makespanNs = slot.selectedMakespanNs ∧
        slot.selectedCandidate ≠ incumbentCandidate ∧
        candidate < slot.selectedCandidate) then
    ⟨candidate, plan.makespanNs, some plan.schedule⟩
  else slot

/-! ## Candidates and problems -/

/-- What evaluating a candidate comes to: the plans it places, in order, or without a
pool to place into the plan it simulates. -/
structure Candidate (σ : Type) where
  placed : List (Plan σ)
  simulated : Option (Plan σ)

/-- Keep a placed plan that is faster than the candidate's own. -/
def keepPlaced (held : Option (Plan σ)) (plan : Plan σ) : Option (Plan σ) :=
  match held with
  | none => some plan
  | some best => if best.makespanNs ≤ plan.makespanNs then some best else some plan

/-- The answer of a candidate. -/
def Candidate.answer (placing : Bool) (candidate : Candidate σ) : Option (Plan σ) :=
  if placing then candidate.placed.foldl keepPlaced none else candidate.simulated

/-- A resolved problem: the plan to beat, if it fits here, and its candidates, fewer
than the indices that have a meaning of their own. -/
structure Problem (σ : Type) where
  incumbent : Option (Plan σ)
  candidates : List (Candidate σ)
  few : candidates.length ≤ incumbentCandidate

/-! ## A search -/

/-- Who makes an offer. -/
structure Source where
  problem : Nat
  candidate : Nat
  deriving DecidableEq

/-- An offer to the shared record, or to the slot of the source's problem. -/
inductive Event (σ : Type) where
  | place (source : Source) (plan : Plan σ)
  | answer (source : Source) (plan : Plan σ)

def Event.source : Event σ → Source
  | .place source _ => source
  | .answer source _ => source

/-- The two stores. -/
structure Stores (σ : Type) where
  best : BestPlaced σ
  slots : Nat → Slot σ

/-- Each offer takes the lock of one store. -/
def offer (stores : Stores σ) : Event σ → Stores σ
  | .place _ plan => { stores with best := bestPlacedOffer stores.best plan }
  | .answer source plan =>
    { stores with
      slots := fun problem =>
        if problem = source.problem then
          offerProblemWinner (stores.slots problem) source.candidate plan
        else stores.slots problem }

/-- The winner a problem adopts; no candidate index stands for the plan to beat. -/
structure Selected (σ : Type) where
  makespanNs : Nat
  candidateIndex : Option Nat
  schedule : Option σ
  deriving DecidableEq

/-- Makespan first, then the problem, then the candidate; the plan to beat counts as
candidate minus one. -/
abbrev Key := Nat ×ₗ Nat ×ₗ Int

/-- The candidate's place in the key. -/
def candidateRank : Option Nat → Int
  | none => -1
  | some index => index

def selectionKey (selection : Nat × Selected σ) : Key :=
  toLex (selection.2.makespanNs,
    toLex (selection.1, candidateRank selection.2.candidateIndex))

end ShadowSpill.Planner.Search.Winners
