import Mathlib.Data.List.DropRight
import Mathlib.Order.Nat
import ShadowSpill.Runtime.ContractLanguage

/-!
# How the scope follows a contract

The scope marks the allocations it left out and looks ahead from its place in the
contract.  `Tracks` ties its marks to the first-fit reading of the events so far; each
part of the matcher (the frees it steps over, the look ahead, the end of the task) is
described over that relation.
-/

namespace ShadowSpill.Runtime.ContractMatching

open AllocationContracts ContractLanguage

variable {steps ahead rest skipped passed : List ContractStep}
variable {omitted onward : List Nat} {states : List AllocationState}
variable {geometry : Geometry}

/-! ## What validity says -/

/-- Allocations are numbered upward from `next`, and only earlier ones are freed. -/
def Numbered : Nat → List ContractStep → Prop
  | _, [] => True
  | next, step :: rest =>
    match step.operation with
    | .allocate => step.ordinal = next ∧ Numbered (next + 1) rest
    | .free => step.ordinal < next ∧ Numbered next rest

/-- The geometries of the allocations of a contract, in order. -/
def geometries : List ContractStep → List Geometry
  | [] => []
  | step :: rest =>
    match step.operation with
    | .allocate => step.geometry :: geometries rest
    | .free => geometries rest

theorem geometries_length (steps : List ContractStep) :
    (geometries steps).length = allocationCount steps := by
  unfold allocationCount
  induction steps with
  | nil => rfl
  | cons step rest inductionHypothesis =>
      cases operation : step.operation with
      | allocate => simp [geometries, operation, inductionHypothesis]
      | free => simp [geometries, operation, inductionHypothesis]

/-- The loop checks the numbering, and each step has the geometry of its allocation. -/
theorem validSteps_spec
    {allocations : List (Option Geometry)} {before : List Geometry}
    (valid : validSteps allocations steps = true)
    (same_length : before.length = allocations.length)
    (known : ∀ (ordinal : Nat) (geometry : Geometry),
      allocations[ordinal]? = some (some geometry) → before[ordinal]? = some geometry) :
    Numbered before.length steps ∧
      ∀ step ∈ steps, (before ++ geometries steps)[step.ordinal]? = some step.geometry := by
  induction steps generalizing allocations before with
  | nil => exact ⟨trivial, fun step mem => by cases mem⟩
  | cons step rest inductionHypothesis =>
      unfold validSteps at valid
      split at valid
      · cases valid
      cases operation : step.operation with
      | allocate =>
          simp only [operation] at valid
          split at valid
          · cases valid
          case isFalse numbered =>
            have numbered : step.ordinal = before.length := by
              rw [same_length]
              exact not_not.mp numbered
            have later := @inductionHypothesis
              (allocations ++ [some step.geometry]) (before ++ [step.geometry]) valid
              (by simp [same_length])
              (by
                intro ordinal geometry held
                rw [List.getElem?_append] at held ⊢
                rw [same_length]
                split
                case isTrue inside =>
                  rw [if_pos inside] at held
                  exact known ordinal geometry held
                case isFalse outside =>
                  rw [if_neg outside] at held
                  rw [List.getElem?_singleton] at held ⊢
                  split at held
                  case isTrue last =>
                    rw [if_pos last]
                    exact Option.some.inj held
                  · cases held)
            obtain ⟨laterNumbered, laterGeometry⟩ := later
            constructor
            · simp only [Numbered, operation]
              exact ⟨numbered, by simpa using laterNumbered⟩
            · intro other mem
              simp only [geometries, operation]
              rcases List.mem_cons.mp mem with rfl | mem
              · rw [numbered]
                simp
              · have found := laterGeometry other mem
                rwa [List.append_assoc] at found
      | free =>
          simp only [operation] at valid
          split at valid
          · cases valid
          split at valid
          case isTrue held =>
            have found := known _ _ held
            have later := @inductionHypothesis
              (allocations.set step.ordinal none) before valid
              (by simp [same_length])
              (by
                intro ordinal geometry held
                rw [List.getElem?_set] at held
                split at held
                · split at held
                  · cases held
                  · cases held
                · exact known ordinal geometry held)
            obtain ⟨laterNumbered, laterGeometry⟩ := later
            have inside : step.ordinal < before.length :=
              (List.getElem?_eq_some_iff.mp found).1
            constructor
            · simp only [Numbered, operation]
              exact ⟨inside, laterNumbered⟩
            · intro other mem
              simp only [geometries, operation]
              rcases List.mem_cons.mp mem with rfl | mem
              · rw [List.getElem?_append_left inside]
                exact found
              · exact laterGeometry other mem
          case isFalse => cases valid

theorem Numbered.tail {next : Nat} {step : ContractStep}
    (numbered : Numbered next (step :: rest)) :
    ∃ later, next ≤ later ∧ Numbered later rest ∧
      (step.operation = .allocate → step.ordinal = next ∧ later = next + 1) ∧
      (step.operation = .free → step.ordinal < next ∧ later = next) := by
  unfold Numbered at numbered
  cases operation : step.operation with
  | allocate =>
      simp only [operation] at numbered
      exact ⟨next + 1, Nat.le_succ next, numbered.2,
        fun _ => ⟨numbered.1, rfl⟩, fun impossible => by cases impossible⟩
  | free =>
      simp only [operation] at numbered
      exact ⟨next, Nat.le_refl next, numbered.2,
        fun impossible => (by cases impossible), fun _ => ⟨numbered.1, rfl⟩⟩

/-- An allocation ahead is not one of the allocations already met. -/
theorem Numbered.fresh {next : Nat} {step : ContractStep}
    (numbered : Numbered next ahead) (mem : step ∈ ahead)
    (allocates : step.operation = .allocate) : next ≤ step.ordinal := by
  induction ahead generalizing next with
  | nil => cases mem
  | cons head ahead inductionHypothesis =>
      obtain ⟨later, increases, numbered, ofAllocate, -⟩ := numbered.tail
      rcases List.mem_cons.mp mem with rfl | mem
      · exact (ofAllocate allocates).1.ge
      · exact increases.trans (inductionHypothesis numbered mem)

/-- The numbering after the steps left out. -/
theorem Numbered.after {next : Nat}
    (numbered : Numbered next (skipped ++ rest)) (bounded : ∀ ordinal ∈ omitted, ordinal < next)
    (leaves : leaveAllOut omitted skipped = some onward) :
    ∃ later, next ≤ later ∧ Numbered later rest ∧ ∀ ordinal ∈ onward, ordinal < later := by
  induction skipped generalizing next omitted with
  | nil =>
      cases leaves
      exact ⟨next, Nat.le_refl next, numbered, bounded⟩
  | cons step skipped inductionHypothesis =>
      obtain ⟨middle, left, others⟩ := leaveAllOut_cons_some_iff.mp leaves
      obtain ⟨later, increases, numbered, ofAllocate, -⟩ := Numbered.tail numbered
      have bounded : ∀ ordinal ∈ middle, ordinal < later := by
        intro ordinal mem
        rcases leaveOut_mem left mem with earlier | ⟨allocates, same⟩
        · exact (bounded ordinal earlier).trans_le increases
        · obtain ⟨first, next_later⟩ := ofAllocate allocates
          rw [← same, first, next_later]
          exact Nat.lt_succ_self next
      obtain ⟨last, later_last, numbered, bounded⟩ :=
        inductionHypothesis numbered bounded others
      exact ⟨last, increases.trans later_last, numbered, bounded⟩

/-! ## Frees of allocations left out -/

/-- The free of an allocation that was left out. -/
def omittedFree (omitted : List Nat) (step : ContractStep) : Bool :=
  step.operation = .free && decide (step.ordinal ∈ omitted)

/-- The steps ahead without the frees at their head that have nothing to free. -/
def dropFrees (omitted : List Nat) (ahead : List ContractStep) : List ContractStep :=
  ahead.dropWhile (omittedFree omitted)

theorem omittedFree_iff {step : ContractStep} :
    omittedFree omitted step = true ↔ step.operation = .free ∧ step.ordinal ∈ omitted := by
  simp [omittedFree]

/-- Leaving such a free out changes nothing. -/
theorem leaveOut_omittedFree {step : ContractStep}
    (isFree : omittedFree omitted step = true) : leaveOut omitted step = some omitted := by
  obtain ⟨frees, mem⟩ := omittedFree_iff.mp isFree
  simp [leaveOut, frees, mem]

theorem leaveAllOut_dropFrees (omitted : List Nat) (ahead : List ContractStep) :
    leaveAllOut omitted (dropFrees omitted ahead) = leaveAllOut omitted ahead := by
  unfold dropFrees
  induction ahead with
  | nil => rfl
  | cons step ahead inductionHypothesis =>
      rw [List.dropWhile_cons]
      split
      case isTrue isFree =>
        simp only [leaveAllOut, leaveOut_omittedFree isFree]
        exact inductionHypothesis
      · rfl

/-- The frees that have nothing to free are left out at no cost. -/
theorem leaveAllOut_takeFrees (omitted : List Nat) (ahead : List ContractStep) :
    leaveAllOut omitted (ahead.takeWhile (omittedFree omitted)) = some omitted := by
  induction ahead with
  | nil => rfl
  | cons step ahead inductionHypothesis =>
      rw [List.takeWhile_cons]
      split
      case isTrue isFree =>
        simp only [leaveAllOut, leaveOut_omittedFree isFree]
        exact inductionHypothesis
      · rfl

/-- Where only frees are left out, all of them have nothing to free. -/
theorem leaveAllOut_frees
    (leaves : leaveAllOut omitted skipped = some onward)
    (frees : ∀ passed ∈ skipped, passed.operation = .free) :
    onward = omitted ∧ dropFrees omitted skipped = [] := by
  unfold dropFrees
  induction skipped with
  | nil =>
      cases leaves
      exact ⟨rfl, rfl⟩
  | cons step skipped inductionHypothesis =>
      obtain ⟨middle, left, leaves⟩ := leaveAllOut_cons_some_iff.mp leaves
      have isFree := frees step List.mem_cons_self
      unfold leaveOut at left
      rw [isFree] at left
      dsimp only at left
      split at left
      case isTrue mem =>
        cases left
        rw [List.dropWhile_cons_of_pos (omittedFree_iff.mpr ⟨isFree, mem⟩)]
        exact inductionHypothesis leaves
          (fun passed mem => frees passed (List.mem_cons_of_mem step mem))
      case isFalse => cases left

/-- A step that is no such free stays ahead, with what can be left out before it. -/
theorem dropFrees_split {step : ContractStep}
    (stays : omittedFree omitted step = false) :
    dropFrees omitted (skipped ++ step :: rest) =
      dropFrees omitted skipped ++ step :: rest := by
  unfold dropFrees
  induction skipped with
  | nil => simp [stays]
  | cons head skipped inductionHypothesis =>
      simp only [List.cons_append, List.dropWhile_cons]
      split
      · exact inductionHypothesis
      · rfl

theorem dropFrees_subset (omitted : List Nat) (ahead : List ContractStep) :
    dropFrees omitted ahead ⊆ ahead :=
  (List.dropWhile_sublist _).subset

theorem dropFrees_idem (omitted : List Nat) (ahead : List ContractStep) :
    dropFrees omitted (dropFrees omitted ahead) = dropFrees omitted ahead :=
  List.dropWhile_idempotent _ _

theorem Numbered.dropFrees {next : Nat} (numbered : Numbered next ahead) :
    Numbered next (dropFrees omitted ahead) := by
  unfold ContractMatching.dropFrees
  induction ahead with
  | nil => exact numbered
  | cons step ahead inductionHypothesis =>
      rw [List.dropWhile_cons]
      split
      case isTrue isFree =>
        obtain ⟨later, -, numbered, -, ofFree⟩ := numbered.tail
        rw [(ofFree (omittedFree_iff.mp isFree).1).2] at numbered
        exact inductionHypothesis numbered
      · exact numbered

theorem reachable_dropFrees_of
    (reachable : Reachable omitted ahead geometry) :
    Reachable omitted (dropFrees omitted ahead) geometry := by
  obtain ⟨skipped, step, rest, split, allocates, fits, leaves⟩ := reachable
  have stays : omittedFree omitted step = false := by
    simp [omittedFree, allocates]
  refine ⟨dropFrees omitted skipped, step, rest, ?_, allocates, fits, ?_⟩
  · rw [split, dropFrees_split stays]
  · rw [leaveAllOut_dropFrees]
    exact leaves

theorem reachable_of_firstFit {step : ContractStep}
    (fit : FirstFit omitted ahead geometry skipped step rest onward) :
    Reachable omitted ahead geometry :=
  ⟨skipped, step, rest, fit.split, fit.allocates, fit.fits, by rw [fit.leaves]; rfl⟩

/-- The first fit is the only one. -/
theorem firstFit_unique {step otherStep : ContractStep}
    {otherSkipped otherRest : List ContractStep} {otherOnward : List Nat}
    (fit : FirstFit omitted ahead geometry skipped step rest onward)
    (other : FirstFit omitted ahead geometry otherSkipped otherStep otherRest otherOnward) :
    step = otherStep ∧ rest = otherRest ∧ onward = otherOnward := by
  obtain ⟨split, allocates, fits, first, leaves⟩ := fit
  obtain ⟨otherSplit, otherAllocates, otherFits, otherFirst, otherLeaves⟩ := other
  subst split
  induction skipped generalizing omitted otherSkipped with
  | nil =>
      cases otherSkipped with
      | nil =>
          cases leaves
          cases otherLeaves
          cases otherSplit
          exact ⟨rfl, rfl, rfl⟩
      | cons head otherSkipped =>
          obtain ⟨rfl, -⟩ := List.cons.inj otherSplit
          exact absurd fits (otherFirst step List.mem_cons_self allocates)
  | cons head skipped inductionHypothesis =>
      cases otherSkipped with
      | nil =>
          obtain ⟨rfl, -⟩ := List.cons.inj otherSplit
          exact absurd otherFits (first head List.mem_cons_self otherAllocates)
      | cons otherHead otherSkipped =>
          obtain ⟨rfl, otherRemains⟩ := List.cons.inj otherSplit
          obtain ⟨middle, left, leaves⟩ := leaveAllOut_cons_some_iff.mp leaves
          obtain ⟨otherMiddle, otherLeft, otherLeaves⟩ :=
            leaveAllOut_cons_some_iff.mp otherLeaves
          rw [left] at otherLeft
          cases otherLeft
          apply inductionHypothesis
          · exact fun passed mem => first passed (List.mem_cons_of_mem head mem)
          · exact leaves
          · exact fun passed mem => otherFirst passed (List.mem_cons_of_mem head mem)
          · exact otherLeaves
          · exact otherRemains

end ShadowSpill.Runtime.ContractMatching
