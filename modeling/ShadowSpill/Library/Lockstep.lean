import Mathlib.Data.List.Forall2
import ShadowSpill.Library.Checks

/-!
# Computations in lockstep

Two computations that may fail, side by side: both succeed with related values, or both
fail with related failures.  Sequences, checks of a list and walks over a list keep in
step when their parts do, so that two programs which test the same things in the same
order fail first in the same place.

The first occurrences of a list are what an insertion-ordered dictionary keeps of its
keys.  A check of each element needs only those.
-/

namespace ShadowSpill.Library.Lockstep

open Checks

variable {ε δ α β γ σ τ : Type}

/-- Both succeed with related values, or both fail with related failures. -/
inductive InStep (values : α → β → Prop) (failures : ε → δ → Prop) :
    Except ε α → Except δ β → Prop where
  | ok {left : α} {right : β} (related : values left right) :
      InStep values failures (.ok left) (.ok right)
  | error {left : ε} {right : δ} (related : failures left right) :
      InStep values failures (.error left) (.error right)

variable {failures : ε → δ → Prop}

theorem InStep.mono {values wider : α → β → Prop} {left : Except ε α}
    {right : Except δ β} (inStep : InStep values failures left right)
    (weaken : ∀ one other, values one other → wider one other) :
    InStep wider failures left right := by
  cases inStep with
  | ok related => exact InStep.ok (weaken _ _ related)
  | error related => exact InStep.error related

/-- Sequences keep in step. -/
theorem InStep.bind {values : α → β → Prop} {results : σ → τ → Prop}
    {left : Except ε α} {right : Except δ β} {next : α → Except ε σ}
    {follow : β → Except δ τ} (inStep : InStep values failures left right)
    (later : ∀ one other, values one other →
      InStep results failures (next one) (follow other)) :
    InStep results failures (left >>= next) (right >>= follow) := by
  cases inStep with
  | ok related => exact later _ _ related
  | error related => exact InStep.error related

/-- One test, made on both sides. -/
theorem InStep.guard {condition test : Bool} {left : ε} {right : δ}
    (same : condition = test) (related : failures left right) :
    InStep (fun (_ _ : Unit) => True) failures
      (if condition then .ok () else .error left)
      (if test then .ok () else .error right) := by
  subst same
  cases condition with
  | false => exact InStep.error related
  | true => exact InStep.ok trivial

/-- Walks over two lists, one the image of the other, by what holds at each index. -/
theorem InStep.walk (states : Nat → σ → τ → Prop) {visit : Nat → σ → α → Except ε σ}
    {call : Nat → τ → β → Except δ τ} {image : α → β} {values : List α} {index : Nat}
    {state : σ} {mirror : τ} (start : states index state mirror)
    (steps : ∀ position value, values[position]? = some value → ∀ before other,
      states (index + position) before other →
      InStep (states (index + position + 1)) failures
        (visit (index + position) before value)
        (call (index + position) other (image value))) :
    InStep (states (index + values.length)) failures (walk visit index state values)
      (walk call index mirror (values.map image)) := by
  induction values generalizing index state mirror with
  | nil => exact InStep.ok start
  | cons value rest inductionHypothesis =>
      apply InStep.bind (steps 0 value rfl state mirror start)
      intro after next related
      have later := @inductionHypothesis (index + 1) after next related
        (fun position other found before another entered => by
          have shifted := steps (position + 1) other found before another
          rw [← Nat.add_assoc, Nat.add_right_comm index position 1] at shifted
          exact shifted entered)
      rw [List.length_cons, ← Nat.add_assoc, Nat.add_right_comm]
      exact later

/-- Walks over one list. -/
theorem InStep.walk_same (states : Nat → σ → τ → Prop) {visit : Nat → σ → α → Except ε σ}
    {call : Nat → τ → α → Except δ τ} {values : List α} {index : Nat} {state : σ} {mirror : τ}
    (start : states index state mirror)
    (steps : ∀ position value, values[position]? = some value → ∀ before other,
      states (index + position) before other →
      InStep (states (index + position + 1)) failures
        (visit (index + position) before value) (call (index + position) other value)) :
    InStep (states (index + values.length)) failures (Checks.walk visit index state values)
      (Checks.walk call index mirror values) := by
  have walks := InStep.walk states start steps
  rwa [List.map_id'] at walks

/-- A check of a list is a walk that carries nothing. -/
theorem each_eq_walk (check : Nat → α → Except ε Unit) (index : Nat) (values : List α) :
    each check index values = walk (fun position _ => check position) index () values := by
  induction values generalizing index with
  | nil => rfl
  | cons value rest inductionHypothesis => simp only [each, walk, inductionHypothesis]

/-- Checks of two lists, one the image of the other. -/
theorem InStep.each {check : Nat → α → Except ε Unit} {test : Nat → β → Except δ Unit}
    {image : α → β} {values : List α} {index : Nat}
    (steps : ∀ position value, values[position]? = some value →
      InStep (fun _ _ => True) failures (check (index + position) value)
        (test (index + position) (image value))) :
    InStep (fun _ _ => True) failures (each check index values)
      (each test index (values.map image)) := by
  rw [each_eq_walk, each_eq_walk]
  exact InStep.walk (fun _ _ _ => True) trivial fun position value found _ _ _ =>
    steps position value found

/-- A walk is a fold over the list with its indices. -/
theorem walk_eq_foldlM (visit : Nat → σ → α → Except ε σ) (index : Nat) (state : σ)
    (values : List α) :
    walk visit index state values =
      (values.zipIdx index).foldlM (fun state entry => visit entry.2 state entry.1) state := by
  induction values generalizing index state with
  | nil => rfl
  | cons value rest inductionHypothesis =>
      rw [List.zipIdx_cons, List.foldlM_cons]
      simp only [walk, inductionHypothesis]

/-- Two checks in step are one check, up to how they report. -/
theorem InStep.mapError_eq {translate : ε → γ} {decode : δ → γ} {left : Except ε Unit}
    {right : Except δ Unit} (inStep : InStep (fun _ _ => True) failures left right)
    (same : ∀ one other, failures one other → translate one = decode other) :
    left.mapError translate = right.mapError decode := by
  cases inStep with
  | ok _ => rfl
  | error related => exact congrArg Except.error (same _ _ related)

/-! ## Related lists -/

/-- Related lists have their related elements at the same places. -/
theorem forall₂_get {relation : α → β → Prop} {values : List α} {others : List β}
    (related : List.Forall₂ relation values others) {index : Nat} {value : α}
    (found : values[index]? = some value) :
    ∃ other, others[index]? = some other ∧ relation value other := by
  induction related generalizing index with
  | nil => simp at found
  | @cons head other rest others first _ inductionHypothesis =>
      cases index with
      | zero =>
          rw [List.getElem?_cons_zero, Option.some.injEq] at found
          exact ⟨other, List.getElem?_cons_zero, found ▸ first⟩
      | succ index =>
          rw [List.getElem?_cons_succ] at found
          rw [List.getElem?_cons_succ]
          exact inductionHypothesis found

theorem forall₂_mem {relation : α → β → Prop} {values : List α} {others : List β}
    (related : List.Forall₂ relation values others) {value : α} (mem : value ∈ values) :
    ∃ other ∈ others, relation value other := by
  rcases List.mem_iff_getElem?.mp mem with ⟨index, found⟩
  rcases forall₂_get related found with ⟨other, atPlace, linked⟩
  exact ⟨other, List.mem_of_getElem? atPlace, linked⟩

/-! ## First occurrences -/

/-- The first of each, in order: the keys of `dict.fromkeys`. -/
def fromKeys [DecidableEq α] : List α → List α
  | [] => []
  | value :: rest => value :: (fromKeys rest).filter (· ≠ value)

@[simp] theorem mem_fromKeys [DecidableEq α] {value : α} {values : List α} :
    value ∈ fromKeys values ↔ value ∈ values := by
  induction values with
  | nil => rfl
  | cons head rest inductionHypothesis =>
      unfold fromKeys
      rw [List.mem_cons, List.mem_cons, List.mem_filter, inductionHypothesis,
        decide_eq_true_iff]
      by_cases same : value = head
      · exact iff_of_true (Or.inl same) (Or.inl same)
      · simp [same]

theorem nodup_fromKeys [DecidableEq α] (values : List α) : (fromKeys values).Nodup := by
  induction values with
  | nil => exact List.nodup_nil
  | cons head rest inductionHypothesis =>
      unfold fromKeys
      rw [List.nodup_cons]
      exact ⟨by simp, inductionHypothesis.filter _⟩

/-- A check that needs no index passes over what it has passed before. -/
theorem each_filter_ne [DecidableEq α] {check : α → Except ε Unit} {value : α}
    (passed : check value = .ok ()) (index other : Nat) (values : List α) :
    each (fun _ => check) index (values.filter (· ≠ value)) =
      each (fun _ => check) other values := by
  induction values generalizing index other with
  | nil => rfl
  | cons head rest inductionHypothesis =>
      by_cases same : head = value
      · subst same
        rw [List.filter_cons_of_neg (by simp), inductionHypothesis index (other + 1)]
        show _ = (check head >>= fun _ => each (fun _ => check) (other + 1) rest)
        rw [passed]
        rfl
      · rw [List.filter_cons_of_pos (by simpa using same)]
        unfold each
        rw [inductionHypothesis (index + 1) (other + 1)]

/-- A check of each element is a check of the first occurrences. -/
theorem each_fromKeys [DecidableEq α] {check : α → Except ε Unit} (index : Nat)
    (values : List α) :
    each (fun _ => check) index (fromKeys values) =
      each (fun _ => check) index values := by
  induction values generalizing index with
  | nil => rfl
  | cons value rest inductionHypothesis =>
      unfold fromKeys each
      cases passed : check value with
      | error failure => rfl
      | ok result =>
          show each (fun _ => check) (index + 1) _ = each (fun _ => check) (index + 1) rest
          rw [each_filter_ne passed (index + 1) (index + 1), inductionHypothesis]

end ShadowSpill.Library.Lockstep
