import Mathlib

/-!
# Loops that can stop early

A loop over a list whose body may fail is a monadic fold in `Option`.  What a
whole run keeps follows from what one turn keeps: the turn is told which
items came before it and which are still to come.
-/

namespace ShadowSpill.Library.Runs

variable {State Item : Type*}

/-- A loop finishes, and keeps its invariant, if every turn does. -/
theorem exists_foldlM_eq_some
    (turn : State → Item → Option State)
    (items : List Item) {initial : State}
    (Invariant : List Item → State → Prop)
    (start : Invariant [] initial)
    (advance :
      ∀ passed item rest, items = passed ++ item :: rest →
        ∀ state, Invariant passed state →
          ∃ next, turn state item = some next ∧
            Invariant (passed ++ [item]) next) :
    ∃ final, items.foldlM turn initial = some final ∧ Invariant items final := by
  have suffix : ∀ rest passed state, items = passed ++ rest →
      Invariant passed state →
        ∃ final, rest.foldlM turn state = some final ∧ Invariant items final := by
    intro rest
    induction rest with
    | nil =>
        intro passed state split held
        rw [List.append_nil] at split
        exact ⟨state, rfl, split ▸ held⟩
    | cons item rest ih =>
        intro passed state split held
        obtain ⟨next, turned, kept⟩ := advance passed item rest split state held
        obtain ⟨final, finished, done⟩ :=
          ih (passed ++ [item]) next (by simpa using split) kept
        exact ⟨final, by rw [List.foldlM_cons, turned]; exact finished, done⟩
  exact suffix items [] initial rfl start

end ShadowSpill.Library.Runs
