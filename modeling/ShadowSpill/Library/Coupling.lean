import Mathlib.Init

/-!
# Programs side by side

Two programs with a state each, run from related states: they return the same value and
end in related states, as long as the first one ends safely.  What is unsafe once stays
so, as a collision does, hence a run that ends safely was safe all along.
-/

namespace ShadowSpill.Library.Coupling

variable {α β σ τ : Type}

/-- From states that are related `before`, both programs return the same value and end in
states that are related `after`, if the first one ends safely. -/
structure Coupled (safe : σ → Prop) (before : σ → τ → Prop) (left : StateM σ α)
    (right : StateM τ α) (after : α → σ → τ → Prop) : Prop where
  earlier : ∀ state, safe (left state).2 → safe state
  alike : ∀ state other, before state other → safe (left state).2 →
    (left state).1 = (right other).1 ∧ after (left state).1 (left state).2 (right other).2

variable {safe : σ → Prop} {before : σ → τ → Prop}

namespace Coupled

/-- Less is known before, or more is asked after. -/
theorem weaken {stronger : σ → τ → Prop} {after weaker : α → σ → τ → Prop}
    {left : StateM σ α} {right : StateM τ α} (coupled : Coupled safe before left right after)
    (pre : ∀ state other, stronger state other → before state other)
    (post : ∀ value state other, after value state other → weaker value state other) :
    Coupled safe stronger left right weaker := by
  refine ⟨coupled.earlier, ?_⟩
  intro state other related ends
  obtain ⟨same, follows⟩ := coupled.alike state other (pre _ _ related) ends
  exact ⟨same, post _ _ _ follows⟩

theorem pure (value : α) :
    Coupled safe before (Pure.pure value) (Pure.pure value)
      (fun result state other => result = value ∧ before state other) :=
  ⟨fun _ ends => ends, fun _ _ related _ => ⟨rfl, rfl, related⟩⟩

/-- One program after another. -/
theorem bind {between : α → σ → τ → Prop} {after : β → σ → τ → Prop} {left : StateM σ α}
    {right : StateM τ α} {next : α → StateM σ β} {follow : α → StateM τ β}
    (first : Coupled safe before left right between)
    (later : ∀ value, Coupled safe (between value) (next value) (follow value) after) :
    Coupled safe before (left >>= next) (right >>= follow) after := by
  constructor
  · intro state ends
    exact first.earlier state ((later (left state).1).earlier (left state).2 ends)
  · intro state other related ends
    obtain ⟨same, follows⟩ := first.alike state other related
      ((later (left state).1).earlier (left state).2 ends)
    have continued := (later (left state).1).alike _ _ follows ends
    show (next (left state).1 (left state).2).1 = (follow (right other).1 (right other).2).1 ∧
      after (next (left state).1 (left state).2).1 (next (left state).1 (left state).2).2
        (follow (right other).1 (right other).2).2
    rw [← same]
    exact continued

/-- One of two programs, by a test that both make alike. -/
theorem ite {after : α → σ → τ → Prop} {condition : Prop} [Decidable condition]
    {left otherLeft : StateM σ α} {right otherRight : StateM τ α}
    (whenTrue : condition → Coupled safe before left right after)
    (whenFalse : ¬ condition → Coupled safe before otherLeft otherRight after) :
    Coupled safe before (if condition then left else otherLeft)
      (if condition then right else otherRight) after := by
  by_cases holds : condition
  · rw [if_pos holds, if_pos holds]
    exact whenTrue holds
  · rw [if_neg holds, if_neg holds]
    exact whenFalse holds

end Coupled

end ShadowSpill.Library.Coupling
