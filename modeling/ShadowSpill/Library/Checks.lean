import Mathlib.Data.List.Basic

/-!
# Checks that stop at the first failure

A computation in `Except` that must succeed succeeds in every step.  A check of a list
is a check of each element, or a walk that carries what it has seen; either way success
is a statement about every element.
-/

namespace ShadowSpill.Library.Checks

variable {ε α β σ : Type}

/-- A sequence succeeds through a first value. -/
theorem bind_ok {first : Except ε α} {next : α → Except ε β} {value : β} :
    first >>= next = .ok value ↔ ∃ middle, first = .ok middle ∧ next middle = .ok value := by
  cases first with
  | error failure =>
      constructor
      · intro impossible
        cases impossible
      · rintro ⟨middle, impossible, _⟩
        cases impossible
  | ok middle =>
      constructor
      · intro success
        exact ⟨middle, rfl, success⟩
      · rintro ⟨other, same, success⟩
        cases same
        exact success

/-- A check and what comes after it. -/
theorem check_bind_ok {check : Except ε Unit} {next : Unit → Except ε β} {value : β} :
    check >>= next = .ok value ↔ check = .ok () ∧ next () = .ok value := by
  rw [bind_ok]
  constructor
  · rintro ⟨⟨⟩, success, rest⟩
    exact ⟨success, rest⟩
  · rintro ⟨success, rest⟩
    exact ⟨(), success, rest⟩

theorem pure_ok {value other : α} :
    (pure value : Except ε α) = .ok other ↔ value = other :=
  Except.ok.injEq value other ▸ Iff.rfl

/-- A sequence fails in one of its two parts. -/
theorem bind_error {first : Except ε α} {next : α → Except ε β} {failure : ε} :
    first >>= next = .error failure ↔
      first = .error failure ∨ ∃ middle, first = .ok middle ∧ next middle = .error failure := by
  cases first with
  | error other =>
      constructor
      · intro failed
        cases failed
        exact Or.inl rfl
      · rintro (failed | ⟨middle, impossible, _⟩)
        · cases failed
          rfl
        · cases impossible
  | ok middle =>
      constructor
      · intro failed
        exact Or.inr ⟨middle, rfl, failed⟩
      · rintro (impossible | ⟨other, same, failed⟩)
        · cases impossible
        · cases same
          exact failed

/-- Check every element, with its index. -/
def each (check : Nat → α → Except ε Unit) : Nat → List α → Except ε Unit
  | _, [] => .ok ()
  | index, value :: rest => check index value >>= fun _ => each check (index + 1) rest

theorem each_ok {check : Nat → α → Except ε Unit} {index : Nat} {values : List α} :
    each check index values = .ok () ↔
      ∀ position value, values[position]? = some value →
        check (index + position) value = .ok () := by
  induction values generalizing index with
  | nil => simp [each]
  | cons head rest inductionHypothesis =>
      unfold each
      rw [check_bind_ok, inductionHypothesis]
      constructor
      · rintro ⟨here, later⟩ position value found
        cases position with
        | zero =>
            cases found
            exact here
        | succ position =>
            have there := later position value found
            rwa [Nat.add_assoc, Nat.add_comm 1] at there
      · intro all
        refine ⟨all 0 head rfl, ?_⟩
        intro position value found
        have there := all (position + 1) value found
        rwa [Nat.add_comm position, ← Nat.add_assoc] at there

/-- Where the index is only for the report, every element passes. -/
theorem each_ok_mem {check : Nat → α → Except ε Unit} {index : Nat} {values : List α}
    (success : each check index values = .ok ()) {value : α} (mem : value ∈ values) :
    ∃ position, check position value = .ok () := by
  obtain ⟨position, found⟩ := List.getElem?_of_mem mem
  exact ⟨index + position, each_ok.mp success position value found⟩

/-- A check of a list fails at an element. -/
theorem each_error {check : Nat → α → Except ε Unit} {index : Nat} {values : List α}
    {failure : ε} (failed : each check index values = .error failure) :
    ∃ position, ∃ value ∈ values, check position value = .error failure := by
  induction values generalizing index with
  | nil => cases failed
  | cons head rest inductionHypothesis =>
      unfold each at failed
      rcases bind_error.mp failed with here | ⟨_, _, later⟩
      · exact ⟨index, head, List.mem_cons_self, here⟩
      · obtain ⟨position, value, mem, found⟩ := inductionHypothesis later
        exact ⟨position, value, List.mem_cons_of_mem head mem, found⟩

/-- Walk a list, carrying what the elements before have left. -/
def walk (visit : Nat → σ → α → Except ε σ) : Nat → σ → List α → Except ε σ
  | _, state, [] => .ok state
  | index, state, value :: rest =>
    visit index state value >>= fun after => walk visit (index + 1) after rest

/-- A walk fails at an element. -/
theorem walk_error {visit : Nat → σ → α → Except ε σ} {index : Nat} {state : σ}
    {values : List α} {failure : ε}
    (failed : walk visit index state values = .error failure) :
    ∃ position before, ∃ value ∈ values, visit position before value = .error failure := by
  induction values generalizing index state with
  | nil => cases failed
  | cons head rest inductionHypothesis =>
      unfold walk at failed
      rcases bind_error.mp failed with here | ⟨middle, _, later⟩
      · exact ⟨index, state, head, List.mem_cons_self, here⟩
      · obtain ⟨position, before, value, mem, found⟩ := inductionHypothesis later
        exact ⟨position, before, value, List.mem_cons_of_mem head mem, found⟩

theorem walk_append {visit : Nat → σ → α → Except ε σ} {index : Nat} {state : σ}
    {first second : List α} :
    walk visit index state (first ++ second) =
      walk visit index state first >>= fun after =>
        walk visit (index + first.length) after second := by
  induction first generalizing index state with
  | nil => rfl
  | cons value rest inductionHypothesis =>
      show (visit index state value >>= fun after => walk visit (index + 1) after _) =
        (visit index state value >>= fun after => walk visit (index + 1) after rest) >>= _
      cases visit index state value with
      | error failure => rfl
      | ok after =>
          have later := @inductionHypothesis (index + 1) after
          rw [Nat.add_assoc, Nat.add_comm 1] at later
          exact later

/-- A successful walk visits each element, in the state that the elements before it
left. -/
theorem walk_split {visit : Nat → σ → α → Except ε σ} {index : Nat} {state after : σ}
    {earlier later : List α} {value : α}
    (success : walk visit index state (earlier ++ value :: later) = .ok after) :
    ∃ before middle, walk visit index state earlier = .ok before ∧
      visit (index + earlier.length) before value = .ok middle := by
  rw [walk_append] at success
  obtain ⟨before, reached, rest⟩ := bind_ok.mp success
  obtain ⟨middle, visited, _⟩ := bind_ok.mp rest
  exact ⟨before, middle, reached, visited⟩

/-- What every visit keeps, a successful walk keeps. -/
theorem walk_keeps {visit : Nat → σ → α → Except ε σ} {keeps : List α → σ → Prop}
    (visited : ∀ index before state after value, keeps before state →
      visit index state value = .ok after → keeps (before ++ [value]) after)
    {index : Nat} {before : List α} {state after : σ} {values : List α}
    (start : keeps before state) (success : walk visit index state values = .ok after) :
    keeps (before ++ values) after := by
  induction values generalizing index before state with
  | nil =>
      cases success
      rw [List.append_nil]
      exact start
  | cons value rest inductionHypothesis =>
      unfold walk at success
      obtain ⟨middle, here, later⟩ := bind_ok.mp success
      have step := visited index before state middle value start here
      have all := inductionHypothesis step later
      rwa [List.append_assoc] at all

end ShadowSpill.Library.Checks
