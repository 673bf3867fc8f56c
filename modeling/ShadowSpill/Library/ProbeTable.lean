import Mathlib

/-!
# Open addressing

A table of slots in which an entry takes the first free slot from its home on, and a
search walks from the home to the first free slot.  While a slot is free every walk ends,
and what it finds is in the table.
-/

namespace ShadowSpill.Library.ProbeTable

variable {entry : Type*}

/-- The entries of a table, slot by slot. -/
def occupied (slots : List (Option entry)) : List entry :=
  slots.filterMap id

/-- What a walk comes to: an entry that passes the test, the free slot where it stops, or
neither within its steps. -/
inductive Walk (entry : Type*) where
  | found (held : entry)
  | vacant (slot : Nat)
  | endless

/-- A walk of so many steps from a slot on. -/
def walk (slots : List (Option entry)) (test : entry → Bool) : Nat → Nat → Walk entry
  | 0, _ => .endless
  | steps + 1, slot =>
    match slots[slot]? with
    | some (some held) =>
      if test held then .found held else walk slots test steps ((slot + 1) % slots.length)
    | _ => .vacant slot

/-- An entry takes the slot where the walk from its home stops. -/
def place (slots : List (Option entry)) (home : Nat) (held : entry) : List (Option entry) :=
  match walk slots (fun _ => false) slots.length home with
  | .vacant slot => slots.set slot (some held)
  | _ => slots

/-- The entries take their places in a table of another size. -/
def rehash (home : Nat → entry → Nat) (capacity : Nat) (entries : List entry) :
    List (Option entry) :=
  entries.foldl (fun slots held => place slots (home capacity held) held)
    (List.replicate capacity none)

section Walks

variable {slots : List (Option entry)} {test : entry → Bool} {steps slot : Nat}
  {held : entry}

theorem mem_occupied : held ∈ occupied slots ↔ some held ∈ slots := by
  simp [occupied]

/-- What a walk finds is in the table and passes the test. -/
theorem walk_found (found : walk slots test steps slot = .found held) :
    held ∈ occupied slots ∧ test held = true := by
  induction steps generalizing slot with
  | zero => cases found
  | succ steps inductionHypothesis =>
      unfold walk at found
      split at found
      case h_1 other here =>
        split_ifs at found with passes
        · cases found
          exact ⟨mem_occupied.2 (List.mem_of_getElem? here), passes⟩
        · exact inductionHypothesis found
      case h_2 => cases found

/-- A walk within the table stops at a free slot of it. -/
theorem walk_vacant {last : Nat} (bound : slot < slots.length)
    (vacant : walk slots test steps slot = .vacant last) : slots[last]? = some none := by
  induction steps generalizing slot with
  | zero => cases vacant
  | succ steps inductionHypothesis =>
      unfold walk at vacant
      split at vacant
      case h_1 other here =>
        split_ifs at vacant
        exact inductionHypothesis (Nat.mod_lt _ (by omega)) vacant
      case h_2 free =>
        cases vacant
        rw [List.getElem?_eq_getElem bound] at free ⊢
        cases taken : slots[last] with
        | none => rfl
        | some other => exact absurd (by rw [taken]) (free other)

/-- A walk that does not end passes taken slots only. -/
theorem walk_endless (bound : slot < slots.length)
    (endless : walk slots test steps slot = .endless) {passed : Nat} (before : passed < steps) :
    slots[(slot + passed) % slots.length]? ≠ some none := by
  induction steps generalizing slot passed with
  | zero => exact absurd before (Nat.not_lt_zero _)
  | succ steps inductionHypothesis =>
      unfold walk at endless
      split at endless
      case h_1 other here =>
        split_ifs at endless
        cases passed with
        | zero =>
            rw [Nat.add_zero, Nat.mod_eq_of_lt bound, here]
            exact nofun
        | succ passed =>
            have later := inductionHypothesis (Nat.mod_lt _ (by omega)) endless
              (Nat.lt_of_succ_lt_succ before)
            rwa [Nat.mod_add_mod, show slot + 1 + passed = slot + (passed + 1) by omega] at later
      case h_2 => cases endless

/-- A walk round the whole table ends while a slot is free. -/
theorem walk_ends (bound : slot < slots.length)
    (room : (occupied slots).length < slots.length) :
    walk slots test slots.length slot ≠ .endless := by
  intro endless
  have free : none ∈ slots := by
    by_contra full
    have every : ∀ held ∈ slots, (id held : Option entry).isSome = true := by
      intro held mem
      cases held with
      | none => exact absurd mem full
      | some held => rfl
    have length : (occupied slots).length = slots.countP fun held => (id held).isSome :=
      List.length_filterMap_eq_countP
    rw [List.countP_eq_length.2 every] at length
    omega
  obtain ⟨last, here⟩ := List.getElem?_of_mem free
  have inside : last < slots.length := by
    by_contra outside
    rw [List.getElem?_eq_none (Nat.not_lt.1 outside)] at here
    cases here
  have passed := walk_endless bound endless
    (Nat.mod_lt (last + slots.length - slot) (by omega : slots.length > 0))
  rw [Nat.add_mod_mod, show slot + (last + slots.length - slot) = last + slots.length by omega,
    Nat.add_mod_right, Nat.mod_eq_of_lt inside] at passed
  exact passed here

end Walks

section Places

variable {slots : List (Option entry)} {home slot : Nat} {held : entry}

/-- A free slot that is taken adds its entry. -/
theorem occupied_set (free : slots[slot]? = some none) :
    (occupied (slots.set slot (some held))).Perm (held :: occupied slots) := by
  induction slots generalizing slot with
  | nil => cases free
  | cons first rest inductionHypothesis =>
      cases slot with
      | zero =>
          rw [List.getElem?_cons_zero, Option.some.injEq] at free
          subst free
          exact List.Perm.refl _
      | succ slot =>
          have later := inductionHypothesis (by simpa using free)
          cases first with
          | none => exact later
          | some other => exact (later.cons other).trans (List.Perm.swap _ _ _)

/-- An entry finds its place while a slot is free. -/
theorem place_spec (bound : home < slots.length)
    (room : (occupied slots).length < slots.length) :
    (place slots home held).length = slots.length ∧
      (occupied (place slots home held)).Perm (held :: occupied slots) := by
  have ends := @walk_ends _ slots (fun _ => false) home bound room
  unfold place
  cases result : walk slots (fun _ => false) slots.length home with
  | found other => exact absurd (walk_found result).2 Bool.false_ne_true
  | vacant slot =>
      exact ⟨List.length_set, occupied_set (walk_vacant bound result)⟩
  | endless => exact absurd result ends

theorem rehash_spec {homes : Nat → entry → Nat} {capacity : Nat} {entries : List entry}
    (within : ∀ held, homes capacity held < capacity) (room : entries.length ≤ capacity) :
    (rehash homes capacity entries).length = capacity ∧
      (occupied (rehash homes capacity entries)).Perm entries := by
  have placed : ∀ (rest : List entry) (slots : List (Option entry)), slots.length = capacity →
      (occupied slots).length + rest.length ≤ capacity →
        (rest.foldl (fun slots held => place slots (homes capacity held) held) slots).length =
            capacity ∧
          (occupied (rest.foldl (fun slots held => place slots (homes capacity held) held)
            slots)).Perm (rest ++ occupied slots) := by
    intro rest
    induction rest with
    | nil => exact fun slots length _ => ⟨length, List.Perm.refl _⟩
    | cons held rest inductionHypothesis =>
        intro slots length fits
        rw [List.length_cons] at fits
        obtain ⟨same, added⟩ := @place_spec _ slots (homes capacity held) held
          (by rw [length]; exact within held) (by omega)
        obtain ⟨kept, all⟩ := inductionHypothesis (place slots (homes capacity held) held)
          (same.trans length) (by rw [added.length_eq, List.length_cons]; omega)
        refine ⟨kept, all.trans ?_⟩
        exact (added.append_left rest).trans List.perm_middle
  have empty : occupied (List.replicate capacity (none : Option entry)) = [] := by
    simp [occupied]
  obtain ⟨length, all⟩ := placed entries (List.replicate capacity none) List.length_replicate
    (by rw [empty]; simpa using room)
  rw [empty, List.append_nil] at all
  exact ⟨length, all⟩

end Places

end ShadowSpill.Library.ProbeTable
