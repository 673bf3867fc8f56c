import Mathlib

/-!
# Binary heaps with a moving hole

A heap kept in one list, the children of `index` at `2 * index + 1` and
`2 * index + 2`.  An entry is pushed and popped through a hole that moves along
one branch; the order has to be a strict weak one only.
-/

namespace ShadowSpill.Library.BinaryHeap

variable {α : Type*}

/-- What a heap asks of its order. -/
structure StrictOrder (before : α → α → Bool) : Prop where
  asymm : ∀ first second, before first second = true → before second first = false
  trans : ∀ first second third, before first second = true →
    before second third = true → before first third = true
  negTrans : ∀ first second third, before first second = false →
    before second third = false → before first third = false

/-- Move the hole at `child` towards the root until the entry fits there. -/
def siftUp (before : α → α → Bool) (entry : α) : Nat → List α → Nat → List α
  | 0, entries, child => entries.set child entry
  | fuel + 1, entries, child =>
      if child = 0 then entries.set child entry
      else
        match entries[(child - 1) / 2]? with
        | none => entries.set child entry
        | some upper =>
            if before entry upper then
              siftUp before entry fuel (entries.set child upper) ((child - 1) / 2)
            else entries.set child entry

/-- Add an entry. -/
def push (before : α → α → Bool) (entries : List α) (entry : α) : List α :=
  siftUp before entry entries.length (entries ++ [entry]) entries.length

/-- The child of `parent` that goes first, of one or two. -/
def bestChild (before : α → α → Bool) (entries : List α) (parent : Nat) :
    Option (Nat × α) :=
  (entries[2 * parent + 1]?).map fun left =>
    match entries[2 * parent + 2]? with
    | none => (2 * parent + 1, left)
    | some right =>
        if before right left then (2 * parent + 2, right) else (2 * parent + 1, left)

theorem bestChild_spec {before : α → α → Bool} {entries : List α} {parent index : Nat}
    {entry : α} (found : bestChild before entries parent = some (index, entry)) :
    (index = 2 * parent + 1 ∨ index = 2 * parent + 2) ∧ entries[index]? = some entry := by
  obtain ⟨left, leftFound, chosen⟩ := Option.map_eq_some_iff.1 found
  split at chosen
  · cases chosen
    exact ⟨Or.inl rfl, leftFound⟩
  · next right rightFound =>
      split_ifs at chosen
      · cases chosen
        exact ⟨Or.inr rfl, rightFound⟩
      · cases chosen
        exact ⟨Or.inl rfl, leftFound⟩

/-- Move the hole at `parent` away from the root until the entry fits there. -/
def siftDown (before : α → α → Bool) (moved : α) : Nat → List α → Nat → List α
  | 0, entries, parent => entries.set parent moved
  | fuel + 1, entries, parent =>
      match bestChild before entries parent with
      | none => entries.set parent moved
      | some (index, entry) =>
          if before entry moved then
            siftDown before moved fuel (entries.set parent entry) index
          else entries.set parent moved

/-- Take the first entry out. -/
def pop (before : α → α → Bool) (entries : List α) : List α :=
  match entries.dropLast, entries.getLast? with
  | [], _ => []
  | rest, some moved => siftDown before moved rest.length rest 0
  | rest, none => rest

/-! ## The heap order -/

/-- The entry at an index does not go before the one above it. -/
def Edge (before : α → α → Bool) (entries : List α) (index : Nat) : Prop :=
  ∀ lower upper, entries[index]? = some lower → entries[(index - 1) / 2]? = some upper →
    before lower upper = false

/-- No entry goes before the one above it. -/
def Ordered (before : α → α → Bool) (entries : List α) : Prop :=
  ∀ index, 0 < index → Edge before entries index

/-- The entries below a hole do not go before the one above it. -/
def Bridged (before : α → α → Bool) (entries : List α) (hole : Nat) : Prop :=
  ∀ index, 0 < index → (index - 1) / 2 = hole → 0 < hole →
    ∀ lower upper, entries[index]? = some lower →
      entries[(hole - 1) / 2]? = some upper → before lower upper = false

section Order

variable {before : α → α → Bool} {entries : List α}

theorem ordered_nil : Ordered before [] := by
  intro index _ lower upper found
  simp at found

/-- No entry of a heap goes before its first one. -/
theorem Ordered.first (order : StrictOrder before) (ordered : Ordered before entries)
    {top : α} (first : entries[0]? = some top) :
    ∀ entry ∈ entries, before entry top = false := by
  have reached : ∀ (index : Nat) (entry : α), entries[index]? = some entry →
      before entry top = false := by
    intro index
    induction index using Nat.strong_induction_on with
    | h index ih =>
        intro entry found
        by_cases root : index = 0
        · subst root
          obtain rfl : top = entry := Option.some.inj (first.symm.trans found)
          by_contra itself
          have forward : before top top = true := by simpa using itself
          have backward := order.asymm top top forward
          rw [forward] at backward
          cases backward
        · have bound := (List.getElem?_eq_some_iff.1 found).1
          have upperFound := List.getElem?_eq_getElem
            (show (index - 1) / 2 < entries.length by omega)
          exact order.negTrans _ _ _ (ordered index (by omega) _ _ found upperFound)
            (ih _ (by omega) _ upperFound)
  intro entry mem
  obtain ⟨index, found⟩ := List.getElem?_of_mem mem
  exact reached index entry found

/-- Moving an entry into the hole and the hole to its place swaps the two. -/
theorem swap_perm {hole index : Nat} {entry moved : α} (found : entries[index]? = some entry)
    (apart : index ≠ hole) (bound : hole < entries.length) :
    ((entries.set hole entry).set index moved).Perm (entries.set hole moved) := by
  obtain ⟨indexBound, rfl⟩ := List.getElem?_eq_some_iff.1 found
  have swapped := @List.set_set_perm _ (entries.set hole moved) hole index
    (by rwa [List.length_set]) (by rwa [List.length_set])
  rwa [List.getElem_set_self, List.getElem_set_ne apart.symm, List.set_set] at swapped

theorem siftUp_perm (entry : α) (fuel child : Nat) (bound : child < entries.length) :
    (siftUp before entry fuel entries child).Perm (entries.set child entry) := by
  induction fuel generalizing entries child with
  | zero => exact List.Perm.refl _
  | succ fuel ih =>
      rw [siftUp]
      split_ifs with root
      · exact List.Perm.refl _
      · split
        · exact List.Perm.refl _
        · next upper found =>
            split_ifs with earlier
            · have rest := @ih (entries.set child upper) ((child - 1) / 2)
                (by rw [List.length_set]; omega)
              exact rest.trans (swap_perm found (by omega) bound)
            · exact List.Perm.refl _

theorem push_perm (entry : α) : (push before entries entry).Perm (entry :: entries) := by
  have sifted := @siftUp_perm _ before (entries ++ [entry]) entry entries.length
    entries.length (by simp)
  have filled : (entries ++ [entry]).set entries.length entry = entries ++ [entry] := by
    simp
  rw [filled] at sifted
  exact sifted.trans (List.perm_append_singleton _ _)

theorem siftDown_perm (moved : α) (fuel parent : Nat) (bound : parent < entries.length) :
    (siftDown before moved fuel entries parent).Perm (entries.set parent moved) := by
  induction fuel generalizing entries parent with
  | zero => exact List.Perm.refl _
  | succ fuel ih =>
      rw [siftDown]
      split
      · exact List.Perm.refl _
      · next index entry found =>
          obtain ⟨child, looked⟩ := bestChild_spec found
          have indexBound := (List.getElem?_eq_some_iff.1 looked).1
          split_ifs with earlier
          · have rest := @ih (entries.set parent entry) index (by rwa [List.length_set])
            exact rest.trans (swap_perm looked (by omega) bound)
          · exact List.Perm.refl _

/-- Popping takes out the first entry alone. -/
theorem pop_perm {top : α} (first : entries[0]? = some top) :
    entries.Perm (top :: pop before entries) := by
  obtain ⟨initial, last, rfl⟩ : ∃ initial last, entries = initial ++ [last] := by
    rcases List.eq_nil_or_concat' entries with rfl | ⟨initial, last, rfl⟩
    · simp at first
    · exact ⟨initial, last, rfl⟩
  unfold pop
  rw [List.dropLast_concat, List.getLast?_concat]
  cases initial with
  | nil =>
      obtain rfl : last = top := by simpa using first
      exact List.Perm.refl _
  | cons head rest =>
      obtain rfl : head = top := by simpa using first
      have sifted := @siftDown_perm _ before (head :: rest) last (head :: rest).length 0
        (by simp)
      exact (List.perm_append_singleton last (head :: rest)).trans
        ((List.Perm.swap head last rest).trans (sifted.symm.cons head))

end Order

/-! ## The operations keep the order -/

section Keep

variable {before : α → α → Bool} {entries : List α}

theorem siftUp_ordered (order : StrictOrder before) (entry : α) (fuel child : Nat)
    (enough : child ≤ fuel) (bound : child < entries.length)
    (edges : ∀ index, 0 < index → index ≠ child →
      Edge before (entries.set child entry) index)
    (bridged : Bridged before (entries.set child entry) child) :
    Ordered before (siftUp before entry fuel entries child) := by
  induction fuel generalizing entries child with
  | zero =>
      intro index positive
      exact edges index positive (by omega)
  | succ fuel ih =>
      rw [siftUp]
      split_ifs with root
      · intro index positive
        exact edges index positive (by omega)
      · have upperBound : (child - 1) / 2 < entries.length := by omega
        have apart : (child - 1) / 2 ≠ child := by omega
        split
        · next missing =>
            exact absurd missing (by simp [upperBound])
        · next upper found =>
            have upperHere : (entries.set child entry)[(child - 1) / 2]? = some upper := by
              rw [List.getElem?_set_ne apart.symm, found]
            have entryHere : (entries.set child entry)[child]? = some entry :=
              List.getElem?_set_self bound
            split_ifs with earlier
            · -- The list after the swap, entry by entry.
              have swapped : ∀ index,
                  ((entries.set child upper).set ((child - 1) / 2) entry)[index]? =
                    if index = child then some upper
                    else if index = (child - 1) / 2 then some entry
                    else (entries.set child entry)[index]? := by
                intro index
                by_cases here : index = child
                · subst here
                  rw [if_pos rfl, List.getElem?_set_ne apart, List.getElem?_set_self bound]
                · rw [if_neg here]
                  by_cases up : index = (child - 1) / 2
                  · subst up
                    rw [if_pos rfl, List.getElem?_set_self (by rwa [List.length_set])]
                  · rw [if_neg up, List.getElem?_set_ne (Ne.symm up),
                      List.getElem?_set_ne (Ne.symm here), List.getElem?_set_ne (Ne.symm here)]
              apply ih ((child - 1) / 2) (by omega) (by rwa [List.length_set])
              · intro index positive elsewhere lower above lowerFound aboveFound
                rw [swapped] at lowerFound aboveFound
                by_cases here : index = child
                · subst here
                  rw [if_pos rfl] at lowerFound
                  rw [if_neg apart, if_pos rfl] at aboveFound
                  cases lowerFound
                  cases aboveFound
                  exact order.asymm _ _ earlier
                · rw [if_neg here, if_neg elsewhere] at lowerFound
                  by_cases underHole : (index - 1) / 2 = child
                  · rw [if_pos underHole] at aboveFound
                    cases aboveFound
                    exact bridged index positive underHole (by omega) _ _ lowerFound upperHere
                  · rw [if_neg underHole] at aboveFound
                    by_cases sibling : (index - 1) / 2 = (child - 1) / 2
                    · rw [if_pos sibling] at aboveFound
                      cases aboveFound
                      have notUpper := edges index positive here lower upper lowerFound
                        (by rw [sibling]; exact upperHere)
                      by_contra goes
                      have goesFirst : before lower entry = true := by simpa using goes
                      rw [order.trans _ _ _ goesFirst earlier] at notUpper
                      cases notUpper
                    · rw [if_neg sibling] at aboveFound
                      exact edges index positive here _ _ lowerFound aboveFound
              · intro index positive under upPositive lower above lowerFound aboveFound
                rw [swapped] at lowerFound aboveFound
                rw [if_neg (by omega), if_neg (by omega)] at aboveFound
                have upEdge := edges ((child - 1) / 2) upPositive apart upper above
                  upperHere aboveFound
                by_cases here : index = child
                · rw [if_pos here] at lowerFound
                  cases lowerFound
                  exact upEdge
                · rw [if_neg here, if_neg (by omega)] at lowerFound
                  have notUpper := edges index positive here lower upper lowerFound
                    (by rw [under]; exact upperHere)
                  exact order.negTrans _ _ _ notUpper upEdge
            · intro index positive lower above lowerFound aboveFound
              by_cases here : index = child
              · subst here
                obtain rfl : lower = entry := Option.some.inj (lowerFound.symm.trans entryHere)
                obtain rfl : above = upper := Option.some.inj (aboveFound.symm.trans upperHere)
                simpa using earlier
              · exact edges index positive here _ _ lowerFound aboveFound

theorem push_ordered (order : StrictOrder before) (ordered : Ordered before entries)
    (entry : α) : Ordered before (push before entries entry) := by
  have filled : (entries ++ [entry]).set entries.length entry = entries ++ [entry] := by
    simp
  apply siftUp_ordered order entry entries.length entries.length le_rfl (by simp)
  · rw [filled]
    intro index positive elsewhere lower upper lowerFound upperFound
    have bound := (List.getElem?_eq_some_iff.1 lowerFound).1
    rw [List.length_append, List.length_singleton] at bound
    rw [List.getElem?_append_left (by omega)] at lowerFound upperFound
    exact ordered index positive _ _ lowerFound upperFound
  · rw [filled]
    intro index positive under _ lower upper lowerFound
    have bound := (List.getElem?_eq_some_iff.1 lowerFound).1
    rw [List.length_append, List.length_singleton] at bound
    omega

/-- The chosen child goes no later than the others. -/
theorem bestChild_first (order : StrictOrder before) {parent index : Nat} {entry : α}
    (found : bestChild before entries parent = some (index, entry)) {other : Nat}
    {lower : α} (positive : 0 < other) (under : (other - 1) / 2 = parent)
    (lowerFound : entries[other]? = some lower) : before lower entry = false := by
  have irrefl : ∀ value, before value value = false := by
    intro value
    by_contra itself
    have forward : before value value = true := by simpa using itself
    rw [order.asymm value value forward] at forward
    cases forward
  obtain ⟨left, leftFound, chosen⟩ := Option.map_eq_some_iff.1 found
  have side : other = 2 * parent + 1 ∨ other = 2 * parent + 2 := by omega
  split at chosen
  · next missing =>
      cases chosen
      rcases side with rfl | rfl
      · rw [Option.some.inj (lowerFound.symm.trans leftFound)]
        exact irrefl _
      · rw [missing] at lowerFound
        cases lowerFound
  · next right rightFound =>
      split_ifs at chosen with rightFirst
      · cases chosen
        rcases side with rfl | rfl
        · rw [Option.some.inj (lowerFound.symm.trans leftFound)]
          exact order.asymm _ _ rightFirst
        · rw [Option.some.inj (lowerFound.symm.trans rightFound)]
          exact irrefl _
      · cases chosen
        rcases side with rfl | rfl
        · rw [Option.some.inj (lowerFound.symm.trans leftFound)]
          exact irrefl _
        · rw [Option.some.inj (lowerFound.symm.trans rightFound)]
          simpa using rightFirst

theorem siftDown_ordered (order : StrictOrder before) (moved : α) (fuel parent : Nat)
    (enough : entries.length - parent ≤ fuel) (bound : parent < entries.length)
    (edges : ∀ index, 0 < index → (index - 1) / 2 ≠ parent →
      Edge before (entries.set parent moved) index)
    (bridged : Bridged before (entries.set parent moved) parent) :
    Ordered before (siftDown before moved fuel entries parent) := by
  induction fuel generalizing entries parent with
  | zero => omega
  | succ fuel ih =>
      have movedHere : (entries.set parent moved)[parent]? = some moved :=
        List.getElem?_set_self bound
      have unmoved : ∀ index, index ≠ parent →
          (entries.set parent moved)[index]? = entries[index]? :=
        fun index other => List.getElem?_set_ne (Ne.symm other)
      rw [siftDown]
      split
      · next missing =>
          have leaf : entries[2 * parent + 1]? = none := by
            simpa [bestChild] using missing
          intro index positive lower above lowerFound aboveFound
          by_cases under : (index - 1) / 2 = parent
          · have lowerBound := (List.getElem?_eq_some_iff.1 lowerFound).1
            rw [List.length_set] at lowerBound
            rw [List.getElem?_eq_none_iff] at leaf
            omega
          · exact edges index positive under _ _ lowerFound aboveFound
      · next index entry found =>
          obtain ⟨child, looked⟩ := bestChild_spec found
          have indexBound := (List.getElem?_eq_some_iff.1 looked).1
          have apart : index ≠ parent := by omega
          have under : (index - 1) / 2 = parent := by omega
          have entryHere : (entries.set parent moved)[index]? = some entry := by
            rw [unmoved index apart, looked]
          have first : ∀ other, 0 < other → (other - 1) / 2 = parent → ∀ lower,
              (entries.set parent moved)[other]? = some lower →
                before lower entry = false := by
            intro other positive below lower lowerFound
            rw [unmoved other (by omega)] at lowerFound
            exact bestChild_first order found positive below lowerFound
          split_ifs with earlier
          · have swapped : ∀ other,
                ((entries.set parent entry).set index moved)[other]? =
                  if other = index then some moved
                  else if other = parent then some entry
                  else (entries.set parent moved)[other]? := by
              intro other
              by_cases here : other = index
              · subst here
                rw [if_pos rfl, List.getElem?_set_self (by rwa [List.length_set])]
              · rw [if_neg here, List.getElem?_set_ne (Ne.symm here)]
                by_cases up : other = parent
                · subst up
                  rw [if_pos rfl, List.getElem?_set_self bound]
                · rw [if_neg up, List.getElem?_set_ne (Ne.symm up),
                    List.getElem?_set_ne (Ne.symm up)]
            apply ih index (by rw [List.length_set]; omega) (by rwa [List.length_set])
            · intro other positive elsewhere lower above lowerFound aboveFound
              rw [swapped] at lowerFound aboveFound
              rw [if_neg elsewhere] at aboveFound
              by_cases below : (other - 1) / 2 = parent
              · rw [if_pos below] at aboveFound
                cases aboveFound
                by_cases here : other = index
                · rw [if_pos here] at lowerFound
                  cases lowerFound
                  exact order.asymm _ _ earlier
                · rw [if_neg here, if_neg (by omega)] at lowerFound
                  exact first other positive below _ lowerFound
              · rw [if_neg below] at aboveFound
                have notIndex : other ≠ index := by
                  rintro rfl
                  exact below under
                rw [if_neg notIndex] at lowerFound
                by_cases up : other = parent
                · subst up
                  rw [if_pos rfl] at lowerFound
                  cases lowerFound
                  exact bridged index (by omega) under positive _ _ entryHere aboveFound
                · rw [if_neg up] at lowerFound
                  exact edges other positive below _ _ lowerFound aboveFound
            · intro other positive below _ lower above lowerFound aboveFound
              rw [swapped] at lowerFound aboveFound
              rw [under, if_neg apart.symm, if_pos rfl] at aboveFound
              cases aboveFound
              rw [if_neg (by omega), if_neg (by omega)] at lowerFound
              exact edges other positive (by omega) lower entry lowerFound
                (by rw [below]; exact entryHere)
          · intro other positive lower above lowerFound aboveFound
            by_cases below : (other - 1) / 2 = parent
            · rw [below, movedHere] at aboveFound
              cases aboveFound
              exact order.negTrans _ _ _ (first other positive below _ lowerFound)
                (by simpa using earlier)
            · exact edges other positive below _ _ lowerFound aboveFound

theorem pop_ordered (order : StrictOrder before) (ordered : Ordered before entries) :
    Ordered before (pop before entries) := by
  rcases List.eq_nil_or_concat' entries with rfl | ⟨initial, last, rfl⟩
  · exact ordered_nil
  · unfold pop
    rw [List.dropLast_concat, List.getLast?_concat]
    cases initial with
    | nil => exact ordered_nil
    | cons head rest =>
        apply siftDown_ordered order last _ 0 (by simp) (by simp)
        · intro index positive elsewhere lower upper lowerFound upperFound
          rw [List.getElem?_set_ne (by omega)] at lowerFound upperFound
          have lowerBound := (List.getElem?_eq_some_iff.1 lowerFound).1
          apply ordered index positive lower upper
          · rw [List.getElem?_append_left lowerBound, lowerFound]
          · rw [List.getElem?_append_left (by omega), upperFound]
        · intro _ _ _ impossible
          exact absurd impossible (lt_irrefl 0)

end Keep

end ShadowSpill.Library.BinaryHeap
