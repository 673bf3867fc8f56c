import ShadowSpill.Library.Coordinates
import ShadowSpill.Library.SegmentTree

/-!
# The owner tree

A segment tree over the distinct range endpoints names the lease that owns
each address.  Assigning an owner to a whole node leaves the node's children
stale until a later walk pushes the assignment down.  `Represents` says which
owner a subtree gives every position, stale children and all; `query_spec` and
`assign_spec` are what the two walks do to it.
-/

namespace ShadowSpill.Planner.ReuseOwners

open Library.SegmentTree

/-- Who owns a node's interval: nobody, several leases, or one. -/
inductive Owner where
  | empty
  | mixed
  | lease (index : Nat)
deriving DecidableEq, Repr

/-- Per node, the owner of its whole interval, and the assignment that its
children have not seen yet. -/
structure OwnerTree where
  owner : Nat → Owner
  pending : Nat → Option Owner

/-- `owner_tree_create`, the nodes. -/
def ownerTreeCreate : OwnerTree where
  owner := fun _ => .empty
  pending := fun _ => none

/-- Hand an assignment to a node, to be pushed down later. -/
def OwnerTree.mark (tree : OwnerTree) (node : Nat) (owner : Owner) : OwnerTree where
  owner := Function.update tree.owner node owner
  pending := Function.update tree.pending node (some owner)

/-- `push`. -/
def push (tree : OwnerTree) (node : Nat) : OwnerTree :=
  match tree.pending node with
  | none => tree
  | some owner =>
      let marked := (tree.mark (node * 2) owner).mark (node * 2 + 1) owner
      { marked with pending := Function.update marked.pending node none }

/-- `found_add`: each owner is kept once. -/
def foundAdd (found : List Nat) (lease : Nat) : List Nat :=
  if lease ∈ found then found else found ++ [lease]

/-- `query`: the tree with what the walk pushed down, and the owners found. -/
def query (start finish : Nat) :
    Nat → OwnerTree → Nat → Nat → Nat → List Nat → OwnerTree × List Nat
  | 0, tree, _, _, _, found => (tree, found)
  | fuel + 1, tree, node, left, right, found =>
      if finish ≤ left ∨ right ≤ start then (tree, found)
      else if start ≤ left ∧ right ≤ finish ∧ tree.owner node ≠ .mixed then
        match tree.owner node with
        | .lease index => (tree, foundAdd found index)
        | _ => (tree, found)
      else if right - left = 1 then (tree, found)
      else
        let lower := query start finish fuel (push tree node) (node * 2) left
          (middle left right) found
        query start finish fuel lower.1 (node * 2 + 1) (middle left right) right
          lower.2

/-- `assign`. -/
def assign (start finish : Nat) (owner : Owner) :
    Nat → OwnerTree → Nat → Nat → Nat → OwnerTree
  | 0, tree, _, _, _ => tree
  | fuel + 1, tree, node, left, right =>
      if finish ≤ left ∨ right ≤ start then tree
      else if (start ≤ left ∧ right ≤ finish) ∨ right - left = 1 then
        tree.mark node owner
      else
        let lower := assign start finish owner fuel (push tree node) (node * 2)
          left (middle left right)
        let upper := assign start finish owner fuel lower (node * 2 + 1)
          (middle left right) right
        { upper with
          owner := Function.update upper.owner node
            (if upper.owner (node * 2) = upper.owner (node * 2 + 1) then
              upper.owner (node * 2)
            else .mixed) }

/-! ## What a subtree says -/

/-- The owner a whole interval would have to show. -/
def Shows (owner : Owner) (owners : Nat → Option Nat) (left right : Nat) : Prop :=
  match owner with
  | .empty => ∀ position, left ≤ position → position < right →
      owners position = none
  | .mixed => 2 ≤ right - left
  | .lease index => ∀ position, left ≤ position → position < right →
      owners position = some index

/-- The subtree at a node gives every position of its interval its owner.
Below a pending assignment the children are stale. -/
def Represents (tree : OwnerTree) (owners : Nat → Option Nat) :
    Nat → Nat → Nat → Nat → Prop
  | 0, _, left, right => right ≤ left
  | fuel + 1, node, left, right =>
      Shows (tree.owner node) owners left right ∧
        match tree.pending node with
        | some owner => tree.owner node = owner ∧ owner ≠ .mixed
        | none => 2 ≤ right - left →
            Represents tree owners fuel (node * 2) left (middle left right) ∧
              Represents tree owners fuel (node * 2 + 1) (middle left right) right

/-- Two trees agree at and below a node. -/
def AgreeBelow (node : Nat) (first second : OwnerTree) : Prop :=
  ∀ member, Below node member →
    first.owner member = second.owner member ∧
      first.pending member = second.pending member

/-- Two trees agree outside a node's subtree. -/
def AgreeOutside (node : Nat) (first second : OwnerTree) : Prop :=
  ∀ member, ¬ Below node member →
    first.owner member = second.owner member ∧
      first.pending member = second.pending member

theorem AgreeOutside.refl (node : Nat) (tree : OwnerTree) :
    AgreeOutside node tree tree :=
  fun _ _ => ⟨rfl, rfl⟩

theorem AgreeOutside.trans {node : Nat} {first second third : OwnerTree}
    (one : AgreeOutside node first second)
    (two : AgreeOutside node second third) : AgreeOutside node first third :=
  fun member outside =>
    ⟨(one member outside).1.trans (two member outside).1,
      (one member outside).2.trans (two member outside).2⟩

theorem AgreeOutside.of_child {node child : Nat} {first second : OwnerTree}
    (inside : ∀ member, Below child member → Below node member)
    (agree : AgreeOutside child first second) : AgreeOutside node first second :=
  fun member outside => agree member fun below => outside (inside member below)

/-- A change below one child leaves the other child alone. -/
theorem AgreeOutside.sibling {node : Nat} (root : 1 ≤ node)
    {first second : OwnerTree} :
    (AgreeOutside (node * 2) first second →
        AgreeBelow (node * 2 + 1) first second) ∧
      (AgreeOutside (node * 2 + 1) first second →
        AgreeBelow (node * 2) first second) := by
  constructor
  · intro agree member below
    exact agree member fun other => Below.not_both root other below
  · intro agree member below
    exact agree member fun other => Below.not_both root below other

theorem Represents.congr
    {fuel node left right : Nat} {first second : OwnerTree}
    {owners : Nat → Option Nat}
    (agree : AgreeBelow node first second)
    (represents : Represents first owners fuel node left right) :
    Represents second owners fuel node left right := by
  induction fuel generalizing node left right with
  | zero => exact represents
  | succ fuel ih =>
      obtain ⟨shows_, rest⟩ := represents
      obtain ⟨sameOwner, samePending⟩ := agree node (Below.refl node)
      rw [sameOwner] at shows_
      refine ⟨shows_, ?_⟩
      rw [← samePending, ← sameOwner]
      cases pending : first.pending node with
      | some owner => rwa [pending] at rest
      | none =>
          rw [pending] at rest
          intro wide
          obtain ⟨lower, upper⟩ := rest wide
          exact ⟨ih (fun member below => agree member below.of_left) lower,
            ih (fun member below => agree member below.of_right) upper⟩

theorem Represents.congr_owners
    {fuel node left right : Nat} {tree : OwnerTree}
    {first second : Nat → Option Nat}
    (same : ∀ position, left ≤ position → position < right →
      first position = second position)
    (represents : Represents tree first fuel node left right) :
    Represents tree second fuel node left right := by
  induction fuel generalizing node left right with
  | zero => exact represents
  | succ fuel ih =>
      obtain ⟨shows_, rest⟩ := represents
      constructor
      · cases owner : tree.owner node with
        | empty =>
            rw [owner] at shows_
            intro position lower upper
            rw [← same position lower upper]
            exact shows_ position lower upper
        | mixed =>
            rw [owner] at shows_
            exact shows_
        | lease index =>
            rw [owner] at shows_
            intro position lower upper
            rw [← same position lower upper]
            exact shows_ position lower upper
      · cases pending : tree.pending node with
        | some owner => rwa [pending] at rest
        | none =>
            rw [pending] at rest
            intro wide
            have bounds := middle_bounds wide
            obtain ⟨lower, upper⟩ := rest wide
            exact ⟨ih (fun position low high => same position low (by omega)) lower,
              ih (fun position low high => same position (by omega) high) upper⟩

/-- Nobody owns anything in a new tree. -/
theorem represents_create {fuel : Nat} (node : Nat) {left right : Nat}
    (enough : right - left ≤ fuel) :
    Represents ownerTreeCreate (fun _ => none) fuel node left right := by
  induction fuel generalizing node left right with
  | zero => exact Nat.sub_eq_zero_iff_le.mp (Nat.le_zero.mp enough)
  | succ fuel ih =>
      refine ⟨fun _ _ _ => rfl, fun wide => ?_⟩
      have bounds := middle_bounds wide
      exact ⟨ih (node * 2) (by omega), ih (node * 2 + 1) (by omega)⟩

/-! ## Pushing -/

theorem not_below_child {node : Nat} (root : 1 ≤ node) :
    ¬ Below (node * 2) node ∧ ¬ Below (node * 2 + 1) node := by
  constructor
  · intro below
    have bound := below.le
    omega
  · intro below
    have bound := below.le
    omega

/-- A marked node answers for its interval alone. -/
theorem represents_of_pending
    {fuel node left right : Nat} {tree : OwnerTree} {owner : Owner}
    {owners : Nat → Option Nat}
    (enough : left < right → 0 < fuel)
    (marked : tree.owner node = owner ∧ tree.pending node = some owner)
    (single : owner ≠ .mixed)
    (shows_ : Shows owner owners left right) :
    Represents tree owners fuel node left right := by
  cases fuel with
  | zero => exact not_lt.mp fun wide => absurd (enough wide) (lt_irrefl 0)
  | succ fuel =>
      obtain ⟨sameOwner, samePending⟩ := marked
      rw [Represents, sameOwner, samePending]
      exact ⟨shows_, rfl, single⟩

theorem Shows.sub
    {owner : Owner} {owners : Nat → Option Nat} {left right left' right' : Nat}
    (single : owner ≠ .mixed)
    (inside : left ≤ left' ∧ right' ≤ right)
    (shows_ : Shows owner owners left right) : Shows owner owners left' right' := by
  cases owner with
  | empty =>
      intro position lower upper
      exact shows_ position (inside.1.trans lower) (upper.trans_le inside.2)
  | mixed => exact absurd rfl single
  | lease index =>
      intro position lower upper
      exact shows_ position (inside.1.trans lower) (upper.trans_le inside.2)

/-- Pushing settles the node: its children answer for themselves, and nothing
else changes. -/
theorem push_spec
    {fuel node left right : Nat} {tree : OwnerTree} {owners : Nat → Option Nat}
    (root : 1 ≤ node)
    (wide : 2 ≤ right - left)
    (enough : right - left ≤ fuel + 1)
    (represents : Represents tree owners (fuel + 1) node left right) :
    (push tree node).owner node = tree.owner node ∧
      (push tree node).pending node = none ∧
      Represents (push tree node) owners fuel (node * 2) left
        (middle left right) ∧
      Represents (push tree node) owners fuel (node * 2 + 1) (middle left right)
        right ∧
      AgreeOutside node tree (push tree node) := by
  obtain ⟨shows_, rest⟩ := represents
  have bounds := middle_bounds wide
  unfold push
  cases pending : tree.pending node with
  | none =>
      rw [pending] at rest
      obtain ⟨lower, upper⟩ := rest wide
      exact ⟨rfl, pending, lower, upper, AgreeOutside.refl node tree⟩
  | some owner =>
      rw [pending] at rest
      obtain ⟨sameOwner, single⟩ := rest
      rw [sameOwner] at shows_
      have apart : node ≠ node * 2 ∧ node ≠ node * 2 + 1 ∧
          node * 2 ≠ node * 2 + 1 := by omega
      refine ⟨?_, ?_, ?_, ?_, ?_⟩
      · simp [OwnerTree.mark, apart]
      · simp
      · apply represents_of_pending (fun _ => by omega) ?_ single
          (shows_.sub single ⟨le_rfl, bounds.2.le⟩)
        simp [OwnerTree.mark, Ne.symm apart.1]
      · apply represents_of_pending (fun _ => by omega) ?_ single
          (shows_.sub single ⟨bounds.1.le, le_rfl⟩)
        simp [OwnerTree.mark, Ne.symm apart.2.1]
      · intro member outside
        have apartNode : member ≠ node := fun equal =>
          outside (equal ▸ Below.refl node)
        have apartLower : member ≠ node * 2 := fun equal =>
          outside (equal ▸ (Below.refl (node * 2)).of_left)
        have apartUpper : member ≠ node * 2 + 1 := fun equal =>
          outside (equal ▸ (Below.refl (node * 2 + 1)).of_right)
        simp [OwnerTree.mark, apartNode, apartLower, apartUpper]

/-- Settled children make up their node. -/
theorem represents_of_children
    {fuel node left right : Nat} {tree : OwnerTree} {owners : Nat → Option Nat}
    (shows_ : Shows (tree.owner node) owners left right)
    (settled : tree.pending node = none)
    (lower : Represents tree owners fuel (node * 2) left (middle left right))
    (upper : Represents tree owners fuel (node * 2 + 1) (middle left right) right) :
    Represents tree owners (fuel + 1) node left right := by
  rw [Represents, settled]
  exact ⟨shows_, fun _ => ⟨lower, upper⟩⟩

/-! ## Looking owners up -/

theorem mem_foundAdd {found : List Nat} {lease member : Nat} :
    member ∈ foundAdd found lease ↔ member ∈ found ∨ member = lease := by
  unfold foundAdd
  by_cases known : lease ∈ found
  · rw [if_pos known]
    constructor
    · exact Or.inl
    · rintro (mem | rfl)
      · exact mem
      · exact known
  · rw [if_neg known, List.mem_append, List.mem_singleton]

theorem nodup_foundAdd {found : List Nat} (lease : Nat) (nodup : found.Nodup) :
    (foundAdd found lease).Nodup := by
  unfold foundAdd
  by_cases known : lease ∈ found
  · rwa [if_pos known]
  · rw [if_neg known]
    exact nodup.append (List.nodup_singleton lease) (by simpa using known)

/-- The lease owns a position of the interval that the lookup asks for. -/
def Owns (owners : Nat → Option Nat) (start finish left right lease : Nat) : Prop :=
  ∃ position, (left ≤ position ∧ position < right) ∧
    (start ≤ position ∧ position < finish) ∧ owners position = some lease

theorem owns_split {owners : Nat → Option Nat} {start finish left right lease : Nat}
    (wide : 2 ≤ right - left) :
    Owns owners start finish left right lease ↔
      Owns owners start finish left (middle left right) lease ∨
        Owns owners start finish (middle left right) right lease := by
  have bounds := middle_bounds wide
  constructor
  · rintro ⟨position, inside, asked, owned⟩
    by_cases lower : position < middle left right
    · exact Or.inl ⟨position, ⟨inside.1, lower⟩, asked, owned⟩
    · exact Or.inr ⟨position, ⟨not_lt.mp lower, inside.2⟩, asked, owned⟩
  · rintro (⟨position, inside, asked, owned⟩ | ⟨position, inside, asked, owned⟩)
    · exact ⟨position, ⟨inside.1, inside.2.trans bounds.2⟩, asked, owned⟩
    · exact ⟨position, ⟨bounds.1.le.trans inside.1, inside.2⟩, asked, owned⟩

/-- What a lookup below a node gives. -/
structure Looked (tree after : OwnerTree) (owners : Nat → Option Nat)
    (start finish fuel node left right : Nat) (found gathered : List Nat) :
    Prop where
  represents : Represents after owners fuel node left right
  owner_eq : after.owner node = tree.owner node
  outside : AgreeOutside node tree after
  mem_iff : ∀ lease, lease ∈ gathered ↔ lease ∈ found ∨
    Owns owners start finish left right lease
  nodup : found.Nodup → gathered.Nodup

/-- A lookup keeps every owner and finds those of the asked positions, each
once. -/
theorem query_spec
    (start finish fuel : Nat) (tree : OwnerTree) (node : Nat)
    {left right : Nat} (found : List Nat) {owners : Nat → Option Nat}
    (root : 1 ≤ node)
    (reached : left < right ∨ finish ≤ left)
    (enough : right - left ≤ fuel)
    (represents : Represents tree owners fuel node left right) :
    Looked tree (query start finish fuel tree node left right found).1 owners
      start finish fuel node left right found
      (query start finish fuel tree node left right found).2 := by
  induction fuel generalizing tree node left right found with
  | zero =>
      refine ⟨represents, rfl, AgreeOutside.refl _ _, fun lease => ?_, id⟩
      rw [query]
      simp only [iff_self_or]
      rintro ⟨position, inside, _⟩
      have empty : right ≤ left := represents
      omega
  | succ fuel ih =>
      rw [query]
      by_cases outside : finish ≤ left ∨ right ≤ start
      · rw [if_pos outside]
        refine ⟨represents, rfl, AgreeOutside.refl _ _, fun lease => ?_, id⟩
        simp only [iff_self_or]
        rintro ⟨position, inside, asked, _⟩
        omega
      rw [if_neg outside]
      by_cases answered : start ≤ left ∧ right ≤ finish ∧ tree.owner node ≠ .mixed
      · rw [if_pos answered]
        have shows_ := represents.1
        cases owner : tree.owner node with
        | empty =>
            rw [owner] at shows_
            refine ⟨represents, rfl, AgreeOutside.refl _ _, fun lease => ?_, id⟩
            simp only [iff_self_or]
            rintro ⟨position, inside, _, owned⟩
            rw [shows_ position inside.1 inside.2] at owned
            cases owned
        | mixed => exact absurd owner answered.2.2
        | lease index =>
            rw [owner] at shows_
            refine ⟨represents, rfl, AgreeOutside.refl _ _, fun lease => ?_,
              nodup_foundAdd index⟩
            rw [mem_foundAdd]
            apply or_congr_right
            constructor
            · rintro rfl
              exact ⟨left, by omega, by omega, shows_ left le_rfl (by omega)⟩
            · rintro ⟨position, inside, _, owned⟩
              rw [shows_ position inside.1 inside.2] at owned
              exact (Option.some.inj owned).symm
      rw [if_neg answered]
      by_cases leaf : right - left = 1
      · -- A leaf that the lookup meets is inside it, and is never mixed.
        have mixed : tree.owner node = .mixed := by
          by_contra single
          exact answered ⟨by omega, by omega, single⟩
        have shows_ := represents.1
        rw [mixed] at shows_
        exact absurd shows_ (by simp only [Shows]; omega)
      rw [if_neg leaf]
      have wide : 2 ≤ right - left := by omega
      have bounds := middle_bounds wide
      obtain ⟨ownerEq, settled, lowerShown, upperShown, outer⟩ :=
        push_spec root wide enough represents
      have lower := ih (push tree node) (node * 2) found (by omega)
        (Or.inl bounds.1) (by omega) lowerShown
      set below := query start finish fuel (push tree node) (node * 2) left
        (middle left right) found
      have upper := ih below.1 (node * 2 + 1) below.2 (by omega)
        (Or.inl bounds.2) (by omega)
        (upperShown.congr ((AgreeOutside.sibling root).1 lower.outside))
      set above := query start finish fuel below.1 (node * 2 + 1)
        (middle left right) right below.2
      have here := not_below_child root
      have sameOwner : above.1.owner node = tree.owner node :=
        (upper.outside node here.2).1.symm.trans
          ((lower.outside node here.1).1.symm.trans ownerEq)
      refine ⟨?_, sameOwner, ?_, fun lease => ?_, fun nodup =>
        upper.nodup (lower.nodup nodup)⟩
      · apply represents_of_children (sameOwner ▸ represents.1)
        · rw [← (upper.outside node here.2).2, ← (lower.outside node here.1).2]
          exact settled
        · exact lower.represents.congr
            ((AgreeOutside.sibling root).2 upper.outside)
        · exact upper.represents
      · exact outer.trans ((lower.outside.of_child fun _ => Below.of_left).trans
          (upper.outside.of_child fun _ => Below.of_right))
      · rw [upper.mem_iff, lower.mem_iff, or_assoc, owns_split wide]

/-! ## Assigning an owner -/

/-- The owners once the lease has taken `[start, finish)`. -/
def taken (owners : Nat → Option Nat) (start finish lease : Nat) :
    Nat → Option Nat :=
  fun position =>
    if start ≤ position ∧ position < finish then some lease else owners position

/-- Halves that show the same owner make the whole show it. -/
theorem shows_of_halves
    {first second : Owner} {owners : Nat → Option Nat} {left right : Nat}
    (wide : 2 ≤ right - left)
    (lower : Shows first owners left (middle left right))
    (upper : Shows second owners (middle left right) right) :
    Shows (if first = second then first else .mixed) owners left right := by
  by_cases same : first = second
  · subst same
    rw [if_pos rfl]
    cases first with
    | empty =>
        intro position above below
        rcases Nat.lt_or_ge position (middle left right) with low | high
        · exact lower position above low
        · exact upper position high below
    | mixed => exact wide
    | lease index =>
        intro position above below
        rcases Nat.lt_or_ge position (middle left right) with low | high
        · exact lower position above low
        · exact upper position high below
  · rw [if_neg same]
    exact wide

theorem shows_of_represents {fuel node left right : Nat} {tree : OwnerTree}
    {owners : Nat → Option Nat} (nonempty : left < right)
    (represents : Represents tree owners fuel node left right) :
    Shows (tree.owner node) owners left right := by
  cases fuel with
  | zero => exact absurd nonempty (not_lt.mpr represents)
  | succ fuel => exact represents.1

/-- An assignment gives the lease the asked positions, keeps the others, and
touches nothing outside the node. -/
theorem assign_spec
    (start finish lease fuel : Nat) (tree : OwnerTree) (node : Nat)
    {left right : Nat} {owners : Nat → Option Nat}
    (root : 1 ≤ node)
    (enough : right - left ≤ fuel)
    (represents : Represents tree owners fuel node left right) :
    Represents (assign start finish (.lease lease) fuel tree node left right)
        (taken owners start finish lease) fuel node left right ∧
      AgreeOutside node tree
        (assign start finish (.lease lease) fuel tree node left right) := by
  induction fuel generalizing tree node left right with
  | zero => exact ⟨represents, AgreeOutside.refl _ _⟩
  | succ fuel ih =>
      rw [assign]
      by_cases outside : finish ≤ left ∨ right ≤ start
      · rw [if_pos outside]
        refine ⟨represents.congr_owners fun position lower upper => ?_,
          AgreeOutside.refl _ _⟩
        exact (if_neg (by omega)).symm
      rw [if_neg outside]
      by_cases whole : (start ≤ left ∧ right ≤ finish) ∨ right - left = 1
      · rw [if_pos whole]
        constructor
        · apply represents_of_pending (fun _ => Nat.succ_pos fuel) (by
            simp [OwnerTree.mark]) (by simp : Owner.lease lease ≠ .mixed)
          intro position lower upper
          exact if_pos (by omega)
        · intro member apart
          have other : member ≠ node := fun equal =>
            apart (equal ▸ Below.refl node)
          simp [OwnerTree.mark, other]
      rw [if_neg whole]
      have wide : 2 ≤ right - left := by omega
      have bounds := middle_bounds wide
      obtain ⟨ownerEq, settled, lowerShown, upperShown, outer⟩ :=
        push_spec root wide enough represents
      obtain ⟨lower, lowerOutside⟩ := ih (push tree node) (node * 2) (by omega)
        (by omega) lowerShown
      set below := assign start finish (.lease lease) fuel (push tree node)
        (node * 2) left (middle left right)
      obtain ⟨upper, upperOutside⟩ := ih below (node * 2 + 1) (by omega) (by omega)
        (upperShown.congr ((AgreeOutside.sibling root).1 lowerOutside))
      set above := assign start finish (.lease lease) fuel below (node * 2 + 1)
        (middle left right) right
      have here := not_below_child root
      have lower := lower.congr ((AgreeOutside.sibling root).2 upperOutside)
      -- Renaming the node's own owner changes nothing below it.
      have renamed : ∀ child owner, ¬ Below child node → AgreeBelow child above
          { above with owner := Function.update above.owner node owner } := by
        intro child owner apart member inside
        have other : member ≠ node := fun equal => apart (equal ▸ inside)
        simp [other]
      constructor
      · apply represents_of_children
        · simp only [Function.update_self]
          exact shows_of_halves wide (shows_of_represents bounds.1 lower)
            (shows_of_represents bounds.2 upper)
        · show above.pending node = none
          rw [← (upperOutside node here.2).2, ← (lowerOutside node here.1).2]
          exact settled
        · exact lower.congr (renamed _ _ here.1)
        · exact upper.congr (renamed _ _ here.2)
      · refine (outer.trans ((lowerOutside.of_child fun _ => Below.of_left).trans
          (upperOutside.of_child fun _ => Below.of_right))).trans ?_
        intro member apart
        have other : member ≠ node := fun equal =>
          apart (equal ▸ Below.refl node)
        exact ⟨(Function.update_of_ne other _ _).symm, rfl⟩

end ShadowSpill.Planner.ReuseOwners
