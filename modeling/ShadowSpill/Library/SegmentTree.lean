import Mathlib

/-!
# Walks over a heap-numbered segment tree

A segment tree over `[0, length)` numbers its root `1` and the halves of node
`n` as `n * 2` and `n * 2 + 1`.  Inserting an interval walks from the root and
stops at the nodes that the interval covers.  Looking an interval up visits
every node it meets, or, in the shortened walk, stops at the nodes inside it
and answers for their whole subtrees at once.

The walks are lists of node numbers here, whatever the nodes hold.
`visible_iff` says that the shortened walk misses nothing and invents nothing
for a nonempty interval, and `recorded_of_common` that two intervals with a
common point meet at some node.
-/

namespace ShadowSpill.Library.SegmentTree

/-- Where a node's interval is halved. -/
def middle (left right : Nat) : Nat :=
  left + (right - left) / 2

/-- Continue a walk into the halves that `[start, finish)` reaches into. -/
def halves
    (walk : Nat → Nat → Nat → List Nat)
    (node left right start finish : Nat) : List Nat :=
  (if start < middle left right then
    walk (node * 2) left (middle left right)
  else []) ++
  (if middle left right < finish then
    walk (node * 2 + 1) (middle left right) right
  else [])

@[simp]
theorem mem_halves
    {walk : Nat → Nat → Nat → List Nat}
    {node left right start finish member : Nat} :
    member ∈ halves walk node left right start finish ↔
      (start < middle left right ∧
          member ∈ walk (node * 2) left (middle left right)) ∨
        (middle left right < finish ∧
          member ∈ walk (node * 2 + 1) (middle left right) right) := by
  unfold halves
  split_ifs <;> simp_all

/-- Nodes at which an insertion of `[start, finish)` records its item. -/
def coverNodes (start finish : Nat) : Nat → Nat → Nat → Nat → List Nat
  | 0, _, _, _ => []
  | fuel + 1, node, left, right =>
      if start ≤ left ∧ right ≤ finish then [node]
      else halves (coverNodes start finish fuel) node left right start finish

/-- Nodes an insertion of `[start, finish)` walks through, covers included. -/
def insertPath (start finish : Nat) : Nat → Nat → Nat → Nat → List Nat
  | 0, _, _, _ => []
  | fuel + 1, node, left, right =>
      node ::
        if start ≤ left ∧ right ≤ finish then []
        else halves (insertPath start finish fuel) node left right start finish

/-- Nodes a full lookup of `[start, finish)` visits. -/
def queryNodes (start finish : Nat) : Nat → Nat → Nat → Nat → List Nat
  | 0, _, _, _ => []
  | fuel + 1, node, left, right =>
      if finish ≤ left ∨ right ≤ start then []
      else
        node ::
          if right - left = 1 then []
          else halves (queryNodes start finish fuel) node left right start finish

/-- Nodes at which the shortened lookup stops: those inside the interval. -/
def queryInside (start finish : Nat) : Nat → Nat → Nat → Nat → List Nat
  | 0, _, _, _ => []
  | fuel + 1, node, left, right =>
      if finish ≤ left ∨ right ≤ start then []
      else if start ≤ left ∧ right ≤ finish then [node]
      else if right - left = 1 then []
      else halves (queryInside start finish fuel) node left right start finish

/-- Nodes the shortened lookup only crosses. -/
def queryCross (start finish : Nat) : Nat → Nat → Nat → Nat → List Nat
  | 0, _, _, _ => []
  | fuel + 1, node, left, right =>
      if finish ≤ left ∨ right ≤ start then []
      else if start ≤ left ∧ right ≤ finish then []
      else
        node ::
          if right - left = 1 then []
          else halves (queryCross start finish fuel) node left right start finish

/-- The intervals an insertion walk can be at a node with: those that
reach into the node, and the empty ones that lie in it. -/
def Enters (start finish left right : Nat) : Prop :=
  (start < finish ∧ left < right ∧ start < right ∧ left < finish) ∨
    (start = finish ∧ left ≤ start ∧ start < right)

theorem Enters.halves
    {start finish left right : Nat}
    (enters : Enters start finish left right)
    (uncovered : ¬ (start ≤ left ∧ right ≤ finish)) :
    (start < middle left right →
        Enters start finish left (middle left right) ∧
          middle left right - left < right - left) ∧
      (middle left right < finish →
        Enters start finish (middle left right) right ∧
          right - middle left right < right - left) := by
  unfold Enters at *
  unfold middle
  omega

/-! ## Subtrees -/

/-- `descendant` lies in the subtree rooted at `node`. -/
def Below (node descendant : Nat) : Prop :=
  ∃ depth, descendant / 2 ^ depth = node

theorem Below.refl (node : Nat) : Below node node :=
  ⟨0, by simp⟩

theorem Below.of_left {node descendant : Nat}
    (below : Below (node * 2) descendant) : Below node descendant := by
  obtain ⟨depth, equal⟩ := below
  exact ⟨depth + 1, by rw [pow_succ, ← Nat.div_div_eq_div_mul, equal]; omega⟩

theorem Below.of_right {node descendant : Nat}
    (below : Below (node * 2 + 1) descendant) : Below node descendant := by
  obtain ⟨depth, equal⟩ := below
  exact ⟨depth + 1, by rw [pow_succ, ← Nat.div_div_eq_div_mul, equal]; omega⟩

theorem Below.le {node descendant : Nat}
    (below : Below node descendant) : node ≤ descendant := by
  obtain ⟨depth, rfl⟩ := below
  exact Nat.div_le_self _ _

/-- The two subtrees of a node share no node. -/
theorem Below.not_both {node descendant : Nat}
    (root : 1 ≤ node)
    (left : Below (node * 2) descendant)
    (right : Below (node * 2 + 1) descendant) : False := by
  obtain ⟨leftDepth, leftEqual⟩ := left
  obtain ⟨rightDepth, rightEqual⟩ := right
  -- The root of the shallower subtree would be a quotient of the other root.
  rcases Nat.lt_trichotomy leftDepth rightDepth with less | equal | more
  · obtain ⟨extra, rfl⟩ := Nat.exists_eq_add_of_lt less
    rw [show leftDepth + extra + 1 = leftDepth + (extra + 1) by omega, pow_add,
      ← Nat.div_div_eq_div_mul, leftEqual] at rightEqual
    have bound := Nat.div_le_self (node * 2) (2 ^ (extra + 1))
    omega
  · subst equal
    omega
  · obtain ⟨extra, rfl⟩ := Nat.exists_eq_add_of_lt more
    rw [show rightDepth + extra + 1 = rightDepth + (extra + 1) by omega, pow_add,
      ← Nat.div_div_eq_div_mul, rightEqual, pow_succ,
      Nat.mul_comm (2 ^ extra) 2, ← Nat.div_div_eq_div_mul] at leftEqual
    have bound := Nat.div_le_self ((node * 2 + 1) / 2) (2 ^ extra)
    omega

theorem below_of_mem_halves
    {walk : Nat → Nat → Nat → List Nat}
    {node left right start finish member : Nat}
    (inside :
      ∀ child lower upper, member ∈ walk child lower upper → Below child member)
    (mem : member ∈ halves walk node left right start finish) :
    Below node member := by
  rw [mem_halves] at mem
  rcases mem with ⟨_, mem⟩ | ⟨_, mem⟩
  · exact (inside _ _ _ mem).of_left
  · exact (inside _ _ _ mem).of_right

theorem below_of_mem_coverNodes
    {start finish fuel node left right member : Nat}
    (mem : member ∈ coverNodes start finish fuel node left right) :
    Below node member := by
  induction fuel generalizing node left right with
  | zero => simp [coverNodes] at mem
  | succ fuel ih =>
      rw [coverNodes] at mem
      split_ifs at mem
      · exact List.mem_singleton.mp mem ▸ Below.refl node
      · exact below_of_mem_halves (fun _ _ _ => ih) mem

theorem below_of_mem_insertPath
    {start finish fuel node left right member : Nat}
    (mem : member ∈ insertPath start finish fuel node left right) :
    Below node member := by
  induction fuel generalizing node left right with
  | zero => simp [insertPath] at mem
  | succ fuel ih =>
      rw [insertPath, List.mem_cons] at mem
      rcases mem with rfl | mem
      · exact Below.refl _
      · split_ifs at mem
        · simp at mem
        · exact below_of_mem_halves (fun _ _ _ => ih) mem

theorem below_of_mem_queryNodes
    {start finish fuel node left right member : Nat}
    (mem : member ∈ queryNodes start finish fuel node left right) :
    Below node member := by
  induction fuel generalizing node left right with
  | zero => simp [queryNodes] at mem
  | succ fuel ih =>
      rw [queryNodes] at mem
      split_ifs at mem
      · simp at mem
      · exact List.mem_singleton.mp mem ▸ Below.refl node
      · rcases List.mem_cons.mp mem with rfl | mem
        · exact Below.refl _
        · exact below_of_mem_halves (fun _ _ _ => ih) mem

theorem below_of_mem_queryInside
    {start finish fuel node left right member : Nat}
    (mem : member ∈ queryInside start finish fuel node left right) :
    Below node member := by
  induction fuel generalizing node left right with
  | zero => simp [queryInside] at mem
  | succ fuel ih =>
      rw [queryInside] at mem
      split_ifs at mem
      · simp at mem
      · exact List.mem_singleton.mp mem ▸ Below.refl node
      · simp at mem
      · exact below_of_mem_halves (fun _ _ _ => ih) mem

theorem below_of_mem_queryCross
    {start finish fuel node left right member : Nat}
    (mem : member ∈ queryCross start finish fuel node left right) :
    Below node member := by
  induction fuel generalizing node left right with
  | zero => simp [queryCross] at mem
  | succ fuel ih =>
      rw [queryCross] at mem
      split_ifs at mem
      · simp at mem
      · simp at mem
      · exact List.mem_singleton.mp mem ▸ Below.refl node
      · rcases List.mem_cons.mp mem with rfl | mem
        · exact Below.refl _
        · exact below_of_mem_halves (fun _ _ _ => ih) mem

/-- A walk that stays in the subtrees it is started in. -/
def Descends (walk : Nat → Nat → Nat → List Nat) : Prop :=
  ∀ node left right member, member ∈ walk node left right → Below node member

theorem Descends.not_mem_halves
    {walk : Nat → Nat → Nat → List Nat} (descends : Descends walk)
    {node left right start finish : Nat} (root : 1 ≤ node) :
    node ∉ halves walk node left right start finish := by
  intro mem
  rcases mem_halves.mp mem with ⟨_, mem⟩ | ⟨_, mem⟩
  · have bound := (descends _ _ _ _ mem).le
    omega
  · have bound := (descends _ _ _ _ mem).le
    omega

/-- Two walks that continue into the halves of one node meet in the same half. -/
theorem exists_mem_halves
    {first second : Nat → Nat → Nat → List Nat}
    (firstDescends : Descends first) (secondDescends : Descends second)
    {node left right start finish start' finish' : Nat} (root : 1 ≤ node) :
    (∃ member ∈ halves first node left right start finish,
        member ∈ halves second node left right start' finish') ↔
      (start < middle left right ∧ start' < middle left right ∧
          ∃ member ∈ first (node * 2) left (middle left right),
            member ∈ second (node * 2) left (middle left right)) ∨
        (middle left right < finish ∧ middle left right < finish' ∧
          ∃ member ∈ first (node * 2 + 1) (middle left right) right,
            member ∈ second (node * 2 + 1) (middle left right) right) := by
  constructor
  · rintro ⟨member, one, two⟩
    rcases mem_halves.mp one with ⟨lower, one⟩ | ⟨upper, one⟩ <;>
      rcases mem_halves.mp two with ⟨lower', two⟩ | ⟨upper', two⟩
    · exact Or.inl ⟨lower, lower', member, one, two⟩
    · exact (Below.not_both root (firstDescends _ _ _ _ one)
        (secondDescends _ _ _ _ two)).elim
    · exact (Below.not_both root (secondDescends _ _ _ _ two)
        (firstDescends _ _ _ _ one)).elim
    · exact Or.inr ⟨upper, upper', member, one, two⟩
  · rintro (⟨lower, lower', member, one, two⟩ | ⟨upper, upper', member, one, two⟩)
    · exact ⟨member, mem_halves.mpr (Or.inl ⟨lower, one⟩),
        mem_halves.mpr (Or.inl ⟨lower', two⟩)⟩
    · exact ⟨member, mem_halves.mpr (Or.inr ⟨upper, one⟩),
        mem_halves.mpr (Or.inr ⟨upper', two⟩)⟩

theorem exists_mem_cons_halves
    {first second : Nat → Nat → Nat → List Nat}
    (secondDescends : Descends second)
    {node left right start finish start' finish' : Nat} (root : 1 ≤ node) :
    (∃ member ∈ node :: halves first node left right start finish,
        member ∈ halves second node left right start' finish') ↔
      ∃ member ∈ halves first node left right start finish,
        member ∈ halves second node left right start' finish' := by
  constructor
  · rintro ⟨member, one, two⟩
    rcases List.mem_cons.mp one with rfl | one
    · exact (secondDescends.not_mem_halves root two).elim
    · exact ⟨member, one, two⟩
  · rintro ⟨member, one, two⟩
    exact ⟨member, List.mem_cons_of_mem _ one, two⟩

/-! ## What a lookup sees of an insertion -/

section Visibility

/-- The item of an inserted interval is at a node the full lookup visits. -/
def Recorded (fuel node left right start finish first last : Nat) : Prop :=
  ∃ member ∈ queryNodes start finish fuel node left right,
    member ∈ coverNodes first last fuel node left right

/-- The shortened lookup reads a node that answers for the inserted interval:
one it crosses, by what is recorded there, or one inside it, by everything
inserted through it. -/
def Seen (fuel node left right start finish first last : Nat) : Prop :=
  (∃ member ∈ queryCross start finish fuel node left right,
      member ∈ coverNodes first last fuel node left right) ∨
    ∃ member ∈ queryInside start finish fuel node left right,
      member ∈ insertPath first last fuel node left right

variable {start finish first last fuel node left right : Nat}

theorem middle_bounds {left right : Nat} (wide : 2 ≤ right - left) :
    left < middle left right ∧ middle left right < right := by
  unfold middle
  omega

/-- An empty interval is recorded at no node. -/
theorem coverNodes_empty
    (bounds : left ≤ first ∧ first < right) :
    coverNodes first first fuel node left right = [] := by
  induction fuel generalizing node left right with
  | zero => rfl
  | succ fuel ih =>
      rw [coverNodes, if_neg (by omega), List.eq_nil_iff_forall_not_mem]
      intro member mem
      rcases mem_halves.mp mem with ⟨lower, mem⟩ | ⟨upper, mem⟩
      · simp [ih ⟨bounds.1, lower⟩] at mem
      · simp [ih ⟨upper.le, bounds.2⟩] at mem

/-- Intervals with a common point inside the tree meet at a node. -/
theorem recorded_of_common
    (point : Nat)
    (inTree : left ≤ point ∧ point < right)
    (inQuery : start ≤ point ∧ point < finish)
    (inItem : first ≤ point ∧ point < last)
    (enough : right - left ≤ fuel) :
    Recorded fuel node left right start finish first last := by
  induction fuel generalizing node left right with
  | zero => omega
  | succ fuel ih =>
      unfold Recorded
      rw [queryNodes, if_neg (by omega), coverNodes]
      by_cases covered : first ≤ left ∧ right ≤ last
      · exact ⟨node, by simp, by simp [covered]⟩
      · have wide : 2 ≤ right - left := by omega
        have bounds := middle_bounds wide
        rw [if_neg covered, if_neg (by omega)]
        by_cases lower : point < middle left right
        · obtain ⟨member, visited, recorded⟩ :=
            @ih (node * 2) left (middle left right)
              (by omega) (by omega)
          exact ⟨member,
            List.mem_cons_of_mem _ (mem_halves.mpr (Or.inl ⟨by omega, visited⟩)),
            mem_halves.mpr (Or.inl ⟨by omega, recorded⟩)⟩
        · obtain ⟨member, visited, recorded⟩ :=
            @ih (node * 2 + 1) (middle left right) right
              (by omega) (by omega)
          exact ⟨member,
            List.mem_cons_of_mem _ (mem_halves.mpr (Or.inr ⟨by omega, visited⟩)),
            mem_halves.mpr (Or.inr ⟨by omega, recorded⟩)⟩

/-- For a nonempty inserted interval the shortened lookup sees exactly what
the full lookup finds. -/
theorem visible_iff
    (root : 1 ≤ node)
    (nonempty : first < last)
    (overlap : left < right ∧ first < right ∧ left < last)
    (enough : right - left ≤ fuel) :
    Seen fuel node left right start finish first last ↔
      Recorded fuel node left right start finish first last := by
  induction fuel generalizing node left right with
  | zero => omega
  | succ fuel ih =>
      by_cases outside : finish ≤ left ∨ right ≤ start
      · simp [Seen, Recorded, queryCross, queryInside, queryNodes, outside]
      by_cases inside : start ≤ left ∧ right ≤ finish
      · have seen : Seen (fuel + 1) node left right start finish first last := by
          refine Or.inr ⟨node, ?_, ?_⟩
          · simp [queryInside, outside, inside]
          · simp [insertPath]
        exact iff_of_true seen
          (recorded_of_common (max left first) (by omega) (by omega) (by omega) enough)
      by_cases covered : first ≤ left ∧ right ≤ last
      · have recorded :
            node ∈ coverNodes first last (fuel + 1) node left right := by
          simp [coverNodes, covered]
        refine iff_of_true (Or.inl ⟨node, ?_, recorded⟩) ⟨node, ?_, recorded⟩
        · simp [queryCross, outside, inside]
        · simp [queryNodes, outside]
      -- The insertion and the lookup both continue into the halves.
      have wide : 2 ≤ right - left := by omega
      have bounds := middle_bounds wide
      have lowerIff := fun (lower : first < middle left right) =>
        @ih (node * 2) left (middle left right)
          (by omega) (by omega) (by omega)
      have upperIff := fun (upper : middle left right < last) =>
        @ih (node * 2 + 1) (middle left right) right
          (by omega) (by omega) (by omega)
      have leaf : ¬ right - left = 1 := by omega
      have coverDescends : Descends (coverNodes first last fuel) :=
        fun _ _ _ _ => below_of_mem_coverNodes
      have pathDescends : Descends (insertPath first last fuel) :=
        fun _ _ _ _ => below_of_mem_insertPath
      have insideDescends : Descends (queryInside start finish fuel) :=
        fun _ _ _ _ => below_of_mem_queryInside
      have crossDescends : Descends (queryCross start finish fuel) :=
        fun _ _ _ _ => below_of_mem_queryCross
      have nodesDescends : Descends (queryNodes start finish fuel) :=
        fun _ _ _ _ => below_of_mem_queryNodes
      have swap :
          (∃ member ∈ halves (queryInside start finish fuel) node left right
              start finish,
            member ∈ node :: halves (insertPath first last fuel) node left right
              first last) ↔
            ∃ member ∈ halves (queryInside start finish fuel) node left right
                start finish,
              member ∈ halves (insertPath first last fuel) node left right
                first last := by
        constructor
        · rintro ⟨member, one, two⟩
          rcases List.mem_cons.mp two with rfl | two
          · exact (insideDescends.not_mem_halves root one).elim
          · exact ⟨member, one, two⟩
        · rintro ⟨member, one, two⟩
          exact ⟨member, one, List.mem_cons_of_mem _ two⟩
      simp only [Seen, Recorded] at lowerIff upperIff
      simp only [Seen, Recorded, queryCross, queryInside, queryNodes, coverNodes,
        insertPath, outside, inside, covered, leaf, if_false]
      rw [exists_mem_cons_halves coverDescends root,
        exists_mem_cons_halves coverDescends root, swap,
        exists_mem_halves crossDescends coverDescends root,
        exists_mem_halves insideDescends pathDescends root,
        exists_mem_halves nodesDescends coverDescends root]
      constructor
      · rintro ((⟨a, b, h⟩ | ⟨a, b, h⟩) | (⟨a, b, h⟩ | ⟨a, b, h⟩))
        · exact Or.inl ⟨a, b, (lowerIff b).mp (Or.inl h)⟩
        · exact Or.inr ⟨a, b, (upperIff b).mp (Or.inl h)⟩
        · exact Or.inl ⟨a, b, (lowerIff b).mp (Or.inr h)⟩
        · exact Or.inr ⟨a, b, (upperIff b).mp (Or.inr h)⟩
      · rintro (⟨a, b, h⟩ | ⟨a, b, h⟩)
        · rcases (lowerIff b).mpr h with h | h
          · exact Or.inl (Or.inl ⟨a, b, h⟩)
          · exact Or.inr (Or.inl ⟨a, b, h⟩)
        · rcases (upperIff b).mpr h with h | h
          · exact Or.inl (Or.inr ⟨a, b, h⟩)
          · exact Or.inr (Or.inr ⟨a, b, h⟩)

end Visibility

end ShadowSpill.Library.SegmentTree
