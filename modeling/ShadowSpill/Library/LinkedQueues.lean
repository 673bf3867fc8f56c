import Mathlib

/-!
# Intrusive queues

A queue whose elements carry their own links: each element names its
neighbours, and the queue names only its first and last element.  Several
queues can share one set of links as long as no element is in two of them.
-/

namespace ShadowSpill.Library.LinkedQueues

variable {ι : Type}

/-! ## Links and ends -/

/-- The neighbours an element names. -/
structure Links (ι : Type) where
  previous : Option ι := none
  next : Option ι := none
deriving DecidableEq, Repr

attribute [ext] Links

/-- The first and the last element of a queue. -/
structure Ends (ι : Type) where
  head : Option ι := none
  tail : Option ι := none
deriving DecidableEq, Repr

attribute [ext] Ends

/-! ## The list a queue represents -/

/-- Each element of the list names its neighbours in it; `before` stands
before the first one. -/
def Chained (links : ι → Links ι) (before : Option ι) : List ι → Prop
  | [] => True
  | item :: rest =>
    (links item).previous = before ∧
      (links item).next = rest.head? ∧
      Chained links (some item) rest

/-- The queue's links and ends spell out the list. -/
structure Represents (links : ι → Links ι) (ends : Ends ι) (items : List ι) :
    Prop where
  head : ends.head = items.head?
  tail : ends.tail = items.getLast?
  chained : Chained links none items
  nodup : items.Nodup

theorem represents_nil (links : ι → Links ι) : Represents links ⟨none, none⟩ [] :=
  ⟨rfl, rfl, trivial, List.nodup_nil⟩

/-- Links outside the list do not matter. -/
theorem Chained.congr
    {links changed : ι → Links ι} {before : Option ι} {items : List ι}
    (chained : Chained links before items)
    (same : ∀ item ∈ items, changed item = links item) :
    Chained changed before items := by
  induction items generalizing before with
  | nil => trivial
  | cons item rest ih =>
      obtain ⟨previous, next, later⟩ := chained
      have here := same item List.mem_cons_self
      refine ⟨here ▸ previous, here ▸ next, ih later ?_⟩
      intro other member
      exact same other (List.mem_cons_of_mem _ member)

theorem Represents.congr
    {links changed : ι → Links ι} {ends : Ends ι} {items : List ι}
    (represents : Represents links ends items)
    (same : ∀ item ∈ items, changed item = links item) :
    Represents changed ends items :=
  { represents with chained := represents.chained.congr same }

/-- Behind the last element of a chain another one can be linked. -/
theorem Chained.append
    {links changed : ι → Links ι} {before : Option ι}
    {items : List ι} {last item : ι}
    (chained : Chained links before (items ++ [last]))
    (nodup : (items ++ [last]).Nodup) (fresh : item ∉ items ++ [last])
    (inner : ∀ other ∈ items, changed other = links other)
    (atLast : changed last = { links last with next := some item })
    (atItem : changed item = ⟨some last, none⟩) :
    Chained changed before (items ++ [last, item]) := by
  induction items generalizing before with
  | nil =>
      obtain ⟨previous, -, -⟩ := chained
      simp only [List.nil_append]
      refine ⟨?_, ?_, ?_, ?_, trivial⟩
      · rw [atLast]
        exact previous
      · rw [atLast]
        rfl
      · rw [atItem]
      · rw [atItem]
        rfl
  | cons first rest ih =>
      obtain ⟨previous, next, later⟩ := chained
      have here := inner first List.mem_cons_self
      refine ⟨here ▸ previous, ?_, ?_⟩
      · rw [here, next]
        cases rest <;> rfl
      · apply ih later
        · exact (List.nodup_cons.mp nodup).2
        · intro member
          exact fresh (List.mem_cons_of_mem _ member)
        · intro other member
          exact inner other (List.mem_cons_of_mem _ member)

/-! ## The operations -/

variable [DecidableEq ι]

/-- Put an element behind the last one. -/
def pushBack (links : ι → Links ι) (ends : Ends ι) (item : ι) :
    (ι → Links ι) × Ends ι :=
  let linked := Function.update links item ⟨ends.tail, none⟩
  match ends.tail with
  | none => (linked, ⟨some item, some item⟩)
  | some last =>
    (Function.update linked last { linked last with next := some item },
      ⟨ends.head, some item⟩)

/-- Put an element before the first one. -/
def pushFront (links : ι → Links ι) (ends : Ends ι) (item : ι) :
    (ι → Links ι) × Ends ι :=
  let linked := Function.update links item ⟨none, ends.head⟩
  match ends.head with
  | none => (linked, ⟨some item, some item⟩)
  | some first =>
    (Function.update linked first { linked first with previous := some item },
      ⟨some item, ends.tail⟩)

/-- Take the first element, `item`, out of the queue. -/
def popFront (links : ι → Links ι) (ends : Ends ι) (item : ι) :
    (ι → Links ι) × Ends ι :=
  match (links item).next with
  | none => (Function.update links item ⟨none, none⟩, ⟨none, none⟩)
  | some second =>
    let linked :=
      Function.update links second { links second with previous := none }
    (Function.update linked item ⟨none, none⟩, ⟨some second, ends.tail⟩)

/-! ## What the operations do -/

/-- An element put behind the last one ends the list. -/
theorem Represents.pushBack
    {links : ι → Links ι} {ends : Ends ι} {items : List ι} {item : ι}
    (represents : Represents links ends items) (fresh : item ∉ items) :
    Represents (pushBack links ends item).1 (pushBack links ends item).2
      (items ++ [item]) := by
  have nodup : (items ++ [item]).Nodup := by
    rw [List.nodup_append]
    refine ⟨represents.nodup, List.nodup_singleton _, ?_⟩
    intro other member another isItem
    rw [List.mem_singleton.mp isItem]
    exact fun same => fresh (same ▸ member)
  rcases items.eq_nil_or_concat with empty | ⟨front, last, split⟩
  · subst empty
    have noTail : ends.tail = none := represents.tail
    refine ⟨?_, ?_, ?_, nodup⟩ <;>
      simp [LinkedQueues.pushBack, noTail, Chained]
  · have isLast : ends.tail = some last := by
      rw [represents.tail, split]
      simp
    subst split
    have apart : last ≠ item := fun same => fresh (by simp [same])
    have headed : ends.head = (front ++ [last]).head? := by
      simpa using represents.head
    have chained : Chained links none (front ++ [last]) := by
      simpa using represents.chained
    have distinct : (front ++ [last]).Nodup := by
      simpa using represents.nodup
    have absent : item ∉ front ++ [last] := by
      simpa using fresh
    constructor
    · simp only [LinkedQueues.pushBack, isLast]
      rw [headed]
      cases front <;> simp
    · simp [LinkedQueues.pushBack, isLast]
    · simp only [LinkedQueues.pushBack, isLast, List.concat_eq_append,
        List.append_assoc, List.singleton_append]
      apply chained.append distinct absent
      · intro other member
        have notLast : other ≠ last := by
          rintro rfl
          rw [List.nodup_append] at distinct
          exact distinct.2.2 other member other List.mem_cons_self rfl
        have notItem : other ≠ item := by
          rintro rfl
          exact absent (List.mem_append_left _ member)
        rw [Function.update_of_ne notLast, Function.update_of_ne notItem]
      · rw [Function.update_self, Function.update_of_ne apart]
      · rw [Function.update_of_ne apart.symm, Function.update_self]
    · exact nodup

/-- An element put before the first one starts the list. -/
theorem Represents.pushFront
    {links : ι → Links ι} {ends : Ends ι} {items : List ι} {item : ι}
    (represents : Represents links ends items) (fresh : item ∉ items) :
    Represents (pushFront links ends item).1 (pushFront links ends item).2
      (item :: items) := by
  have nodup : (item :: items).Nodup := List.nodup_cons.mpr ⟨fresh, represents.nodup⟩
  cases items with
  | nil =>
      have noHead : ends.head = none := represents.head
      refine ⟨?_, ?_, ?_, nodup⟩ <;>
        simp [LinkedQueues.pushFront, noHead, Chained]
  | cons first rest =>
      have headed : ends.head = some first := represents.head
      have apart : first ≠ item := fun same => fresh (by simp [same])
      obtain ⟨-, next, later⟩ := represents.chained
      refine ⟨?_, ?_, ?_, nodup⟩
      · simp [LinkedQueues.pushFront, headed]
      · simp [LinkedQueues.pushFront, headed, represents.tail]
      · simp only [LinkedQueues.pushFront, headed]
        refine ⟨?_, ?_, ?_, ?_, ?_⟩
        · rw [Function.update_of_ne apart.symm, Function.update_self]
        · rw [Function.update_of_ne apart.symm, Function.update_self]
          rfl
        · rw [Function.update_self]
        · rw [Function.update_self, Function.update_of_ne apart]
          exact next
        · apply later.congr
          intro other member
          have notFirst : other ≠ first := by
            rintro rfl
            exact (List.nodup_cons.mp represents.nodup).1 member
          have notItem : other ≠ item := by
            rintro rfl
            exact fresh (List.mem_cons_of_mem _ member)
          rw [Function.update_of_ne notFirst, Function.update_of_ne notItem]

/-- Taking the first element leaves the rest of the list. -/
theorem Represents.popFront
    {links : ι → Links ι} {ends : Ends ι} {items : List ι} {item : ι}
    (represents : Represents links ends (item :: items)) :
    Represents (popFront links ends item).1 (popFront links ends item).2 items := by
  obtain ⟨-, next, later⟩ := represents.chained
  have fresh := (List.nodup_cons.mp represents.nodup).1
  have nodup := (List.nodup_cons.mp represents.nodup).2
  cases items with
  | nil =>
      have noNext : (links item).next = none := next
      simp only [LinkedQueues.popFront, noNext]
      exact represents_nil _
  | cons second rest =>
      have named : (links item).next = some second := next
      have apart : second ≠ item := fun same => fresh (by simp [same])
      obtain ⟨-, following, tail⟩ := later
      refine ⟨?_, ?_, ?_, nodup⟩
      · simp [LinkedQueues.popFront, named]
      · simp only [LinkedQueues.popFront, named]
        rw [represents.tail]
        simp
      · simp only [LinkedQueues.popFront, named]
        refine ⟨?_, ?_, ?_⟩
        · rw [Function.update_of_ne apart, Function.update_self]
        · rw [Function.update_of_ne apart, Function.update_self]
          exact following
        · apply tail.congr
          intro other member
          have notSecond : other ≠ second := by
            rintro rfl
            exact (List.nodup_cons.mp nodup).1 member
          have notItem : other ≠ item := by
            rintro rfl
            exact fresh (List.mem_cons_of_mem _ member)
          rw [Function.update_of_ne notItem, Function.update_of_ne notSecond]

/-- Putting the first element back undoes taking it. -/
theorem pushFront_popFront
    {links : ι → Links ι} {ends : Ends ι} {items : List ι} {item : ι}
    (represents : Represents links ends (item :: items)) :
    pushFront (popFront links ends item).1 (popFront links ends item).2 item =
      (links, ends) := by
  obtain ⟨previous, next, later⟩ := represents.chained
  have headed : ends.head = some item := represents.head
  cases items with
  | nil =>
      have noNext : (links item).next = none := next
      have ended : ends.tail = some item := represents.tail
      have own : links item = ⟨none, none⟩ := Links.ext previous noNext
      have whole : ends = ⟨some item, some item⟩ := Ends.ext headed ended
      simp only [popFront, noNext, pushFront, Function.update_idem]
      rw [← own, Function.update_eq_self, whole]
  | cons second rest =>
      have named : (links item).next = some second := next
      have before : (links second).previous = some item := later.1
      have apart : second ≠ item := by
        rintro rfl
        exact (List.nodup_cons.mp represents.nodup).1 List.mem_cons_self
      have whole : ends = ⟨some item, ends.tail⟩ := Ends.ext headed rfl
      simp only [popFront, named, pushFront, Function.update_idem]
      rw [Prod.mk.injEq]
      constructor
      · funext other
        by_cases isSecond : other = second
        · subst isSecond
          rw [Function.update_self, Function.update_of_ne apart,
            Function.update_self, ← before]
        · rw [Function.update_of_ne isSecond]
          by_cases isItem : other = item
          · subst isItem
            rw [Function.update_self, ← previous, ← named]
          · rw [Function.update_of_ne isItem, Function.update_of_ne isSecond]
      · exact whole.symm

/-! ## What the operations leave alone -/

theorem pushBack_links_of_ne
    {links : ι → Links ι} {ends : Ends ι} {items : List ι} {item other : ι}
    (represents : Represents links ends items)
    (apart : other ≠ item) (outside : other ∉ items) :
    (pushBack links ends item).1 other = links other := by
  unfold pushBack
  cases last : ends.tail with
  | none => simp [Function.update_of_ne apart]
  | some final =>
      have member : final ∈ items :=
        List.mem_of_getLast? (represents.tail ▸ last)
      have notFinal : other ≠ final := fun same => outside (same ▸ member)
      simp [Function.update_of_ne apart, Function.update_of_ne notFinal]

theorem pushFront_links_of_ne
    {links : ι → Links ι} {ends : Ends ι} {items : List ι} {item other : ι}
    (represents : Represents links ends items)
    (apart : other ≠ item) (outside : other ∉ items) :
    (pushFront links ends item).1 other = links other := by
  unfold pushFront
  cases first : ends.head with
  | none => simp [Function.update_of_ne apart]
  | some initial =>
      have member : initial ∈ items :=
        List.mem_of_head? (represents.head ▸ first)
      have notInitial : other ≠ initial := fun same => outside (same ▸ member)
      simp [Function.update_of_ne apart, Function.update_of_ne notInitial]

theorem popFront_links_of_ne
    {links : ι → Links ι} {ends : Ends ι} {items : List ι} {item other : ι}
    (represents : Represents links ends (item :: items))
    (outside : other ∉ item :: items) :
    (popFront links ends item).1 other = links other := by
  have apart : other ≠ item := fun same => outside (by simp [same])
  have next := represents.chained.2.1
  unfold popFront
  cases second : (links item).next with
  | none => simp [Function.update_of_ne apart]
  | some following =>
      have member : following ∈ items := by
        apply List.mem_of_head?
        exact next ▸ second
      have notFollowing : other ≠ following := by
        rintro rfl
        exact outside (List.mem_cons_of_mem _ member)
      simp [Function.update_of_ne apart, Function.update_of_ne notFollowing]

end ShadowSpill.Library.LinkedQueues
