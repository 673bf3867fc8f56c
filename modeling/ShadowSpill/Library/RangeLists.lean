import ShadowSpill.Library.AddressRanges

/-!
# Canonical lists of address ranges

A set of addresses kept as a list of ranges has one canonical form: nonempty
ranges in ascending order with a gap between neighbours.  Taking a piece out of
one range and putting a clear range back both stay canonical.  What the list
means is `Covers`, so every fact about an operation is stated address by
address.
-/

namespace ShadowSpill.Library.RangeLists

open AddressRanges

/-- Nonempty ranges in ascending order with a gap between neighbours. -/
structure Canonical (ranges : List AddressRange) : Prop where
  nonempty : ∀ range ∈ ranges, range.start < range.finish
  apart : ranges.Pairwise fun first second => first.finish < second.start

@[simp]
theorem canonical_nil : Canonical [] :=
  ⟨by simp, List.Pairwise.nil⟩

@[simp]
theorem canonical_singleton (range : AddressRange) :
    Canonical [range] ↔ range.start < range.finish := by
  constructor
  · intro canonical
    exact canonical.nonempty range (by simp)
  · intro nonempty
    exact ⟨by simpa using nonempty, List.pairwise_singleton _ _⟩

theorem canonical_append {first second : List AddressRange} :
    Canonical (first ++ second) ↔
      Canonical first ∧ Canonical second ∧
        ∀ lower ∈ first, ∀ upper ∈ second, lower.finish < upper.start := by
  constructor
  · intro canonical
    have apart := List.pairwise_append.1 canonical.apart
    refine ⟨⟨?_, apart.1⟩, ⟨?_, apart.2.1⟩, apart.2.2⟩
    · intro range mem
      exact canonical.nonempty range (List.mem_append_left _ mem)
    · intro range mem
      exact canonical.nonempty range (List.mem_append_right _ mem)
  · rintro ⟨left, right, across⟩
    constructor
    · intro range mem
      rcases List.mem_append.1 mem with mem | mem
      · exact left.nonempty range mem
      · exact right.nonempty range mem
    · exact List.pairwise_append.2 ⟨left.apart, right.apart, across⟩

theorem canonical_cons {range : AddressRange} {ranges : List AddressRange} :
    Canonical (range :: ranges) ↔
      range.start < range.finish ∧ Canonical ranges ∧
        ∀ upper ∈ ranges, range.finish < upper.start := by
  rw [← List.singleton_append, canonical_append]
  simp

/-- A range of a canonical list may be replaced by canonical pieces of it. -/
theorem Canonical.replace
    {before after pieces : List AddressRange} {range : AddressRange}
    (canonical : Canonical (before ++ range :: after))
    (split : Canonical pieces)
    (within : ∀ piece ∈ pieces,
      range.start ≤ piece.start ∧ piece.finish ≤ range.finish) :
    Canonical (before ++ pieces ++ after) := by
  rw [canonical_append, canonical_cons] at canonical
  obtain ⟨lower, ⟨_, upper, above⟩, across⟩ := canonical
  rw [List.append_assoc, canonical_append, canonical_append]
  refine ⟨lower, ⟨split, upper, ?_⟩, ?_⟩
  · intro piece pieceMem other mem
    have step := above other mem
    have bound := (within piece pieceMem).2
    omega
  · intro other mem piece pieceMem
    rcases List.mem_append.1 pieceMem with pieceMem | pieceMem
    · have step := across other mem range (by simp)
      have bound := (within piece pieceMem).1
      omega
    · exact across other mem piece (by simp [pieceMem])

/-- No address lies in two ranges of a canonical list. -/
theorem Canonical.exclusive
    {before after : List AddressRange} {range : AddressRange} {address : Nat}
    (canonical : Canonical (before ++ range :: after))
    (holds : range.Contains address) :
    ¬ Covers before address ∧ ¬ Covers after address := by
  rw [canonical_append, canonical_cons] at canonical
  obtain ⟨_, ⟨_, _, above⟩, across⟩ := canonical
  obtain ⟨lower, upper⟩ := holds
  constructor
  · rintro ⟨other, mem, bound, bound'⟩
    have step := across other mem range (by simp)
    omega
  · rintro ⟨other, mem, bound, bound'⟩
    have step := above other mem
    omega

/-! ## Runs of addresses

A run is a stretch of covered addresses.  In a canonical list it lies in one
range, because the address after a range is never covered. -/

/-! ## Counting -/

/-- Between two neighbouring ranges lies an address of something else, so the
ranges of a canonical list outnumber the ranges that fill their gaps by at most
one.  Only addresses above the first range need filling. -/
theorem Canonical.length_le
    {ranges others : List AddressRange} {capacity : Nat}
    (canonical : Canonical ranges)
    (bounded : ∀ range ∈ ranges, range.finish ≤ capacity)
    (clear : ∀ address, Covers ranges address → ¬ Covers others address)
    (fills : ∀ address, address < capacity →
      (∃ range ∈ ranges, range.start ≤ address) →
        Covers ranges address ∨ Covers others address) :
    ranges.length ≤ others.length + 1 := by
  induction ranges generalizing others with
  | nil => simp
  | cons range ranges ih =>
      rcases ranges with _ | ⟨next, rest⟩
      · simp
      · rw [canonical_cons] at canonical
        obtain ⟨nonempty, tail, above⟩ := canonical
        have gap := above next (by simp)
        have nextNonempty := tail.nonempty next (by simp)
        have nextBound := bounded next (by simp)
        have rises : ∀ other ∈ next :: rest, next.start ≤ other.start := by
          intro other mem
          rcases List.mem_cons.1 mem with rfl | mem
          · exact le_rfl
          · have step := (canonical_cons.1 tail).2.2 other mem
            omega
        -- Some other range holds the address after the first one.
        have held : Covers others range.finish := by
          rcases fills range.finish (by omega)
            ⟨range, by simp, by omega⟩ with inside | outside
          · obtain ⟨other, mem, lower, upper⟩ := inside
            rcases List.mem_cons.1 mem with rfl | mem
            · omega
            · have step := above other mem
              omega
          · exact outside
        obtain ⟨filler, fillerMem, lower, upper⟩ := held
        -- It ends before the next range begins, so the rest needs no filler.
        have ends : filler.finish ≤ next.start := by
          by_contra longer
          exact clear next.start
            ⟨next, by simp, le_rfl, nextNonempty⟩
            ⟨filler, fillerMem, by omega, by omega⟩
        have step := @ih (others.erase filler) tail
          (fun other mem => bounded other (by simp [mem]))
          (fun address covered ⟨other, mem, holds⟩ =>
            clear address ((covers_cons _ _ _).2 (Or.inr covered))
              ⟨other, List.mem_of_mem_erase mem, holds⟩)
          (by
            rintro address bound ⟨reached, mem, below⟩
            have past : next.start ≤ address :=
              le_trans (rises reached mem) below
            rcases fills address bound ⟨next, by simp, past⟩ with inside | outside
            · left
              rcases (covers_cons _ _ _).1 inside with inside | inside
              · obtain ⟨_, short⟩ := inside
                omega
              · exact inside
            · right
              obtain ⟨other, mem, holds⟩ := outside
              refine ⟨other, ?_, holds⟩
              apply (List.mem_erase_of_ne _).2 mem
              rintro rfl
              have short := holds.2
              omega)
        have positive : 0 < others.length := List.length_pos_of_mem fillerMem
        rw [List.length_erase_of_mem fillerMem] at step
        simp only [List.length_cons] at step ⊢
        omega

end ShadowSpill.Library.RangeLists
