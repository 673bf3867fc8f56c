import ShadowSpill.Runtime.RangeTiling

/-!
# Runs of allocations and releases

The five policies answer one question: is there a free range that holds the
request, aligned, at an offset the policy accepts.  They answer it exactly, but
for one state: the best-fit scans start from a size of `UINT64_MAX` and look for
a smaller one, so they pass over a pool that is one free range of that size.
-/

namespace ShadowSpill.Runtime.RangeRequests

open Library.AddressRanges Library.RangeLists Library.Word64 Ranges RangePlaces RangeTiling

/-- A request under one of the allocation policies. -/
inductive Request where
  | firstFit (bytes alignment : Nat)
  | bestFitLow (bytes alignment : Nat)
  | bestFitHigh (bytes alignment : Nat)
  | highest (bytes alignment minimumOffset : Nat)
  | exactly (offset bytes : Nat)
deriving DecidableEq, Repr

/-- The call that serves the request. -/
def Request.serve (heap : Bool) (allocator : RangeAllocator) :
    Request → Except Refusal (Nat × RangeAllocator)
  | .firstFit bytes alignment => allocate heap allocator bytes alignment
  | .bestFitLow bytes alignment =>
    allocateBestFitLow heap allocator bytes alignment
  | .bestFitHigh bytes alignment =>
    allocateBestFitHigh heap allocator bytes alignment
  | .highest bytes alignment minimumOffset =>
    allocateHighest heap allocator bytes alignment minimumOffset
  | .exactly offset bytes => allocateAt heap allocator offset bytes

/-- The bytes the request asks for. -/
def Request.bytes : Request → Nat
  | .firstFit bytes _ | .bestFitLow bytes _ | .bestFitHigh bytes _
  | .highest bytes _ _ | .exactly _ bytes => bytes

/-- The alignment the request asks for. -/
def Request.alignment : Request → Nat
  | .firstFit _ alignment | .bestFitLow _ alignment
  | .bestFitHigh _ alignment | .highest _ alignment _ => alignment
  | .exactly _ _ => 1

/-- The offsets the policy may return. -/
def Request.Accepts : Request → Nat → Prop
  | .highest _ _ minimumOffset, start => minimumOffset ≤ start
  | .exactly offset _, start => start = offset
  | _, _ => True

/-- What every caller of the allocator checks: at least one byte, a size that is
a word, and a nonzero alignment. -/
structure Request.Proper (request : Request) : Prop where
  bytes : 0 < request.bytes
  word : request.bytes < modulus
  alignment : 0 < request.alignment

/-- Some free range holds an aligned fit of the request. -/
def FitExists (allocator : RangeAllocator) (request : Request) : Prop :=
  ∃ range ∈ allocator.freeRanges, ∃ start,
    FitsIn range request.bytes request.alignment start ∧ request.Accepts start

/-- The best-fit scans pass over one free range of `UINT64_MAX` bytes; the high
one does so where its place there is address zero. -/
def Overlooked (allocator : RangeAllocator) : Request → Prop
  | .bestFitLow _ _ => allocator.freeRanges = [⟨0, uint64Max⟩]
  | .bestFitHigh bytes alignment =>
    allocator.freeRanges = [⟨0, uint64Max⟩] ∧
      alignDown (uint64Max - bytes) alignment = 0
  | _ => False

instance (allocator : RangeAllocator) (request : Request) :
    Decidable (Overlooked allocator request) := by
  cases request <;> unfold Overlooked <;> infer_instance

/-! ## One request -/

/-- What serving a request comes to: a piece is taken out of a free range that
holds it, or no range is selected. -/
inductive Served (heap : Bool) (allocator : RangeAllocator) (request : Request) :
    Prop where
  | taken {position start : Nat} {range : Range}
      (get : allocator.freeRanges[position]? = some range)
      (fits : FitsIn range request.bytes request.alignment start)
      (accepts : request.Accepts start)
      (result : request.serve heap allocator =
        allocateFromRange heap allocator position range start request.bytes)
  | passed {refusal : Refusal}
      (result : request.serve heap allocator = .error refusal)
      (reason : ¬ FitExists allocator request ∨ Overlooked allocator request)

section Serve

variable {heap : Bool} {allocator : RangeAllocator} {live : List Range}

/-- A range of `UINT64_MAX` bytes leaves no address for another. -/
theorem Tiled.eq_whole (tiled : Tiled allocator live) {range : Range}
    (mem : range ∈ allocator.freeRanges) (large : uint64Max ≤ range.bytes) :
    allocator.freeRanges = [⟨0, uint64Max⟩] := by
  have word := tiled.word
  have bound := tiled.free_bound mem
  have size : range = ⟨0, uint64Max⟩ := by
    cases range
    simp only [Range.mk.injEq] at large bound ⊢
    unfold uint64Max at large ⊢
    omega
  obtain ⟨before, after, list⟩ := List.append_of_mem mem
  have canonical := tiled.canonical
  simp only [list, List.map_append, List.map_cons] at canonical
  rw [canonical_append, canonical_cons] at canonical
  obtain ⟨_, ⟨_, _, above⟩, across⟩ := canonical
  have none_before : before = [] := by
    rcases before with _ | ⟨other, rest⟩
    · rfl
    · have step := across (extent other) (by simp) (extent range) (by simp)
      simp [extent, size] at step
  have none_after : after = [] := by
    rcases after with _ | ⟨other, rest⟩
    · rfl
    · have step := above (extent other) (by simp)
      have otherBound := tiled.free_bound
        (by simp [list] : other ∈ allocator.freeRanges)
      simp only [extent, size] at step
      unfold uint64Max at step
      omega
  rw [list, none_before, none_after, size]
  rfl

/-- A scan that selects nothing although no smaller range precedes what it
starts from. -/
theorem serve_select
    {request : Request} {place : Range → Option Nat}
    {precedes : Range → Nat → Selection → Bool} {minimum : Nat}
    (tiled : Tiled allocator live)
    (sound : Sound place request.bytes request.alignment minimum)
    (accepts : ∀ start, request.Accepts start ↔ minimum ≤ start)
    (serves : request.serve heap allocator =
      allocateSelected heap allocator request.bytes
        (select place precedes 0 .initial allocator.freeRanges))
    (overlooks : ∀ range ∈ allocator.freeRanges, ∀ start,
      place range = some start → precedes range start .initial = false →
        Overlooked allocator request) :
    Served heap allocator request := by
  rcases select_spec place precedes allocator.freeRanges 0 .initial with
    ⟨same, passed⟩ | ⟨index, range, get, chosen, placed⟩
  · refine @Served.passed _ _ _ .unavailable ?_ ?_
    · rw [serves, same]
      rfl
    · by_cases some_place : ∃ range ∈ allocator.freeRanges, ∃ start,
          place range = some start
      · obtain ⟨range, mem, start, placed⟩ := some_place
        exact Or.inr (overlooks range mem start placed
          (passed range mem start placed))
      · left
        rintro ⟨range, mem, start, fits, accepted⟩
        cases placed : place range with
        | some other => exact some_place ⟨range, mem, other, placed⟩
        | none =>
            exact sound.complete (tiled.fits mem) placed
              ((accepts start).1 accepted) fits
  · have mem := List.mem_of_getElem? get
    have place := sound.fits (tiled.fits mem) placed
    apply Served.taken get place.1 ((accepts _).2 place.2)
    rw [serves, allocateSelected, chosen, Nat.zero_add]

/-- The scan of `shadowspill_range_allocate_at` finds the range that holds the
request, when there is one. -/
theorem findAt_spec (offset bytes position : Nat) {ranges : List Range}
    (canonical : Canonical (ranges.map extent)) :
    (findAt offset bytes position ranges = none ∧
        ∀ range ∈ ranges, ¬ FitsIn range bytes 1 offset) ∨
      ∃ index range, ranges[index]? = some range ∧
        findAt offset bytes position ranges = some (position + index, range) ∧
        FitsIn range bytes 1 offset := by
  induction ranges generalizing position with
  | nil => exact Or.inl ⟨rfl, by simp⟩
  | cons range ranges ih =>
      rw [List.map_cons, canonical_cons] at canonical
      obtain ⟨nonempty, tail, above⟩ := canonical
      simp only [findAt]
      split_ifs with early holds
      · left
        refine ⟨rfl, ?_⟩
        rintro other mem ⟨_, lower, _⟩
        rcases List.mem_cons.1 mem with rfl | mem
        · omega
        · have step := above (extent other) (List.mem_map_of_mem mem)
          simp only [extent] at step nonempty
          omega
      · right
        exact ⟨0, range, rfl, rfl, ⟨one_dvd _, by omega, by omega⟩⟩
      · have misses : ¬ FitsIn range bytes 1 offset := by
          rintro ⟨_, lower, upper⟩
          omega
        rcases ih (position + 1) tail with
          ⟨same, passed⟩ | ⟨index, found, get, chosen, fits⟩
        · left
          refine ⟨same, ?_⟩
          intro other mem
          rcases List.mem_cons.1 mem with rfl | mem
          · exact misses
          · exact passed other mem
        · right
          refine ⟨index + 1, found, by simpa using get, ?_, fits⟩
          rw [chosen, Nat.add_right_comm, Nat.add_assoc]

/-- Every request is served from a range that fits, or passes over them all. -/
theorem serve_spec {request : Request}
    (tiled : Tiled allocator live) (proper : request.Proper) :
    Served heap allocator request := by
  cases request with
  | firstFit bytes alignment =>
      have sound := @lowPlace_sound bytes _ proper.alignment
      rcases allocateFirst_spec (lowPlace bytes alignment) allocator.freeRanges 0
        with ⟨same, passed⟩ | ⟨index, range, start, get, chosen, placed⟩
      · refine @Served.passed _ _ _ .unavailable ?_ (Or.inl ?_)
        · simp [Request.serve, allocate, same]
        · rintro ⟨range, mem, start, fits, _⟩
          exact sound.complete (tiled.fits mem) (passed range mem)
            (Nat.zero_le _) fits
      · have fits := sound.fits (tiled.fits (List.mem_of_getElem? get)) placed
        refine @Served.taken _ _ (.firstFit bytes alignment) _ _ _ get fits.1
          trivial ?_
        simp [Request.serve, allocate, chosen, Request.bytes]
  | bestFitLow bytes alignment =>
      apply serve_select tiled (lowPlace_sound proper.alignment)
        (fun start => by simp [Request.Accepts]) rfl
      intro range mem start _ passed
      simp only [smallerLower, Bool.or_eq_false_iff, decide_eq_false_iff_not,
        not_lt] at passed
      exact Tiled.eq_whole tiled mem passed.1
  | bestFitHigh bytes alignment =>
      apply serve_select tiled highPlace_sound
        (fun start => by simp [Request.Accepts]) rfl
      intro range mem start placed passed
      simp only [smallerHigher, Bool.or_eq_false_iff, decide_eq_false_iff_not,
        not_lt, Bool.and_eq_false_imp, beq_iff_eq] at passed
      have whole := Tiled.eq_whole tiled mem passed.1
      refine ⟨whole, ?_⟩
      rw [whole, List.mem_singleton] at mem
      subst mem
      have zero : start = 0 := Nat.le_zero.1 (passed.2 rfl)
      subst zero
      unfold highPlace at placed
      simp only [Nat.zero_add] at placed
      rw [wrap_eq (by decide)] at placed
      split_ifs at placed
      exact Option.some.inj placed
  | highest bytes alignment minimumOffset =>
      apply serve_select tiled highPlaceFrom_sound (fun start => Iff.rfl) rfl
      intro range mem start _ passed
      simp [firstOrHigher, Selection.initial] at passed
  | exactly offset bytes =>
      have positive : bytes ≠ 0 := Nat.pos_iff_ne_zero.1 proper.bytes
      have unit : ∀ range ∈ allocator.freeRanges, FitsIn range bytes 1 offset →
          offset + bytes ≤ allocator.capacity := by
        intro range mem fits
        exact le_trans fits.upper (tiled.free_bound mem)
      by_cases outside : bytes = 0 ∨ offset > allocator.capacity ∨
          bytes > allocator.capacity - offset
      · refine @Served.passed _ _ _ .failed ?_ (Or.inl ?_)
        · simp [Request.serve, allocateAt, outside]
        · rintro ⟨range, mem, start, fits, rfl⟩
          have bound := unit range mem fits
          omega
      · rcases findAt_spec offset bytes 0 tiled.canonical with
          ⟨same, passed⟩ | ⟨index, range, get, chosen, fits⟩
        · refine @Served.passed _ _ _ .unavailable ?_ (Or.inl ?_)
          · simp [Request.serve, allocateAt, outside, same]
          · rintro ⟨range, mem, start, fits, rfl⟩
            exact passed range mem fits
        · refine @Served.taken _ _ (.exactly offset bytes) _ _ _ get fits rfl ?_
          simp [Request.serve, allocateAt, outside, chosen, Request.bytes]

/-- The best-fit scans do refuse what they overlook. -/
theorem serve_overlooked {request : Request}
    (proper : request.Proper) (overlooked : Overlooked allocator request) :
    request.serve heap allocator = .error .unavailable ∧
      FitExists allocator request := by
  cases request with
  | bestFitLow bytes alignment =>
      have size := proper.word
      simp only [Request.bytes] at size
      have up : Ranges.alignUp 0 alignment = some 0 := by
        simp [Ranges.alignUp, uint64Max]
      have enough : ¬ bytes > uint64Max := by
        unfold uint64Max
        omega
      have place : lowPlace bytes alignment ⟨0, uint64Max⟩ = some 0 := by
        simp [lowPlace, up, enough]
      constructor
      · simp [Request.serve, allocateBestFitLow, show allocator.freeRanges = _ from
          overlooked, select, place, smallerLower, Selection.initial,
          allocateSelected]
      · refine ⟨⟨0, uint64Max⟩, by simp [show allocator.freeRanges = _ from
          overlooked], 0, ⟨by simp, le_rfl, ?_⟩, trivial⟩
        simp only [Request.bytes, Nat.zero_add]
        omega
  | bestFitHigh bytes alignment =>
      have size := proper.word
      simp only [Request.bytes] at size
      have enough : ¬ bytes > uint64Max := by
        unfold uint64Max
        omega
      obtain ⟨whole, zero⟩ := overlooked
      have place : highPlace bytes alignment ⟨0, uint64Max⟩ = some 0 := by
        have last : wrap uint64Max = uint64Max := by decide
        simp [highPlace, last, zero, enough]
      constructor
      · simp [Request.serve, allocateBestFitHigh, whole, select, place,
          smallerHigher, Selection.initial, allocateSelected]
      · refine ⟨⟨0, uint64Max⟩, by simp [whole], 0, ⟨by simp, le_rfl, ?_⟩, trivial⟩
        simp only [Request.bytes, Nat.zero_add]
        omega
  | firstFit bytes alignment => exact overlooked.elim
  | highest bytes alignment minimumOffset => exact overlooked.elim
  | exactly offset bytes => exact overlooked.elim

/-- While a node is there, a request fails exactly when nothing fits or the
best-fit scans overlook what does. -/
theorem serve_error_iff {request : Request}
    (tiled : Tiled allocator live) (proper : request.Proper)
    (node : NodeAvailable heap allocator) :
    (∃ refusal, request.serve heap allocator = .error refusal) ↔
      ¬ FitExists allocator request ∨ Overlooked allocator request := by
  constructor
  · rintro ⟨refusal, failed⟩
    cases @serve_spec heap _ _ _ tiled proper with
    | taken get fits accepts result =>
        rw [result] at failed
        exact absurd node (allocateFromRange_error failed)
    | passed result reason => exact reason
  · rintro (none | overlooked)
    · cases @serve_spec heap _ _ _ tiled proper with
      | taken get fits accepts result =>
          exact absurd ⟨_, List.mem_of_getElem? get, _, fits, accepts⟩ none
      | passed result reason => exact ⟨_, result⟩
    · exact ⟨_, (serve_overlooked proper overlooked).1⟩

/-- A request that is served gets aligned addresses that were all free, and the
pool stays tiled with them live. -/
theorem serve_ok {request : Request} {offset : Nat} {after : RangeAllocator}
    (tiled : Tiled allocator live) (proper : request.Proper)
    (result : request.serve heap allocator = .ok (offset, after)) :
    request.alignment ∣ offset ∧ request.Accepts offset ∧
      (∀ address, offset ≤ address → address < offset + request.bytes →
        Holds allocator.freeRanges address) ∧
      Tiled after (⟨offset, request.bytes⟩ :: live) ∧
      after.capacity = allocator.capacity ∧ after.arena = allocator.arena ∧
      (allocator.arena = true → after.nodeCapacity = allocator.nodeCapacity) := by
  cases @serve_spec heap _ _ _ tiled proper with
  | passed failed reason => simp [failed] at result
  | taken get fits accepts taken =>
      rw [taken] at result
      obtain ⟨rfl, rest⟩ :=
        allocateFromRange_tiled tiled get fits proper.bytes result
      refine ⟨fits.aligned, accepts, ?_, rest⟩
      intro address lower upper
      apply holds_of_mem (List.mem_of_getElem? get)
      rw [contains_extent]
      have below := fits.lower
      have above := fits.upper
      omega

end Serve

/-! ## Runs -/

/-- An allocator with the ranges its callers hold. -/
structure Holding where
  allocator : RangeAllocator
  live : List Range
deriving DecidableEq, Repr

/-- One call: a request under any policy, or the release of a live range. -/
inductive Step (holding : Holding) : Holding → Prop where
  | served {heap : Bool} {request : Request} {offset : Nat}
      {after : RangeAllocator} (proper : request.Proper)
      (result : request.serve heap holding.allocator = .ok (offset, after)) :
      Step holding ⟨after, ⟨offset, request.bytes⟩ :: holding.live⟩
  | refused {heap : Bool} {request : Request} {refusal : Refusal}
      (proper : request.Proper)
      (result : request.serve heap holding.allocator = .error refusal) :
      Step holding holding
  | freed {heap : Bool} {range : Range} {after : RangeAllocator}
      (mem : range ∈ holding.live)
      (result : rangeFree heap holding.allocator range.offset range.bytes =
        some after) :
      Step holding ⟨after, holding.live.erase range⟩
  | kept {heap : Bool} {range : Range} (mem : range ∈ holding.live)
      (result : rangeFree heap holding.allocator range.offset range.bytes =
        none) :
      Step holding holding

/-- A new allocator of the capacity, with nodes from either source. -/
inductive Started (capacity : Nat) : Holding → Prop where
  | heap {heap : Bool} {allocator : RangeAllocator}
      (result : rangeInitialize heap capacity = some allocator) :
      Started capacity ⟨allocator, []⟩
  | arena {nodeCapacity : Nat} {allocator : RangeAllocator}
      (result : rangeInitializeWithNodes capacity nodeCapacity =
        some allocator) :
      Started capacity ⟨allocator, []⟩

section Runs

variable {capacity : Nat}

/-- One free range over the whole pool, or none over an empty pool. -/
theorem tiled_whole {allocator : RangeAllocator} (word : capacity < modulus)
    (size : allocator.capacity = capacity) (unused : allocator.allocated = 0)
    (ranges : allocator.freeRanges = if capacity = 0 then [] else [⟨0, capacity⟩])
    (nodes : allocator.availableNodes + allocator.freeRanges.length =
      allocator.nodeCapacity) :
    Tiled allocator [] where
  word := by rw [size]; exact word
  canonical := by
    rw [ranges]
    split_ifs with empty
    · exact canonical_nil
    · simp [extent]
      omega
  nonempty := by simp
  disjoint := List.Pairwise.nil
  exhaustive := fun address => by
    rw [ranges, size]
    split_ifs with empty
    · simp [empty]
    · simp [contains_extent]
  clear := by simp
  charged := unused
  accounted := by
    rw [ranges, size, unused]
    split_ifs with empty
    · simp [empty]
    · simp
  nodes := nodes

theorem tiled_of_started {holding : Holding} (word : capacity < modulus)
    (started : Started capacity holding) :
    Tiled holding.allocator holding.live ∧
      holding.allocator.capacity = capacity := by
  cases started with
  | @heap heap _ result =>
      unfold rangeInitialize at result
      simp only at result
      split_ifs at result with empty
      · cases result
        exact ⟨tiled_whole word rfl rfl (by simp [empty]) rfl, rfl⟩
      · cases acquire : acquireNode heap ⟨capacity, 0, 0, [], false, 0, 0⟩ with
        | none => simp [acquire] at result
        | some acquired =>
            obtain ⟨available, nodeCapacity, rfl, _, nodes⟩ :=
              acquireNode_some acquire
            simp only [acquire] at result
            cases result
            exact ⟨tiled_whole word rfl rfl (by simp [empty]) (nodes 0 rfl), rfl⟩
  | @arena count _ result =>
      unfold rangeInitializeWithNodes at result
      simp only at result
      split_ifs at result with unstored empty
      · cases result
        exact ⟨tiled_whole word rfl rfl (by simp [empty]) rfl, rfl⟩
      · cases acquire : acquireNode false
            ⟨capacity, 0, 0, [], true, count, count⟩ with
        | none => simp [acquire] at result
        | some acquired =>
            obtain ⟨available, nodeCapacity, rfl, _, nodes⟩ :=
              acquireNode_some acquire
            simp only [acquire] at result
            cases result
            exact ⟨tiled_whole word rfl rfl (by simp [empty]) (nodes 0 rfl), rfl⟩

/-- Every call keeps the pool tiled. -/
theorem Step.tiled {holding after : Holding} (step : Step holding after)
    (tiled : Tiled holding.allocator holding.live) :
    Tiled after.allocator after.live ∧
      after.allocator.capacity = holding.allocator.capacity := by
  cases step with
  | served proper result =>
      have spec := serve_ok tiled proper result
      exact ⟨spec.2.2.2.1, spec.2.2.2.2.1⟩
  | refused proper result => exact ⟨tiled, rfl⟩
  | freed mem result =>
      have first := tiled.perm (List.perm_cons_erase mem)
      have spec := rangeFree_tiled first result
      exact ⟨spec.1, spec.2.1⟩
  | kept mem result => exact ⟨tiled, rfl⟩

theorem tiled_of_run {start holding : Holding} (word : capacity < modulus)
    (started : Started capacity start)
    (run : Relation.ReflTransGen Step start holding) :
    Tiled holding.allocator holding.live ∧
      holding.allocator.capacity = capacity := by
  induction run with
  | refl => exact tiled_of_started word started
  | tail _ step ih =>
      have kept := step.tiled ih.1
      exact ⟨kept.1, kept.2.trans ih.2⟩

/-- After any run of allocations and releases the free list is canonical and
tiles the pool with the live ranges, a range that is returned is aligned and was
free, and while a node is there a request fails exactly when nothing fits,
except where the best-fit scans overlook a pool of `UINT64_MAX` bytes. -/
theorem allocations_exact {start holding : Holding} (word : capacity < modulus)
    (started : Started capacity start)
    (run : Relation.ReflTransGen Step start holding) :
    Tiled holding.allocator holding.live ∧
      holding.allocator.capacity = capacity ∧
      ∀ heap, ∀ request : Request, request.Proper →
        (∀ offset after,
          request.serve heap holding.allocator = .ok (offset, after) →
            request.alignment ∣ offset ∧ request.Accepts offset ∧
              ∀ address, offset ≤ address → address < offset + request.bytes →
                Holds holding.allocator.freeRanges address) ∧
        (NodeAvailable heap holding.allocator →
          (((∃ refusal,
              request.serve heap holding.allocator = .error refusal) ↔
            ¬ FitExists holding.allocator request) ↔
              ¬ Overlooked holding.allocator request)) := by
  obtain ⟨tiled, size⟩ := tiled_of_run word started run
  refine ⟨tiled, size, ?_⟩
  intro heap request proper
  constructor
  · intro offset after result
    have spec := serve_ok tiled proper result
    exact ⟨spec.1, spec.2.1, spec.2.2.1⟩
  · intro node
    rw [serve_error_iff tiled proper node]
    by_cases overlooked : Overlooked holding.allocator request
    · have fit := (@serve_overlooked heap _ _ proper overlooked).2
      simp [overlooked, fit]
    · simp [overlooked]

end Runs

/-- A new pool of the largest size a word can give. -/
def wholeWord : RangeAllocator where
  capacity := uint64Max
  allocated := 0
  peakAllocated := 0
  freeRanges := [⟨0, uint64Max⟩]
  arena := false
  nodeCapacity := 1
  availableNodes := 0

/-- Best fit low refuses one byte of a pool that is all free. -/
theorem wholeWord_refuses :
    rangeInitialize true uint64Max = some wholeWord ∧
      NodeAvailable true wholeWord ∧
      (Request.bestFitLow 1 1).serve true wholeWord = .error .unavailable ∧
      FitExists wholeWord (.bestFitLow 1 1) := by
  refine ⟨by decide, Or.inr ⟨rfl, rfl⟩, by decide, ?_⟩
  exact ⟨⟨0, uint64Max⟩, by simp [wholeWord], 0,
    ⟨by decide, by decide, by decide⟩, trivial⟩

/-- A pool of sixteen bytes with one request at its high end. -/
def highEnd : Holding where
  allocator :=
    { capacity := 16
      allocated := 3
      peakAllocated := 3
      freeRanges := [⟨0, 12⟩, ⟨15, 1⟩]
      arena := false
      nodeCapacity := 2
      availableNodes := 0 }
  live := [⟨12, 3⟩]

/-- Best fit high leaves a gap on either side, and what follows is exact. -/
theorem allocations_exact_highEnd :
    Tiled highEnd.allocator highEnd.live ∧
      (((∃ refusal, (Request.firstFit 8 8).serve true highEnd.allocator =
          .error refusal) ↔ ¬ FitExists highEnd.allocator (.firstFit 8 8)) ↔
        ¬ Overlooked highEnd.allocator (.firstFit 8 8)) := by
  have exact_ := @allocations_exact 16 ⟨⟨16, 0, 0, [⟨0, 16⟩], false, 1, 0⟩, []⟩
    highEnd (by decide) (.heap (by decide : rangeInitialize true 16 = _))
    (.single (@Step.served _ true (.bestFitHigh 3 4) 12 highEnd.allocator
      ⟨by decide, by decide, by decide⟩ (by decide)))
  exact ⟨exact_.1, (exact_.2.2 true (.firstFit 8 8)
    ⟨by decide, by decide, by decide⟩).2 (Or.inr ⟨rfl, rfl⟩)⟩

end ShadowSpill.Runtime.RangeRequests
