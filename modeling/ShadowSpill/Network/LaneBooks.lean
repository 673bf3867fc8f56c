import ShadowSpill.Network.LaneStream

/-!
# The books of a lane

The accepted transfers are numbered from one and take consecutive pieces; the ring of
slots holds those that are not retired.  Each loop of the thread moves one count and
stops at the first transfer or piece that is not ready.
-/

namespace ShadowSpill.Network.LaneBooks

open RemoteLane LanePlan

/-- What the tuning promises of a lane. -/
structure Configured (setup : Setup) : Prop where
  pieceBytes : 0 < setup.pieceBytes
  ringSlots : 0 < setup.ringSlots
  fits : setup.ringSlots ≤ piecesInFlight
  sendDepth : 0 < setup.sendDepth

theorem outstandingLimit_bounds {setup : Setup} (configured : Configured setup) :
    0 < outstandingLimit setup ∧ outstandingLimit setup ≤ piecesInFlight := by
  have slots := configured.ringSlots
  have fits := configured.fits
  have depth := configured.sendDepth
  unfold outstandingLimit
  split
  · exact ⟨slots, fits⟩
  · split
    · rename_i below
      exact ⟨depth, below.le⟩
    · exact ⟨by decide, le_rfl⟩

/-! ## The accepted transfers -/

/-- Handles and piece numbers follow the order of acceptance. -/
structure History (setup : Setup) (transfers : List Work) (accepted planned : Nat) :
    Prop where
  length : transfers.length = accepted
  total : firstOf transfers accepted = planned
  sized : ∀ work ∈ transfers, Planned setup work
  numbered : ∀ count work, transfers[count]? = some work →
    work.handle = count + 1 ∧ work.firstChunk = firstOf transfers count

section History

variable {setup : Setup} {transfers : List Work} {work : Work}
variable {accepted planned count : Nat}

theorem History.at (history : History setup transfers accepted planned)
    (bound : count < accepted) : ∃ work, transfers[count]? = some work := by
  have inside : count < transfers.length := history.length.symm ▸ bound
  exact ⟨transfers[count], List.getElem?_eq_getElem inside⟩

theorem History.publish (history : History setup transfers accepted planned)
    (sized : Planned setup work) (handle : work.handle = accepted + 1)
    (first : work.firstChunk = planned) :
    History setup (transfers ++ [work]) (accepted + 1) (planned + work.chunks) := by
  have length := history.length
  constructor
  · rw [List.length_append, length]
    rfl
  · rw [← length, firstOf_length_append, length, history.total]
  · intro other mem
    rcases List.mem_append.mp mem with old | new
    · exact history.sized other old
    · rw [List.mem_singleton.mp new]
      exact sized
  · intro count other known
    rcases Nat.lt_or_ge count transfers.length with old | new
    · rw [List.getElem?_append_left old] at known
      rw [firstOf_append old.le]
      exact history.numbered count other known
    · rw [List.getElem?_append_right new] at known
      have last : count - transfers.length = 0 := by
        by_contra beyond
        rw [List.getElem?_eq_none (by rw [List.length_singleton]; omega)] at known
        cases known
      have here : count = accepted := by omega
      rw [last] at known
      cases known
      subst here
      rw [firstOf_append length.ge, history.total]
      exact ⟨handle, first⟩

/-- A piece number belongs to one of the transfers. -/
theorem locate {chunk : Nat} (bound : chunk < firstOf transfers transfers.length) :
    ∃ count work index, transfers[count]? = some work ∧ index < work.chunks ∧
      chunk = firstOf transfers count + index := by
  induction transfers using List.reverseRecOn with
  | nil => simp at bound
  | append_singleton before last ih =>
      rw [List.length_append, List.length_singleton, firstOf_length_append] at bound
      rcases Nat.lt_or_ge chunk (firstOf before before.length) with old | new
      · rcases ih old with ⟨count, work, index, known, inside, place⟩
        have within : count < before.length := by
          by_contra beyond
          rw [List.getElem?_eq_none (Nat.le_of_not_lt beyond)] at known
          cases known
        refine ⟨count, work, index, ?_, inside, ?_⟩
        · rw [List.getElem?_append_left within]
          exact known
        · rw [firstOf_append within.le]
          exact place
      · refine ⟨before.length, last, chunk - firstOf before before.length, by simp, ?_, ?_⟩
        · omega
        · rw [firstOf_append le_rfl]
          omega

/-- The copies across the ring are numbered like the pieces. -/
theorem History.copies_numbered (history : History setup transfers accepted planned) :
    (copyPlan setup transfers).map Prod.fst = List.range planned := by
  have total : firstOf transfers transfers.length = planned := by
    rw [history.length]
    exact history.total
  apply List.ext_getElem?
  intro chunk
  rcases Nat.lt_or_ge chunk planned with inside | outside
  · rcases locate (total.symm ▸ inside) with ⟨count, work, index, known, bound, place⟩
    have first := (history.numbered count work known).2
    rw [List.getElem?_range inside, List.getElem?_map, place, copyPlan_at known bound,
      ← first]
    rfl
  · rw [List.getElem?_eq_none, List.getElem?_eq_none]
    · rwa [List.length_range]
    · rw [List.length_map, length_copyPlan, total]
      exact outside

/-- A slot's transfer has its pieces after those of the earlier transfers. -/
theorem History.next_first (history : History setup transfers accepted planned)
    (known : transfers[count]? = some work) :
    firstOf transfers (count + 1) = work.firstChunk + work.chunks := by
  rw [firstOf_succ known, (history.numbered count work known).2]

end History

/-! ## The ring of slots -/

/-- The slots hold the transfers that are not retired. -/
structure Ring (transfers : List Work) (ring : Nat → Work) (retired accepted : Nat) :
    Prop where
  room : accepted ≤ retired + workSlots
  holds : ∀ count work, retired ≤ count → transfers[count]? = some work →
    ring (count % workSlots) = work

section Ring

variable {transfers : List Work} {ring : Nat → Work} {work : Work}
variable {retired accepted other : Nat}

/-- Numbers that are less than a ring apart have different slots. -/
theorem slots_ne {size first second : Nat} (less : first < second)
    (near : second < first + size) : first % size ≠ second % size := by
  intro same
  have apart : (second - first) % size = 0 := Nat.sub_mod_eq_zero_of_mod_eq same.symm
  rw [Nat.mod_eq_of_lt (by omega)] at apart
  omega

/-- The slot after the last accepted transfer is free to be written. -/
theorem Ring.write (held : Ring transfers ring retired accepted)
    (length : transfers.length = accepted) (free : accepted < retired + workSlots) :
    Ring transfers (Function.update ring (accepted % workSlots) work) retired accepted := by
  refine ⟨held.room, ?_⟩
  intro count known live inside
  have bound : count < accepted := by
    by_contra beyond
    rw [List.getElem?_eq_none (by omega)] at inside
    cases inside
  rw [Function.update_of_ne (slots_ne bound (by omega))]
  exact held.holds count known live inside

theorem Ring.publish (held : Ring transfers ring retired accepted)
    (length : transfers.length = accepted) (free : accepted < retired + workSlots) :
    Ring (transfers ++ [work])
      (Function.update ring (accepted % workSlots) work) retired (accepted + 1) := by
  refine ⟨free, ?_⟩
  intro count known live inside
  rcases Nat.lt_or_ge count transfers.length with old | new
  · rw [List.getElem?_append_left old] at inside
    exact (held.write length free).holds count known live inside
  · rw [List.getElem?_append_right new] at inside
    have last : count - transfers.length = 0 := by
      by_contra beyond
      rw [List.getElem?_eq_none (by rw [List.length_singleton]; omega)] at inside
      cases inside
    rw [last] at inside
    cases inside
    have here : count = accepted := by omega
    rw [here, Function.update_self]

theorem Ring.retire (held : Ring transfers ring retired accepted)
    (more : retired ≤ other) : Ring transfers ring other accepted :=
  ⟨held.room.trans (by omega), fun count known live =>
    held.holds count known (more.trans live)⟩

end Ring

/-! ## The thread's loops -/

/-- The retiring loop takes the flags of the pieces it retires, and stops at the first
piece whose flag is not set. -/
theorem retireChunks_spec (turns : Nat) (lane : Lane) (near : turns ≤ piecesInFlight) :
    ∃ count landed, retireChunks turns lane =
        { lane with chunkLanded := landed, chunkRetired := lane.chunkRetired + count } ∧
      count ≤ turns ∧
      (∀ slot, landed slot = true → lane.chunkLanded slot = true) ∧
      (∀ chunk, lane.chunkRetired + count ≤ chunk →
        chunk < lane.chunkRetired + piecesInFlight →
        landed (chunk % piecesInFlight) = lane.chunkLanded (chunk % piecesInFlight)) ∧
      (∀ chunk, lane.chunkRetired ≤ chunk → chunk < lane.chunkRetired + count →
        lane.chunkLanded (chunk % piecesInFlight) = true ∧
          landed (chunk % piecesInFlight) = false) ∧
      (count < turns →
        lane.chunkLanded ((lane.chunkRetired + count) % piecesInFlight) = false) := by
  induction turns generalizing lane with
  | zero =>
      refine ⟨0, lane.chunkLanded, rfl, le_rfl, fun _ set => set, fun _ _ _ => rfl, ?_, ?_⟩
      · intro chunk low high
        omega
      · intro impossible
        omega
  | succ turns ih =>
      unfold retireChunks
      dsimp only
      cases flag : lane.chunkLanded (lane.chunkRetired % piecesInFlight) with
      | false =>
          rw [if_neg Bool.false_ne_true]
          refine ⟨0, lane.chunkLanded, rfl, Nat.zero_le _, fun _ set => set,
            fun _ _ _ => rfl, ?_, fun _ => flag⟩
          intro chunk low high
          omega
      | true =>
          rw [if_pos rfl]
          rcases ih { lane with
              chunkLanded := Function.update lane.chunkLanded
                (lane.chunkRetired % piecesInFlight) false
              chunkRetired := lane.chunkRetired + 1 } (by omega) with
            ⟨count, landed, result, bound, fewer, kept, taken, stopped⟩
          dsimp only at fewer kept taken stopped result
          refine ⟨count + 1, landed, ?_, by omega, ?_, ?_, ?_, ?_⟩
          · rw [result, Nat.add_assoc, Nat.add_comm 1 count]
          · intro slot set
            have before := fewer slot set
            by_cases here : slot = lane.chunkRetired % piecesInFlight
            · rw [here]
              exact flag
            · rwa [Function.update_of_ne here] at before
          · intro chunk low high
            rw [kept chunk (by omega) (by omega), Function.update_of_ne]
            exact (slots_ne (by omega) (by omega)).symm
          · intro chunk low high
            rcases Nat.eq_or_lt_of_le low with here | later
            · subst here
              refine ⟨flag, ?_⟩
              cases left : landed (lane.chunkRetired % piecesInFlight) with
              | false => rfl
              | true =>
                  have wrong := fewer _ left
                  rw [Function.update_self] at wrong
                  cases wrong
            · have took := taken chunk (by omega) (by omega)
              rw [Function.update_of_ne (slots_ne later (by omega)).symm] at took
              exact took
          · intro less
            have stop := stopped (by omega)
            rw [Nat.add_assoc, Nat.add_comm 1 count] at stop
            rwa [Function.update_of_ne] at stop
            exact (slots_ne (by omega) (by omega)).symm

/-- After a failure every started transfer retires. -/
theorem retireTransfers_failed (turns : Nat) (lane : Lane) :
    retireTransfers true turns lane = { lane with retired := lane.retired + turns } := by
  induction turns generalizing lane with
  | zero => rfl
  | succ turns ih =>
      unfold retireTransfers
      dsimp only
      rw [if_neg (by simp), ih, Nat.add_assoc, Nat.add_comm 1 turns]

/-- Transfers retire while all their pieces are retired. -/
theorem retireTransfers_spec {setup : Setup} {transfers : List Work} {planned : Nat}
    (turns : Nat) (lane : Lane)
    (history : History setup transfers lane.accepted planned)
    (held : Ring transfers lane.workRing lane.retired lane.accepted)
    (bound : lane.retired + turns ≤ lane.accepted)
    (done : firstOf transfers lane.retired ≤ lane.chunkRetired) :
    ∃ count, retireTransfers false turns lane =
        { lane with retired := lane.retired + count } ∧ count ≤ turns ∧
      firstOf transfers (lane.retired + count) ≤ lane.chunkRetired ∧
      (count < turns →
        lane.chunkRetired < firstOf transfers (lane.retired + count + 1)) := by
  induction turns generalizing lane with
  | zero =>
      refine ⟨0, rfl, le_rfl, done, ?_⟩
      intro impossible
      omega
  | succ turns ih =>
      rcases history.at (by omega : lane.retired < lane.accepted) with ⟨work, known⟩
      have oldest := held.holds lane.retired work le_rfl known
      have next := history.next_first known
      unfold retireTransfers
      dsimp only
      rw [oldest, ← next]
      by_cases unfinished : lane.chunkRetired < firstOf transfers (lane.retired + 1)
      · rw [if_pos (by simpa using unfinished)]
        exact ⟨0, rfl, Nat.zero_le _, done, fun _ => unfinished⟩
      · rw [if_neg (by simpa using unfinished)]
        rcases ih { lane with retired := lane.retired + 1 } history
            (held.retire (Nat.le_succ _)) (by simp only; omega)
            (Nat.le_of_not_lt unfinished) with
          ⟨count, result, most, reached, stopped⟩
        have shift : lane.retired + 1 + count = lane.retired + (count + 1) := by omega
        dsimp only at reached stopped
        rw [shift] at reached stopped
        refine ⟨count + 1, ?_, by omega, reached, fun less => stopped (by omega)⟩
        rw [result, ← shift]

end ShadowSpill.Network.LaneBooks
