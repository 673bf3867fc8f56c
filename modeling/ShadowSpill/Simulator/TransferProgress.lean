import ShadowSpill.Simulator.TransferArithmetic

/-!
# A copy ends at the exact time

What a copy keeps between two changes of its rate is what is due at the last change, and its
end is the first time at which that much is moved at the present rate.  Over the intervals
of a run the end is therefore the first time at which everything is moved.
-/

namespace ShadowSpill.Simulator.TransferProgress

open Library.RestoringDivision TransferTiming TransferArithmetic

/-- The exact sum of rate times time, in billionths of a byte. -/
def moved (start : Nat) (last : UInt64) : List (UInt64 × UInt64) → Nat → Nat
  | [], time => last.toNat * (time - start)
  | (rate, duration) :: rest, time =>
    rate.toNat * min (time - start) duration.toNat +
      moved (start + duration.toNat) last rest time

variable {transfer : Transfer} {now last rate duration : UInt64} {due : Nat}
variable {intervals rest : List (UInt64 × UInt64)}

theorem moved_before {start time : Nat} (early : time ≤ start) :
    moved start last intervals time = 0 := by
  induction intervals generalizing start with
  | nil =>
      unfold moved
      rw [Nat.sub_eq_zero_of_le early, Nat.mul_zero]
  | cons interval rest ih =>
      unfold moved
      rw [Nat.sub_eq_zero_of_le early, Nat.zero_min, Nat.mul_zero,
        ih (early.trans (Nat.le_add_right _ _))]

/-- Inside the first interval only its rate counts. -/
theorem moved_inside {start time : Nat} (inside : time ≤ start + duration.toNat) :
    moved start last ((rate, duration) :: rest) time = rate.toNat * (time - start) := by
  unfold moved
  rw [moved_before inside, Nat.add_zero, Nat.min_eq_left (by omega)]

theorem moved_beyond {start time : Nat} (beyond : start + duration.toNat ≤ time) :
    moved start last ((rate, duration) :: rest) time =
      rate.toNat * duration.toNat + moved (start + duration.toNat) last rest time := by
  show rate.toNat * min (time - start) duration.toNat + _ = _
  rw [Nat.min_eq_right (by omega)]

/-! ## What a copy holds -/

/-- At a given time so much is due, and the end is when it will have been moved. -/
structure Held (transfer : Transfer) (now : UInt64) (due : Nat) : Prop where
  proper : Proper transfer
  arrived : transfer.payloadStartNs.toNat ≤ now.toNat
  begun : transfer.progressNs.toNat ≤ now.toNat
  owes : owed transfer =
    due + (now.toNat - transfer.progressNs.toNat) * transfer.rate.toNat
  ends : 0 < transfer.rate.toNat → transfer.endNs.toNat =
    min (transfer.progressNs.toNat + owed transfer ⌈/⌉ transfer.rate.toNat) (2 ^ 64 - 1)

theorem held_startPhase (bytes start : UInt64) :
    Held (startPhase bytes start) start (bytes.toNat * 10 ^ 9) where
  proper := by
    show (0 : UInt64).toNat < 10 ^ 9
    decide
  arrived := le_rfl
  begun := le_rfl
  owes := by
    show bytes.toNat * 10 ^ 9 + 0 = bytes.toNat * 10 ^ 9 + (start.toNat - start.toNat) * 0
    rw [Nat.mul_zero]
  ends := fun wrong => absurd wrong (lt_irrefl _)

/-- The end comes no later than a time exactly when what is due is moved by then. -/
theorem Held.ends_le_iff (held : Held transfer now due) (positive : 0 < transfer.rate.toNat)
    {time : Nat} (later : now.toNat ≤ time) (fits : time < 2 ^ 64 - 1) :
    transfer.endNs.toNat ≤ time ↔ due ≤ transfer.rate.toNat * (time - now.toNat) := by
  have begun := held.begun
  have owes := held.owes
  have split : transfer.rate.toNat * (time - transfer.progressNs.toNat) =
      transfer.rate.toNat * (time - now.toNat) +
        (now.toNat - transfer.progressNs.toNat) * transfer.rate.toNat := by
    have apart : time - transfer.progressNs.toNat =
        time - now.toNat + (now.toNat - transfer.progressNs.toNat) := by omega
    rw [apart]
    ring
  calc transfer.endNs.toNat ≤ time
      ↔ owed transfer ⌈/⌉ transfer.rate.toNat ≤ time - transfer.progressNs.toNat := by
        rw [held.ends positive]
        omega
    _ ↔ owed transfer ≤ transfer.rate.toNat * (time - transfer.progressNs.toNat) :=
        ceilDiv_le_iff_le_mul positive
    _ ↔ due ≤ transfer.rate.toNat * (time - now.toNat) := by
        rw [owes, split]
        exact Nat.add_le_add_iff_right

theorem Held.now_le_ends (held : Held transfer now due) (positive : 0 < transfer.rate.toNat)
    (more : 0 < due) : now.toNat ≤ transfer.endNs.toNat := by
  apply Nat.le_of_not_lt
  intro early
  have word := toNat_le_limit now
  have ends := held.ends positive
  have short : owed transfer ⌈/⌉ transfer.rate.toNat ≤
      now.toNat - transfer.progressNs.toNat := by
    have begun := held.begun
    omega
  rw [ceilDiv_le_iff_le_mul positive, held.owes, Nat.mul_comm] at short
  omega

/-- Time passes. -/
theorem Held.pass (held : Held transfer now due) {later : UInt64}
    (after : now.toNat ≤ later.toNat)
    (less : transfer.rate.toNat * (later.toNat - now.toNat) ≤ due) :
    Held transfer later (due - transfer.rate.toNat * (later.toNat - now.toNat)) := by
  have begun := held.begun
  refine ⟨held.proper, held.arrived.trans after, begun.trans after, ?_, held.ends⟩
  have apart : later.toNat - transfer.progressNs.toNat =
      now.toNat - transfer.progressNs.toNat + (later.toNat - now.toNat) := by omega
  rw [held.owes, apart, Nat.add_mul, Nat.mul_comm (later.toNat - now.toNat)]
  omega

theorem advanceProgress_payloadStartNs (transfer : Transfer) (now : UInt64) :
    (advanceProgress transfer now).payloadStartNs = transfer.payloadStartNs := by
  have product : ∀ (transfer : Transfer) (left right : UInt64),
      (subtractProduct transfer left right).payloadStartNs = transfer.payloadStartNs := by
    intro transfer left right
    unfold subtractProduct
    split <;> rfl
  unfold advanceProgress subtractFraction
  dsimp only
  split
  · simp only [product]
  · split <;> simp only [product]

/-- A copy that is taken up at a new rate. -/
theorem held_changed (proper : Proper transfer)
    (arrived : transfer.payloadStartNs.toNat ≤ now.toNat) (owes : owed transfer = due)
    (positive : 0 < rate.toNat) :
    Held { transfer with
        progressNs := now
        rate := rate
        endNs := saturatedAdd now
          (remainingTimeNs { transfer with progressNs := now, rate := rate }) } now due := by
  have left := @remainingTimeNs_toNat { transfer with progressNs := now, rate := rate }
    proper positive
  refine ⟨proper, arrived, le_rfl, ?_, ?_⟩
  · rw [Nat.sub_self, Nat.zero_mul, Nat.add_zero, ← owes]
    exact owed_congr rfl rfl
  · intro _
    have same : owed { transfer with progressNs := now, rate := rate } = due :=
      (owed_congr rfl rfl).trans owes
    have final : owed { transfer with
        progressNs := now
        rate := rate
        endNs := saturatedAdd now
          (remainingTimeNs { transfer with progressNs := now, rate := rate }) } = due :=
      (owed_congr rfl rfl).trans owes
    rw [same] at left
    rw [final]
    generalize remainingTimeNs { transfer with progressNs := now, rate := rate } = time
      at left ⊢
    dsimp only at left ⊢
    rw [saturatedAdd_toNat, left]
    generalize due ⌈/⌉ rate.toNat = ceiling
    omega

/-- A change of the rate keeps what is due. -/
theorem Held.refresh (held : Held transfer now due) (more : 0 < due) (positive : rate ≠ 0) :
    Held (refreshTransferRate transfer rate now) now due ∧
      (refreshTransferRate transfer rate now).rate = rate := by
  have counted : 0 < rate.toNat := Nat.pos_of_ne_zero (ne_zero_iff.mp positive)
  have active : payloadActive transfer now = true := by
    unfold payloadActive
    rw [Bool.and_eq_true, decide_eq_true_eq, UInt64.le_iff_toNat_le, Bool.or_eq_true,
      bne_iff_ne, bne_iff_ne]
    refine ⟨held.arrived, ?_⟩
    by_contra nothing
    rw [not_or, not_not, not_not] at nothing
    have owes := held.owes
    unfold owed at owes
    rw [nothing.1, nothing.2] at owes
    simp only [UInt64.toNat_zero] at owes
    omega
  unfold refreshTransferRate setRate
  rw [active, if_pos rfl]
  by_cases same : rate = transfer.rate
  · rw [if_pos same]
    exact ⟨held, same.symm⟩
  · rw [if_neg same]
    dsimp only
    rw [if_pos positive]
    refine ⟨?_, rfl⟩
    by_cases running : transfer.rate ≠ 0
    · rw [if_pos running]
      rcases advanceProgress_owed held.proper held.begun with ⟨proper, owes⟩
      apply held_changed proper
      · rw [advanceProgress_payloadStartNs]
        exact held.arrived
      · rw [owes, held.owes, Nat.add_sub_cancel]
      · exact counted
    · rw [if_neg running]
      apply held_changed held.proper held.arrived
      · have owes := held.owes
        rw [not_not] at running
        rw [running, UInt64.toNat_zero, Nat.mul_zero, Nat.add_zero] at owes
        exact owes
      · exact counted

/-! ## Runs -/

/-- The first time of a set is reported if it is a time of the clock. -/
def Reports (completed : Option UInt64) (times : Set Nat) : Prop :=
  ∀ time, completed = some time ↔ IsLeast times time.toNat ∧ time < uint64Max

theorem reports_some {time : UInt64} {times : Set Nat} (least : IsLeast times time.toNat)
    (known : time ≠ uint64Max) : Reports (some time) times := by
  intro other
  constructor
  · intro same
    cases same
    have bound := toNat_le_limit time
    have apart : time.toNat ≠ 2 ^ 64 - 1 := fun wrong =>
      known (UInt64.toNat_inj.mp wrong)
    refine ⟨least, UInt64.lt_iff_toNat_lt.mpr ?_⟩
    rw [uint64Max_toNat]
    omega
  · rintro ⟨other_least, _⟩
    rw [UInt64.toNat_inj.mp (least.unique other_least)]

theorem reports_none {times : Set Nat} (late : ∀ time ∈ times, 2 ^ 64 - 1 ≤ time) :
    Reports none times := by
  intro other
  constructor
  · intro wrong
    cases wrong
  · rintro ⟨least, early⟩
    have early := UInt64.lt_iff_toNat_lt.mp early
    rw [uint64Max_toNat] at early
    exact absurd early (Nat.not_lt.mpr (late _ least.1))

/-- The times by which what is due is moved. -/
def doneTimes (now : Nat) (last : UInt64) (intervals : List (UInt64 × UInt64))
    (due : Nat) : Set Nat :=
  { time | now ≤ time ∧ due ≤ moved now last intervals time }

theorem Held.ends_of_done (held : Held transfer now due)
    (positive : 0 < transfer.rate.toNat) {time : Nat} (later : now.toNat ≤ time)
    (done : due ≤ transfer.rate.toNat * (time - now.toNat)) :
    transfer.endNs.toNat ≤ time := by
  have word := toNat_le_limit transfer.endNs
  rcases Nat.lt_or_ge time (2 ^ 64 - 1) with early | late
  · exact (held.ends_le_iff positive later early).mpr done
  · exact word.trans late

theorem Held.done_at_end (held : Held transfer now due)
    (positive : 0 < transfer.rate.toNat) (more : 0 < due)
    (known : transfer.endNs ≠ uint64Max) :
    due ≤ transfer.rate.toNat * (transfer.endNs.toNat - now.toNat) := by
  have word := toNat_le_limit transfer.endNs
  have apart : transfer.endNs.toNat ≠ 2 ^ 64 - 1 := fun wrong =>
    known (UInt64.toNat_inj.mp wrong)
  exact (held.ends_le_iff positive (held.now_le_ends positive more) (by omega)).mp le_rfl

/-- An interval that ends before the copy does. -/
theorem Held.interval (held : Held transfer now due) (running : 0 < transfer.rate.toNat)
    (same : transfer.rate = rate) {event : UInt64}
    (change : event.toNat = min (now.toNat + duration.toNat) (2 ^ 64 - 1))
    (first : ¬transfer.endNs ≤ event) :
    event.toNat = now.toNat + duration.toNat ∧ rate.toNat * duration.toNat < due ∧
      Held transfer event (due - rate.toNat * duration.toNat) ∧ event ≠ uint64Max ∧
        transfer.endNs ≠ event := by
  have first : event.toNat < transfer.endNs.toNat :=
    UInt64.lt_iff_toNat_lt.mp (UInt64.not_le.mp first)
  have word := toNat_le_limit transfer.endNs
  have clock : event.toNat = now.toNat + duration.toNat := by omega
  have apart : event.toNat - now.toNat = duration.toNat := by omega
  have unfinished : rate.toNat * duration.toNat < due := by
    apply Nat.lt_of_not_le
    intro wrong
    have ends := @Held.ends_of_done _ _ _ held running event.toNat (by omega) (by
      rw [same, apart]
      exact wrong)
    omega
  have passed := @Held.pass _ _ _ held event (by omega) (by
    rw [same, apart]
    exact unfinished.le)
  rw [same, apart] at passed
  refine ⟨clock, unfinished, passed, ?_, ?_⟩
  · intro wrong
    rw [wrong, uint64Max_toNat] at first
    omega
  · intro wrong
    rw [wrong] at first
    exact absurd first (lt_irrefl _)

theorem progress_reports (held : Held transfer now due) (more : 0 < due)
    (rates : ∀ interval ∈ intervals, interval.1 ≠ 0) (positive : last ≠ 0) :
    Reports (progress transfer now last intervals).completed
      (doneTimes now.toNat last intervals due) := by
  induction intervals generalizing transfer now due with
  | nil =>
      rcases held.refresh more positive with ⟨after, rate⟩
      have running : 0 < (refreshTransferRate transfer last now).rate.toNat := by
        rw [rate]
        exact Nat.pos_of_ne_zero (ne_zero_iff.mp positive)
      unfold progress
      dsimp only
      split
      · rename_i never
        apply reports_none
        rintro time ⟨later, done⟩
        have ends := after.ends_of_done running later (by rw [rate]; exact done)
        rw [never] at ends
        exact ends
      · rename_i known
        apply reports_some _ known
        refine ⟨⟨after.now_le_ends running more, ?_⟩, ?_⟩
        · have done := after.done_at_end running more known
          rw [rate] at done
          exact done
        · rintro time ⟨later, done⟩
          exact after.ends_of_done running later (by rw [rate]; exact done)
  | cons interval rest ih =>
      rcases interval with ⟨rate, duration⟩
      rcases List.forall_mem_cons.mp rates with ⟨given, others⟩
      have given : rate ≠ 0 := given
      rcases held.refresh more given with ⟨after, same⟩
      have counted : 0 < rate.toNat := Nat.pos_of_ne_zero (ne_zero_iff.mp given)
      have change := saturatedAdd_toNat now duration
      unfold progress
      dsimp only
      generalize refreshTransferRate transfer rate now = refreshed at after same ⊢
      have running : 0 < refreshed.rate.toNat := same ▸ counted
      have inside : ∀ time ∈ doneTimes now.toNat last ((rate, duration) :: rest) due,
          time ≤ now.toNat + duration.toNat → refreshed.endNs.toNat ≤ time := by
        rintro time ⟨later, done⟩ early
        rw [moved_inside early, ← same] at done
        exact after.ends_of_done running later done
      generalize saturatedAdd now duration = event at change ⊢
      have ends_word := toNat_le_limit refreshed.endNs
      by_cases first : refreshed.endNs ≤ event
      · rw [if_pos first, if_pos rfl]
        have first := UInt64.le_iff_toNat_le.mp first
        split
        · rename_i never
          rw [never, uint64Max_toNat] at first
          apply reports_none
          intro time done
          by_contra early
          have ends := inside time done (by omega)
          rw [never, uint64Max_toNat] at ends
          omega
        · rename_i known
          apply reports_some _ known
          refine ⟨⟨after.now_le_ends running more, ?_⟩, ?_⟩
          · have done := after.done_at_end running more known
            rw [same] at done
            rw [moved_inside (by omega)]
            exact done
          · intro time done
            rcases Nat.lt_or_ge (now.toNat + duration.toNat) time with beyond | early
            · omega
            · exact inside time done early
      · rw [if_neg first]
        rcases after.interval running same change first with
          ⟨clock, unfinished, passed, known, apart⟩
        rw [if_neg known, if_neg apart]
        dsimp only
        have before : event.toNat < refreshed.endNs.toNat :=
          UInt64.lt_iff_toNat_lt.mp (UInt64.not_le.mp first)
        have sets : doneTimes now.toNat last ((rate, duration) :: rest) due =
            doneTimes event.toNat last rest (due - rate.toNat * duration.toNat) := by
          ext time
          constructor
          · intro done
            have beyond : event.toNat ≤ time := by
              by_contra early
              have ends := inside time done (by omega)
              omega
            refine ⟨beyond, ?_⟩
            have enough := done.2
            rw [moved_beyond (by omega), ← clock] at enough
            omega
          · rintro ⟨beyond, enough⟩
            refine ⟨by omega, ?_⟩
            rw [moved_beyond (by omega), ← clock]
            omega
        rw [sets]
        exact ih passed (by omega) others

/-- The main loop keeps in each state what is due at its time. -/
theorem progress_held (held : Held transfer now due) (more : 0 < due)
    (rates : ∀ interval ∈ intervals, interval.1 ≠ 0) (positive : last ≠ 0)
    {point : UInt64 × Transfer}
    (mem : point ∈ (progress transfer now last intervals).refreshed) :
    now.toNat ≤ point.1.toNat ∧ moved now.toNat last intervals point.1.toNat ≤ due ∧
      Held point.2 point.1 (due - moved now.toNat last intervals point.1.toNat) := by
  induction intervals generalizing transfer now due with
  | nil =>
      cases List.mem_singleton.mp mem
      rw [moved_before le_rfl, Nat.sub_zero]
      exact ⟨le_rfl, Nat.zero_le _, (held.refresh more positive).1⟩
  | cons interval rest ih =>
      rcases interval with ⟨rate, duration⟩
      rcases List.forall_mem_cons.mp rates with ⟨given, others⟩
      have given : rate ≠ 0 := given
      rcases held.refresh more given with ⟨after, same⟩
      have counted : 0 < rate.toNat := Nat.pos_of_ne_zero (ne_zero_iff.mp given)
      have change := saturatedAdd_toNat now duration
      have here : now.toNat ≤ now.toNat ∧
          moved now.toNat last ((rate, duration) :: rest) now.toNat ≤ due ∧
          Held (refreshTransferRate transfer rate now) now
            (due - moved now.toNat last ((rate, duration) :: rest) now.toNat) := by
        rw [moved_before le_rfl, Nat.sub_zero]
        exact ⟨le_rfl, Nat.zero_le _, after⟩
      unfold progress at mem
      dsimp only at mem
      generalize refreshTransferRate transfer rate now = refreshed at after same here mem
      have running : 0 < refreshed.rate.toNat := same ▸ counted
      generalize saturatedAdd now duration = event at change mem
      by_cases first : refreshed.endNs ≤ event
      · rw [if_pos first, if_pos rfl] at mem
        split at mem
        · cases List.mem_singleton.mp mem
          exact here
        · cases List.mem_singleton.mp mem
          exact here
      · rw [if_neg first] at mem
        rcases after.interval running same change first with
          ⟨clock, unfinished, passed, known, apart⟩
        rw [if_neg known, if_neg apart] at mem
        rcases List.mem_cons.mp mem with head | tail
        · rw [head]
          exact here
        · rcases ih passed (by omega) others tail with ⟨later, less, rest_held⟩
          rw [moved_beyond (by omega), ← clock, ← Nat.sub_sub]
          exact ⟨by omega, by omega, rest_held⟩

/-! ## Copies of nothing -/

theorem refresh_startPhase_zero (start rate : UInt64) :
    refreshTransferRate (startPhase 0 start) rate start = startPhase 0 start := by
  have inactive : payloadActive (startPhase 0 start) start = false := by
    unfold payloadActive startPhase
    simp
  unfold refreshTransferRate setRate
  rw [inactive]
  rfl

theorem progress_startPhase_zero (start last : UInt64)
    (intervals : List (UInt64 × UInt64)) :
    progress (startPhase 0 start) start last intervals =
      { refreshed := [(start, startPhase 0 start)]
        completed := if start = uint64Max then none else some start } := by
  have ends : (startPhase 0 start).endNs = start := rfl
  cases intervals with
  | nil =>
      unfold progress
      rw [refresh_startPhase_zero]
      dsimp only
      rw [ends]
  | cons interval rest =>
      have later : start ≤ saturatedAdd start interval.2 := by
        have word := toNat_le_limit start
        rw [UInt64.le_iff_toNat_le, saturatedAdd_toNat]
        omega
      unfold progress
      dsimp only
      rw [refresh_startPhase_zero, ends, if_pos later]
      split
      · rfl
      · rw [if_pos rfl]

/-! ## The whole timing -/

/-- A copy is reported complete at the first time at which the sum of rate times interval
reaches its bytes, where that is a time of the clock; in between, nothing of it is lost; and
a duration is the ceiling, or nothing where the ceiling does not fit. -/
theorem transfer_timing_exact (bytes start last : UInt64)
    (intervals : List (UInt64 × UInt64)) (positive : last ≠ 0)
    (rates : ∀ interval ∈ intervals, interval.1 ≠ 0) :
    Reports (progress (startPhase bytes start) start last intervals).completed
        (doneTimes start.toNat last intervals (bytes.toNat * 10 ^ 9)) ∧
      (∀ point ∈ (progress (startPhase bytes start) start last intervals).refreshed,
        moved start.toNat last intervals point.1.toNat ≤ bytes.toNat * 10 ^ 9 ∧
          Held point.2 point.1
            (bytes.toNat * 10 ^ 9 - moved start.toNat last intervals point.1.toNat)) ∧
      (∀ numerator denominator, (copyDurationNs numerator denominator).map UInt64.toNat =
        asWord (denominator ≠ 0) (numerator.toNat * 10 ^ 9 ⌈/⌉ denominator.toNat)) ∧
      ∀ program aliasId direction rate,
        (transferDurationNs program aliasId direction rate).map UInt64.toNat =
          asWord (Admissible program aliasId direction rate)
            (transferCost program aliasId direction rate) := by
  refine ⟨?_, ?_, copyDurationNs_eq, transferDurationNs_eq⟩
  · by_cases nothing : bytes = 0
    · rw [nothing, progress_startPhase_zero]
      dsimp only
      have least : IsLeast (doneTimes start.toNat last intervals
          ((0 : UInt64).toNat * 10 ^ 9)) start.toNat := by
        rw [UInt64.toNat_zero, Nat.zero_mul]
        exact ⟨⟨le_rfl, Nat.zero_le _⟩, fun time done => done.1⟩
      split
      · rename_i never
        apply reports_none
        intro time done
        have later := least.2 done
        rw [never, uint64Max_toNat] at later
        exact later
      · rename_i known
        exact reports_some least known
    · apply progress_reports (held_startPhase bytes start) _ rates positive
      exact Nat.mul_pos (Nat.pos_of_ne_zero (ne_zero_iff.mp nothing)) (by decide)
  · intro point mem
    by_cases nothing : bytes = 0
    · rw [nothing, progress_startPhase_zero] at mem
      cases List.mem_singleton.mp mem
      rw [nothing, moved_before le_rfl, Nat.sub_zero]
      exact ⟨Nat.zero_le _, held_startPhase 0 start⟩
    · exact (progress_held (held_startPhase bytes start)
        (Nat.mul_pos (Nat.pos_of_ne_zero (ne_zero_iff.mp nothing)) (by decide))
        rates positive mem).2

/-- Ten bytes at three bytes a second, and after a second at seven. -/
theorem timing_of_ten_bytes :
    Reports (progress (startPhase 10 5) 5 7 [(3, nsPerSecond)]).completed
      (doneTimes (5 : UInt64).toNat 7 [(3, nsPerSecond)] ((10 : UInt64).toNat * 10 ^ 9)) :=
  (transfer_timing_exact 10 5 7 [(3, nsPerSecond)] (by decide) (fun interval mem => by
    cases List.mem_singleton.mp mem
    decide)).1

/-- A copy that is done at the last time of all is not reported. -/
theorem last_time_unreported :
    IsLeast (doneTimes 0 nsPerSecond [] (uint64Max.toNat * 10 ^ 9)) uint64Max.toNat ∧
      (progress (startPhase uint64Max 0) 0 nsPerSecond []).completed = none := by
  have least : IsLeast (doneTimes 0 nsPerSecond [] (uint64Max.toNat * 10 ^ 9))
      uint64Max.toNat := by
    refine ⟨⟨Nat.zero_le _, ?_⟩, ?_⟩
    · unfold moved
      rw [nsPerSecond_toNat, Nat.sub_zero, Nat.mul_comm]
    · rintro time ⟨_, done⟩
      unfold moved at done
      rw [nsPerSecond_toNat, Nat.sub_zero, Nat.mul_comm] at done
      exact Nat.le_of_mul_le_mul_left done (by decide)
  refine ⟨least, ?_⟩
  have reports := progress_reports (held_startPhase uint64Max 0)
    (Nat.mul_pos (by decide) (by decide)) (fun _ mem => absurd mem List.not_mem_nil)
    (by decide : nsPerSecond ≠ 0)
  cases known : (progress (startPhase uint64Max 0) 0 nsPerSecond []).completed with
  | none => rfl
  | some time =>
      rcases (reports time).mp known with ⟨first, early⟩
      have late : time = uint64Max := UInt64.toNat_inj.mp (first.unique least)
      rw [late] at early
      exact absurd early (UInt64.lt_irrefl _)

end ShadowSpill.Simulator.TransferProgress
