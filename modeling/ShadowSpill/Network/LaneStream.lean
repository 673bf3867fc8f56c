import ShadowSpill.Network.LanePlan

/-!
# The route stream of a lane

The stream's stores and copies count upwards, one for each transfer or piece, and a value
wait that is queued ahead of a store asks for less than what the store announces.  Both
survive the oldest operation's execution and the operations of a further call.
-/

namespace ShadowSpill.Network.LaneStream

open RemoteLane LanePlan

/-- The transfer whose gate an operation opens. -/
def gateOf : StreamOp → Option Nat
  | .writeGate handle => some handle
  | _ => none

/-- The count that an operation stores in the device's word. -/
def deviceOf : StreamOp → Option Nat
  | .writeDevice reached => some reached
  | _ => none

/-- The piece that an operation copies across the ring. -/
def copiedOf : StreamOp → Option (Nat × Nat × Nat)
  | .copyAcross chunk localAddress bytes => some (chunk, localAddress, bytes)
  | _ => none

/-- Neither a store nor a copy. -/
def Passive (op : StreamOp) : Prop :=
  gateOf op = none ∧ deviceOf op = none ∧ copiedOf op = none

instance (op : StreamOp) : Decidable (Passive op) :=
  inferInstanceAs (Decidable (_ ∧ _))

/-- A wait ahead of a store is met by the pieces before the store's own, and a copy
comes before its piece's store. -/
def Before (setup : Setup) (transfers : List Work) : StreamOp → StreamOp → Prop
  | .waitValue reached, .writeGate handle => reached ≤ firstOf transfers (handle - 1)
  | .waitValue reached, .writeDevice count =>
    if setup.toRemote then reached < count else reached ≤ count
  | .writeDevice count, .copyAcross chunk _ _ => count ≤ chunk
  | _, _ => True

/-- The operations that a stream has left, after it has opened `gate` gates, stored the
device's word `drained` times and made `copied` copies. -/
structure Pending (setup : Setup) (transfers : List Work) (planned gate drained : Nat)
    (copied : List (Nat × Nat × Nat)) (ops : List StreamOp) : Prop where
  gates : ops.filterMap gateOf =
    if setup.stages then [] else List.Ico (gate + 1) (transfers.length + 1)
  devices : ops.filterMap deviceOf =
    if setup.stages then List.Ico (drained + 1) (planned + 1) else []
  copies : copied ++ ops.filterMap copiedOf =
    if setup.stages then copyPlan setup transfers else []
  opened : gate ≤ transfers.length
  bounded : drained ≤ planned
  ahead : drained ≤ copied.length
  waits : ∀ reached, .waitValue reached ∈ ops → reached ≤ planned
  ordered : ops.Pairwise (Before setup transfers)

section Calls

variable {setup : Setup} {transfers : List Work} {planned gate drained : Nat}
variable {copied : List (Nat × Nat × Nat)} {ops more : List StreamOp} {work : Work}

theorem filterMap_none {α β : Type} {list : List α} {f : α → Option β}
    (none : ∀ value ∈ list, f value = none) : list.filterMap f = [] :=
  List.filterMap_eq_nil_iff.mpr none

theorem before_passive {op earlier : StreamOp} (passive : Passive op) :
    Before setup transfers earlier op := by
  rcases passive with ⟨gate, device, copy⟩
  cases op <;> cases earlier <;> simp_all [Before, gateOf, deviceOf, copiedOf]

/-- A call that neither stores nor copies only adds its waits. -/
theorem Pending.append (pending : Pending setup transfers planned gate drained copied ops)
    (passive : ∀ op ∈ more, Passive op)
    (waits : ∀ reached, .waitValue reached ∈ more → reached ≤ planned) :
    Pending setup transfers planned gate drained copied (ops ++ more) := by
  have gates : more.filterMap gateOf = [] := filterMap_none fun op mem => (passive op mem).1
  have devices : more.filterMap deviceOf = [] :=
    filterMap_none fun op mem => (passive op mem).2.1
  have copies : more.filterMap copiedOf = [] :=
    filterMap_none fun op mem => (passive op mem).2.2
  refine { pending with
    gates := ?_, devices := ?_, copies := ?_, waits := ?_, ordered := ?_ }
  · rw [List.filterMap_append, gates, List.append_nil, pending.gates]
  · rw [List.filterMap_append, devices, List.append_nil, pending.devices]
  · rw [List.filterMap_append, copies, List.append_nil, pending.copies]
  · intro reached mem
    rcases List.mem_append.mp mem with old | new
    · exact pending.waits reached old
    · exact waits reached new
  · apply List.pairwise_append.mpr
    refine ⟨pending.ordered, ?_, fun earlier _ op mem => before_passive (passive op mem)⟩
    apply List.Pairwise.imp_of_mem (R := fun _ _ => True)
    · intro earlier op _ mem _
      exact before_passive (passive op mem)
    · exact List.pairwise_of_forall fun _ _ => trivial

/-- The rest of a call that neither stores nor copies may be left out. -/
theorem Pending.drop (pending : Pending setup transfers planned gate drained copied
      (ops ++ more)) (passive : ∀ op ∈ more, Passive op) :
    Pending setup transfers planned gate drained copied ops := by
  have gates : more.filterMap gateOf = [] := filterMap_none fun op mem => (passive op mem).1
  have devices : more.filterMap deviceOf = [] :=
    filterMap_none fun op mem => (passive op mem).2.1
  have copies : more.filterMap copiedOf = [] :=
    filterMap_none fun op mem => (passive op mem).2.2
  have oldGates := pending.gates
  have oldDevices := pending.devices
  have oldCopies := pending.copies
  rw [List.filterMap_append, gates, List.append_nil] at oldGates
  rw [List.filterMap_append, devices, List.append_nil] at oldDevices
  rw [List.filterMap_append, copies, List.append_nil] at oldCopies
  refine { pending with
    gates := oldGates, devices := oldDevices, copies := oldCopies
    waits := ?_, ordered := ?_ }
  · exact fun reached mem => pending.waits reached (List.mem_append_left _ mem)
  · exact (List.pairwise_append.mp pending.ordered).1

end Calls

/-! ## The operations of a copy -/

section Copies

variable {setup : Setup} {transfers : List Work} {planned gate drained : Nat}
variable {copied : List (Nat × Nat × Nat)} {ops : List StreamOp} {work : Work}

theorem flatMap_range_single {α : Type} (count : Nat) (f : Nat → α) :
    ((List.range count).flatMap fun index => [f index]) = (List.range count).map f := by
  exact List.flatMap_pure_eq_map f _

theorem stagePiece_gates (index : Nat) :
    (stagePiece setup work index).filterMap gateOf = [] := by
  unfold stagePiece
  dsimp only
  split
  · split <;> rfl
  · rfl

theorem stagePiece_devices (index : Nat) :
    (stagePiece setup work index).filterMap deviceOf = [work.firstChunk + index + 1] := by
  unfold stagePiece
  dsimp only
  split
  · split <;> rfl
  · rfl

theorem stagePiece_copies (index : Nat) :
    (stagePiece setup work index).filterMap copiedOf =
      [(work.firstChunk + index, Library.Word64.wrap (work.localAddress + pieceOffset setup index),
        pieceLength setup work index)] := by
  unfold stagePiece
  dsimp only
  split
  · split <;> rfl
  · rfl

theorem stageEnqueue_gates : (stageEnqueue setup work).filterMap gateOf = [] := by
  unfold stageEnqueue
  rw [List.filterMap_flatMap]
  apply List.flatMap_eq_nil_iff.mpr
  exact fun index _ => stagePiece_gates index

theorem stageEnqueue_devices : (stageEnqueue setup work).filterMap deviceOf =
    List.Ico (work.firstChunk + 1) (work.firstChunk + work.chunks + 1) := by
  unfold stageEnqueue
  rw [List.filterMap_flatMap]
  simp only [stagePiece_devices]
  rw [flatMap_range_single, List.Ico, List.range'_eq_map_range]
  have length : work.firstChunk + work.chunks + 1 - (work.firstChunk + 1) = work.chunks := by
    omega
  rw [length]
  apply List.map_congr_left
  intro index _
  omega

theorem stageEnqueue_copies (positive : 0 < setup.pieceBytes)
    (sized : Planned setup work) :
    (stageEnqueue setup work).filterMap copiedOf = copiesOf setup work := by
  unfold stageEnqueue copiesOf
  rw [List.filterMap_flatMap]
  simp only [stagePiece_copies]
  rw [flatMap_range_single]
  apply List.map_congr_left
  intro index mem
  have bound := List.mem_range.mp mem
  rw [pieceOffset_eq positive sized bound, pieceLength_eq positive sized bound]
  rfl

/-- Every operation that a staged piece issues asks for, or announces, the pieces around
it. -/
theorem stagePiece_mem (slots : 0 < setup.ringSlots) {index : Nat} {op : StreamOp}
    (mem : op ∈ stagePiece setup work index) :
    (∃ reached, op = .waitValue reached ∧
        if setup.toRemote then reached ≤ work.firstChunk + index
        else reached = work.firstChunk + index + 1) ∨
      (∃ localAddress bytes, op = .copyAcross (work.firstChunk + index) localAddress bytes) ∨
      op = .writeDevice (work.firstChunk + index + 1) := by
  unfold stagePiece at mem
  dsimp only at mem
  rcases List.mem_append.mp mem with wait | rest
  · refine Or.inl ?_
    split at wait
    · split at wait
      · rename_i remote bound
        refine ⟨_, List.mem_singleton.mp wait, ?_⟩
        rw [if_pos remote]
        omega
      · cases wait
    · rename_i fetch
      refine ⟨_, List.mem_singleton.mp wait, ?_⟩
      rw [if_neg fetch]
  · rcases List.mem_cons.mp rest with copy | store
    · exact Or.inr (Or.inl ⟨_, _, copy⟩)
    · exact Or.inr (Or.inr (List.mem_singleton.mp store))

theorem stagePiece_ordered (slots : 0 < setup.ringSlots) (index : Nat) :
    (stagePiece setup work index).Pairwise (Before setup transfers) := by
  unfold stagePiece
  dsimp only
  split
  · rename_i remote
    split
    · rename_i bound
      simp only [List.singleton_append, List.pairwise_cons, List.mem_cons, List.mem_nil_iff,
        or_false, forall_eq_or_imp, forall_eq, false_implies, implies_true, List.Pairwise.nil,
        and_true, Before, remote, if_true, true_and]
      omega
    · simp [Before]
  · rename_i fetch
    simp [Before, fetch]

theorem stageEnqueue_ordered (slots : 0 < setup.ringSlots) :
    (stageEnqueue setup work).Pairwise (Before setup transfers) := by
  unfold stageEnqueue
  apply List.pairwise_flatMap.mpr
  refine ⟨fun index _ => stagePiece_ordered slots index, ?_⟩
  apply List.Pairwise.imp _ List.pairwise_lt_range
  intro first second less earlier inFirst later inSecond
  rcases stagePiece_mem slots inFirst with ⟨reached, same, bound⟩ | ⟨_, _, same⟩ | same
  · rcases stagePiece_mem slots inSecond with ⟨_, other, _⟩ | ⟨_, _, other⟩ | other
    · rw [same, other]
      trivial
    · rw [same, other]
      trivial
    · rw [same, other]
      show if setup.toRemote then reached < _ else reached ≤ _
      split at bound
      · rename_i remote
        rw [if_pos remote]
        omega
      · rename_i fetch
        rw [if_neg fetch]
        omega
  · rcases stagePiece_mem slots inSecond with ⟨_, other, _⟩ | ⟨_, _, other⟩ | other
    all_goals rw [same, other]; trivial
  · rcases stagePiece_mem slots inSecond with ⟨_, other, _⟩ | ⟨_, _, other⟩ | other
    · rw [same, other]
      trivial
    · rw [same, other]
      show work.firstChunk + first + 1 ≤ work.firstChunk + second
      omega
    · rw [same, other]
      trivial

/-- A copy's operations follow on those of the transfers before it. -/
theorem Pending.publish (positive : 0 < setup.pieceBytes) (slots : 0 < setup.ringSlots)
    (pending : Pending setup transfers planned gate drained copied ops)
    (total : firstOf transfers transfers.length = planned)
    (sized : Planned setup work) (first : work.firstChunk = planned)
    (handle : work.handle = transfers.length + 1) :
    Pending setup (transfers ++ [work]) (planned + work.chunks) gate drained copied
      (ops ++ copyOps setup work) := by
  have opened := pending.opened
  have bounded := pending.bounded
  have gates := pending.gates
  have devices := pending.devices
  have copies := pending.copies
  have kept : ops.Pairwise (Before setup (transfers ++ [work])) := by
    apply List.Pairwise.imp_of_mem _ pending.ordered
    intro earlier later _ mem before
    cases earlier with
    | waitValue reached =>
        cases later with
        | writeGate other =>
            have old : other ∈ ops.filterMap gateOf := List.mem_filterMap.mpr ⟨_, mem, rfl⟩
            rw [gates] at old
            split at old
            · cases old
            · have bound := (List.Ico.mem.mp old).2
              show reached ≤ firstOf (transfers ++ [work]) (other - 1)
              rw [firstOf_append (by omega)]
              exact before
        | _ => exact before
    | _ => cases later <;> exact before
  have length : (transfers ++ [work]).length = transfers.length + 1 := by simp
  unfold copyOps
  cases stages : setup.stages with
  | true =>
      rw [stages, if_pos rfl] at gates devices copies
      refine ⟨?_, ?_, ?_, ?_, ?_, pending.ahead, ?_, ?_⟩
      · rw [if_pos rfl, List.filterMap_append, gates, stageEnqueue_gates, stages]
        rfl
      · rw [if_pos rfl, List.filterMap_append, devices, stageEnqueue_devices, first, stages,
          if_pos rfl]
        exact List.Ico.append_consecutive (by omega) (by omega)
      · rw [if_pos rfl, List.filterMap_append, ← List.append_assoc, copies,
          stageEnqueue_copies positive sized, copyPlan_append, stages, if_pos rfl]
      · omega
      · omega
      · intro reached mem
        rw [if_pos rfl] at mem
        rcases List.mem_append.mp mem with old | new
        · have bound := pending.waits reached old
          omega
        · rcases List.mem_flatMap.mp new with ⟨index, inside, issued⟩
          have index_lt := List.mem_range.mp inside
          rcases stagePiece_mem slots issued with ⟨_, same, bound⟩ | ⟨_, _, same⟩ | same
          · cases same
            split at bound <;> omega
          · cases same
          · cases same
      · rw [if_pos rfl]
        apply List.pairwise_append.mpr
        refine ⟨kept, stageEnqueue_ordered slots, ?_⟩
        intro earlier old later new
        rcases List.mem_flatMap.mp new with ⟨index, _, issued⟩
        rcases stagePiece_mem slots issued with ⟨_, same, _⟩ | ⟨_, _, same⟩ | same
        · rw [same]
          cases earlier <;> trivial
        · rw [same]
          cases earlier with
          | writeDevice count =>
              have stored : count ∈ ops.filterMap deviceOf :=
                List.mem_filterMap.mpr ⟨_, old, rfl⟩
              rw [devices] at stored
              have bound := (List.Ico.mem.mp stored).2
              show count ≤ work.firstChunk + index
              omega
          | _ => trivial
        · rw [same]
          cases earlier with
          | waitValue reached =>
              have bound := pending.waits reached old
              show if setup.toRemote then reached < _ else reached ≤ _
              split <;> omega
          | _ => trivial
  | false =>
      rw [stages, if_neg Bool.false_ne_true] at gates devices copies
      refine ⟨?_, ?_, ?_, ?_, ?_, pending.ahead, ?_, ?_⟩
      · rw [if_neg Bool.false_ne_true, List.filterMap_append, gates, stages,
          if_neg Bool.false_ne_true, length]
        show _ ++ [work.handle] = _
        rw [handle]
        exact (List.Ico.succ_top (by omega)).symm
      · rw [if_neg Bool.false_ne_true, List.filterMap_append, devices, stages]
        rfl
      · rw [if_neg Bool.false_ne_true, List.filterMap_append, ← List.append_assoc, copies,
          stages]
        rfl
      · omega
      · omega
      · intro reached mem
        rw [if_neg Bool.false_ne_true] at mem
        rcases List.mem_append.mp mem with old | new
        · have bound := pending.waits reached old
          omega
        · cases List.mem_singleton.mp new
      · rw [if_neg Bool.false_ne_true]
        apply List.pairwise_append.mpr
        refine ⟨kept, List.pairwise_singleton _ _, ?_⟩
        intro earlier old later new
        rw [List.mem_singleton.mp new]
        cases earlier with
        | waitValue reached =>
            have bound := pending.waits reached old
            show reached ≤ firstOf (transfers ++ [work]) (work.handle - 1)
            rw [handle, Nat.add_sub_cancel, firstOf_append le_rfl, total]
            exact bound
        | _ => trivial

end Copies

/-! ## The oldest operation -/

section Oldest

variable {setup : Setup} {transfers : List Work} {planned gate drained : Nat}
variable {copied : List (Nat × Nat × Nat)} {op : StreamOp} {rest : List StreamOp}

theorem Pending.passive_tail
    (pending : Pending setup transfers planned gate drained copied (op :: rest))
    (passive : Passive op) :
    Pending setup transfers planned gate drained copied rest := by
  rcases passive with ⟨noGate, noDevice, noCopy⟩
  have gates := pending.gates
  have devices := pending.devices
  have copies := pending.copies
  rw [List.filterMap_cons_none noGate] at gates
  rw [List.filterMap_cons_none noDevice] at devices
  rw [List.filterMap_cons_none noCopy] at copies
  exact { pending with
    gates := gates, devices := devices, copies := copies
    waits := fun reached mem => pending.waits reached (List.mem_cons_of_mem _ mem)
    ordered := (List.pairwise_cons.mp pending.ordered).2 }

theorem Pending.copy_tail {chunk localAddress bytes : Nat}
    (pending : Pending setup transfers planned gate drained copied
      (.copyAcross chunk localAddress bytes :: rest)) :
    Pending setup transfers planned gate drained
      (copied ++ [(chunk, localAddress, bytes)]) rest := by
  refine { pending with
    gates := pending.gates, devices := pending.devices, copies := ?_, ahead := ?_
    waits := fun reached mem => pending.waits reached (List.mem_cons_of_mem _ mem)
    ordered := (List.pairwise_cons.mp pending.ordered).2 }
  · rw [List.append_assoc]
    exact pending.copies
  · have ahead := pending.ahead
    rw [List.length_append]
    omega

/-- A gate opens for the next transfer, and only on the direct path. -/
theorem Pending.gate_tail {handle : Nat}
    (pending : Pending setup transfers planned gate drained copied
      (.writeGate handle :: rest)) :
    setup.stages = false ∧ handle = gate + 1 ∧
      Pending setup transfers planned handle drained copied rest := by
  have gates : handle :: rest.filterMap gateOf =
      if setup.stages then [] else List.Ico (gate + 1) (transfers.length + 1) :=
    pending.gates
  cases stages : setup.stages with
  | true => simp [stages] at gates
  | false =>
      rw [stages, if_neg Bool.false_ne_true] at gates
      have room : gate + 1 < transfers.length + 1 := by
        by_contra full
        rw [List.Ico.eq_nil_of_le (Nat.le_of_not_lt full)] at gates
        cases gates
      rw [List.Ico.eq_cons room] at gates
      obtain ⟨same, others⟩ := List.cons.inj gates
      refine ⟨rfl, same, ?_⟩
      refine { pending with
        gates := ?_, devices := pending.devices, copies := pending.copies, opened := ?_
        waits := fun reached mem => pending.waits reached (List.mem_cons_of_mem _ mem)
        ordered := (List.pairwise_cons.mp pending.ordered).2 }
      · rw [others, same, stages]
        rfl
      · omega

/-- The device's word is stored for the next piece, after that piece was copied. -/
theorem Pending.device_tail {reached : Nat}
    (pending : Pending setup transfers planned gate drained copied
      (.writeDevice reached :: rest))
    (numbered : (copyPlan setup transfers).map Prod.fst = List.range planned) :
    setup.stages = true ∧ reached = drained + 1 ∧
      Pending setup transfers planned gate (drained + 1) copied rest := by
  have devices : reached :: rest.filterMap deviceOf =
      if setup.stages then List.Ico (drained + 1) (planned + 1) else [] := pending.devices
  have copies : copied ++ rest.filterMap copiedOf =
      if setup.stages then copyPlan setup transfers else [] := pending.copies
  cases stages : setup.stages with
  | false => simp [stages] at devices
  | true =>
      rw [stages, if_pos rfl] at devices copies
      have room : drained + 1 < planned + 1 := by
        by_contra full
        rw [List.Ico.eq_nil_of_le (Nat.le_of_not_lt full)] at devices
        cases devices
      rw [List.Ico.eq_cons room] at devices
      obtain ⟨same, others⟩ := List.cons.inj devices
      have copiedOne : drained + 1 ≤ copied.length := by
        -- Otherwise the copy of this piece would come after the store.
        by_contra behind
        have level : copied.length = drained := by
          have ahead := pending.ahead
          omega
        have numbers := congrArg (fun list => (list.map Prod.fst)[drained]?) copies
        rw [numbered, List.getElem?_range (by omega), List.map_append,
          List.getElem?_append_right (by rw [List.length_map]; omega), List.length_map,
          level, Nat.sub_self, List.getElem?_map] at numbers
        obtain ⟨⟨chunk, localAddress, bytes⟩, first, isDrained⟩ :=
          Option.map_eq_some_iff.mp numbers
        have mem := List.mem_of_getElem? first
        obtain ⟨op, later, copy⟩ := List.mem_filterMap.mp mem
        cases op with
        | copyAcross other address length =>
            cases copy
            have below : reached ≤ chunk :=
              (List.pairwise_cons.mp pending.ordered).1 _ later
            have number : chunk = drained := isDrained
            omega
        | _ => cases copy
      refine ⟨rfl, same, ?_⟩
      refine { pending with
        gates := pending.gates, devices := ?_, copies := pending.copies, bounded := ?_
        ahead := copiedOne
        waits := fun reached mem => pending.waits reached (List.mem_cons_of_mem _ mem)
        ordered := (List.pairwise_cons.mp pending.ordered).2 }
      · rw [others, stages]
        rfl
      · omega

end Oldest

end ShadowSpill.Network.LaneStream
