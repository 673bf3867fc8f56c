import ShadowSpill.Ir.KnownNames

/-!
# What indexing loses

An indexed form determines everything of a program but its transfer recipes and its timing
measurements.  Every program that declares an alias group or a profile therefore shares its
form with another program: the one whose recipes and overlap costs are there where its own
are not.
-/

namespace ShadowSpill.Ir.IndexLoss

open Records PlanRecords IndexedForms IndexFacts KnownNames Library.Checks Library.NameTables

/-! ## Programs up to their timings -/

/-- Two programs have the same transfer recipes and the same timing measurements. -/
structure SameTimings (program other : ProgramRecord) : Prop where
  transfers : program.aliasGroups.map (·.transfer) = other.aliasGroups.map (·.transfer)
  resourcePhases :
    program.profiles.map (·.resourcePhases) = other.profiles.map (·.resourcePhases)
  overlapCosts : program.profiles.map (·.overlapCosts) = other.profiles.map (·.overlapCosts)

theorem SameTimings.refl (program : ProgramRecord) : SameTimings program program :=
  ⟨rfl, rfl, rfl⟩

/-- The lists of two programs that agree up to timings. -/
structure SameRest (program other : ProgramRecord) : Prop where
  devices : program.devices = other.devices
  aliasGroups : program.aliasGroups.map (·.untimed) = other.aliasGroups.map (·.untimed)
  objects : program.objects = other.objects
  profiles : program.profiles.map (·.untimed) = other.profiles.map (·.untimed)
  tasks : program.tasks = other.tasks
  groups : program.taskAlternativeGroups = other.taskAlternativeGroups

theorem sameRest_of_untimed {program other : ProgramRecord}
    (same : program.untimed = other.untimed) : SameRest program other := by
  unfold ProgramRecord.untimed at same
  rw [ProgramRecord.mk.injEq] at same
  obtain ⟨devices, aliasGroups, objects, profiles, tasks, groups⟩ := same
  exact ⟨devices, aliasGroups, objects, profiles, tasks, groups⟩

/-- A program is its untimed rest with its timings. -/
theorem eq_of_untimed {program other : ProgramRecord}
    (same : program.untimed = other.untimed) (timings : SameTimings program other) :
    program = other := by
  obtain ⟨devices, aliasRest, objects, profileRest, tasks, groups⟩ := sameRest_of_untimed same
  have aliasGroups : program.aliasGroups = other.aliasGroups := by
    refine List.map_injective_iff.mpr ?_ (map_pair aliasRest timings.transfers)
    rintro ⟨_, _, _, _, _, _, _⟩ ⟨_, _, _, _, _, _, _⟩ equal
    cases equal
    rfl
  have profiles : program.profiles = other.profiles := by
    refine List.map_injective_iff.mpr ?_
      (map_pair profileRest (map_pair timings.resourcePhases timings.overlapCosts))
    rintro ⟨_, _, _, _, _, _⟩ ⟨_, _, _, _, _, _⟩ equal
    cases equal
    rfl
  cases program
  cases other
  cases devices
  cases aliasGroups
  cases objects
  cases profiles
  cases tasks
  cases groups
  rfl

/-- Two checked programs have one indexed form exactly when they agree up to timings. -/
theorem indexProgram_eq_iff (program other : ShadowSpillProgram) :
    indexProgram program.toProgramRecord = indexProgram other.toProgramRecord ↔
      program.untimed = other.untimed := by
  constructor
  · intro same
    obtain ⟨form, indexed⟩ := indexProgram_isSome program
    exact untimed_eq (indexProgram_some indexed) (indexProgram_some (same ▸ indexed))
  · intro same
    rw [← indexProgram_untimed program.toProgramRecord, same, indexProgram_untimed]

/-! ## Retiming a program -/

/-- A recipe that copies. -/
def plainTransfer : TransferSpec where
  spillSizeBytes := 0
  fetch := [⟨"copy", 0, 0, none, false, none⟩]
  evict := [⟨"copy", 0, 0, none, false, none⟩]

def plainCost : TaskOverlapCost where
  timingClass := "copy"
  bytes := 0
  taskRate := 1
  transferRate := 1

/-- The group with a recipe where it has none, and without the recipe that it has. -/
def retimeGroup (aliasGroup : AliasGroupSpec) : AliasGroupSpec :=
  { aliasGroup with
    transfer := if aliasGroup.transfer.isSome then none else some plainTransfer }

def retimeProfile (profile : TaskProfile) : TaskProfile :=
  { profile with overlapCosts := if profile.overlapCosts.isEmpty then [plainCost] else [] }

def retime (program : ProgramRecord) : ProgramRecord :=
  { program with
    aliasGroups := program.aliasGroups.map retimeGroup
    profiles := program.profiles.map retimeProfile }

theorem plainTransfer_check : plainTransfer.check = .ok () := by decide +kernel

theorem plainCost_check : plainCost.check = .ok () := by decide +kernel

theorem retimeGroup_ne (aliasGroup : AliasGroupSpec) : retimeGroup aliasGroup ≠ aliasGroup := by
  intro same
  have transfers := congrArg AliasGroupSpec.transfer same
  unfold retimeGroup at transfers
  cases isTransfer : aliasGroup.transfer <;> simp [isTransfer] at transfers

theorem retimeProfile_ne (profile : TaskProfile) : retimeProfile profile ≠ profile := by
  intro same
  have costs := congrArg TaskProfile.overlapCosts same
  unfold retimeProfile at costs
  cases isCosts : profile.overlapCosts <;> simp [isCosts] at costs

theorem retimeGroup_check {aliasGroup : AliasGroupSpec}
    (passed : aliasGroup.check = .ok ()) : (retimeGroup aliasGroup).check = .ok () := by
  unfold AliasGroupSpec.check at passed ⊢
  obtain ⟨_, rest⟩ := check_bind_ok.mp passed
  refine check_bind_ok.mpr ⟨?_, rest⟩
  unfold retimeGroup
  cases aliasGroup.transfer with
  | none => exact plainTransfer_check
  | some transfer => rfl

theorem retimeProfile_check {profile : TaskProfile} (passed : profile.check = .ok ()) :
    (retimeProfile profile).check = .ok () := by
  unfold TaskProfile.check at passed ⊢
  simp only [check_bind_ok] at passed ⊢
  obtain ⟨phases, _, profileId, digest, timing⟩ := passed
  unfold validateTaskTiming at timing ⊢
  obtain ⟨durations, _⟩ := check_bind_ok.mp timing
  refine ⟨phases, ?_, profileId, digest, check_bind_ok.mpr ⟨durations, ?_⟩⟩
  · unfold retimeProfile
    cases profile.overlapCosts with
    | nil => exact check_bind_ok.mpr ⟨plainCost_check, rfl⟩
    | cons cost rest => rfl
  · unfold retimeProfile
    cases profile.overlapCosts with
    | nil => rfl
    | cons cost rest => rfl

/-- A check that does not read the index is a check of every element. -/
theorem each_iff {ε α : Type} {check : α → Except ε Unit} {index : Nat} {values : List α} :
    each (fun _ value => check value) index values = .ok () ↔
      ∀ value ∈ values, check value = .ok () := by
  constructor
  · intro success value mem
    obtain ⟨_, passed⟩ := each_ok_mem success mem
    exact passed
  · intro all
    exact each_ok.mpr fun position value found => all value (List.mem_of_getElem? found)

theorem retime_untimed (program : ProgramRecord) :
    (retime program).untimed = program.untimed := by
  unfold retime ProgramRecord.untimed
  simp only [List.map_map]
  rfl

theorem retime_check {program : ProgramRecord} (passed : program.check = .ok ()) :
    (retime program).check = .ok () := by
  unfold ProgramRecord.check at passed ⊢
  obtain ⟨parts, rest⟩ := check_bind_ok.mp passed
  refine check_bind_ok.mpr ⟨?_, ?_⟩
  · unfold ProgramRecord.checkParts at parts ⊢
    simp only [check_bind_ok, each_iff] at parts ⊢
    obtain ⟨devices, aliasGroups, objects, profiles, tasks⟩ := parts
    refine ⟨devices, ?_, objects, ?_, tasks⟩
    · exact List.forall_mem_map.mpr fun item mem => retimeGroup_check (aliasGroups item mem)
    · exact List.forall_mem_map.mpr fun item mem => retimeProfile_check (profiles item mem)
  · rw [← outline_untimed, retime_untimed, outline_untimed]
    exact rest

/-- A program with an alias group or a profile is not its retimed self. -/
theorem retime_eq_iff (program : ProgramRecord) :
    retime program = program ↔ program.aliasGroups = [] ∧ program.profiles = [] := by
  constructor
  · intro same
    have aliasGroups : program.aliasGroups.map retimeGroup = program.aliasGroups :=
      congrArg ProgramRecord.aliasGroups same
    have profiles : program.profiles.map retimeProfile = program.profiles :=
      congrArg ProgramRecord.profiles same
    constructor
    · cases groups : program.aliasGroups with
      | nil => rfl
      | cons head rest =>
          rw [groups, List.map_cons, List.cons.injEq] at aliasGroups
          exact absurd aliasGroups.1 (retimeGroup_ne head)
    · cases isProfiles : program.profiles with
      | nil => rfl
      | cons head rest =>
          rw [isProfiles, List.map_cons, List.cons.injEq] at profiles
          exact absurd profiles.1 (retimeProfile_ne head)
  · rintro ⟨noGroups, noProfiles⟩
    unfold retime
    rw [noGroups, noProfiles, List.map_nil, List.map_nil, ← noGroups, ← noProfiles]

/-- The retimed program is checked, and has the same indexed form. -/
def retimed (program : ShadowSpillProgram) : ShadowSpillProgram where
  toProgramRecord := retime program.toProgramRecord
  checked := retime_check program.checked

/-- Without alias groups and profiles there is nothing that a form forgets. -/
theorem sameTimings_of_untimed {program other : ProgramRecord}
    (same : program.untimed = other.untimed)
    (nothing : program.aliasGroups = [] ∧ program.profiles = []) : SameTimings program other := by
  obtain ⟨_, aliasRest, _, profileRest, _, _⟩ := sameRest_of_untimed same
  rw [nothing.1, List.map_nil, eq_comm, List.map_eq_nil_iff] at aliasRest
  rw [nothing.2, List.map_nil, eq_comm, List.map_eq_nil_iff] at profileRest
  constructor
  case transfers => rw [nothing.1, aliasRest]
  case resourcePhases => rw [nothing.2, profileRest]
  case overlapCosts => rw [nothing.2, profileRest]

/-! ## Plans up to their timings -/

/-- Two plans agree in everything but the timings of their programs. -/
structure AgreeButTimings (plan other : PlanFields) : Prop where
  program : plan.program.untimed = other.program.untimed
  schedule : plan.schedule = other.schedule
  selections : plan.selections = other.selections
  entrypoints : plan.entrypoints = other.entrypoints
  admission : plan.admission = other.admission
  prediction : plan.prediction = other.prediction

theorem AgreeButTimings.eq {plan other : ExecutionPlan}
    (agree : AgreeButTimings plan.toPlanFields other.toPlanFields)
    (timings : SameTimings plan.program.toProgramRecord other.program.toProgramRecord) :
    plan = other := by
  have programs : plan.program = other.program :=
    ShadowSpillProgram.ext (eq_of_untimed agree.program timings)
  apply ExecutionPlan.ext
  obtain ⟨_, schedules, selections, entrypoints, admissions, predictions⟩ := agree
  revert programs schedules selections entrypoints admissions predictions
  generalize plan.toPlanFields = fields, other.toPlanFields = otherFields
  intro programs schedules selections entrypoints admissions predictions
  cases fields
  cases otherFields
  cases programs
  cases schedules
  cases selections
  cases entrypoints
  cases admissions
  cases predictions
  rfl

/-- No value of a form is about a timing. -/
theorem indexExecutionPlan_congr {plan other : PlanFields}
    (agree : AgreeButTimings plan other) :
    indexExecutionPlan plan = indexExecutionPlan other := by
  have rest := sameRest_of_untimed agree.program
  have form : indexProgram plan.program.toProgramRecord =
      indexProgram other.program.toProgramRecord :=
    (indexProgram_eq_iff _ _).mpr agree.program
  have schedules : ∀ schedule : ScheduleFields,
      indexMemorySchedule plan.program.toProgramRecord schedule =
        indexMemorySchedule other.program.toProgramRecord schedule := by
    intro schedule
    have aliasIds : plan.program.aliasGroups.map (·.aliasGroupId) =
        other.program.aliasGroups.map (·.aliasGroupId) := by
      refine map_of_map rest.aliasGroups ?_
      rintro ⟨_, _, _, _, _, _, _⟩ ⟨_, _, _, _, _, _, _⟩ same
      cases same
      rfl
    unfold indexMemorySchedule
    rw [aliasIds, rest.tasks]
  unfold indexExecutionPlan
  rw [form, agree.schedule, schedules, agree.selections, rest.groups, agree.entrypoints,
    agree.admission, agree.prediction]

theorem indexExecutionPlan_eq_iff (plan other : ExecutionPlan) :
    indexExecutionPlan plan.toPlanFields = indexExecutionPlan other.toPlanFields ↔
      AgreeButTimings plan.toPlanFields other.toPlanFields := by
  constructor
  · intro same
    obtain ⟨form, indexed⟩ := indexExecutionPlan_isSome plan
    obtain ⟨program, schedule, selections, entrypoints, admission, prediction⟩ :=
      plan_eq (indexExecutionPlan_some indexed) (indexExecutionPlan_some (same ▸ indexed))
    exact ⟨program, schedule, selections, entrypoints, admission, prediction⟩
  · exact indexExecutionPlan_congr

theorem checkSchedule_retime (program : ProgramRecord) (outline : Program.ShadowSpillProgram)
    (active : List Program.TaskSpec) (schedule : MemorySchedule) :
    checkSchedule (retime program) outline active schedule =
      checkSchedule program outline active schedule := by
  have retained : ∀ aliasId : Nat,
      (retime program).aliasGroups[aliasId]?.map AliasGroupSpec.retainSpillCopy =
        program.aliasGroups[aliasId]?.map AliasGroupSpec.retainSpillCopy := by
    intro aliasId
    unfold retime
    dsimp only
    rw [List.getElem?_map, Option.map_map]
    rfl
  unfold checkSchedule
  simp only [retained]

/-- The plan with its program retimed is checked too. -/
def retimedPlan (plan : ExecutionPlan) : ExecutionPlan where
  toPlanFields := { plan.toPlanFields with program := retimed plan.program }
  checked := by
    have passed := plan.checked
    have outline : (retime plan.program.toProgramRecord).outline = plan.program.outline := by
      rw [← outline_untimed, retime_untimed, outline_untimed]
    unfold PlanFields.check at passed ⊢
    unfold retimed
    dsimp only
    simp only [outline, checkSchedule_retime]
    exact passed

theorem retimedPlan_agrees (plan : ExecutionPlan) :
    AgreeButTimings plan.toPlanFields (retimedPlan plan).toPlanFields :=
  ⟨(retime_untimed _).symm, rfl, rfl, rfl, rfl, rfl⟩

/-! ## Exactly when nothing is lost -/

/-- Indexing tells two programs, or two plans, apart exactly when they do not differ in their
timings alone; it tells one of them from all others exactly when it declares no alias group
and no profile.  Schedules over one program are told apart, and all indices and offsets are
in range. -/
theorem index_lossless_iff (program other : ShadowSpillProgram) (plan otherPlan : ExecutionPlan)
    (schedule otherSchedule : MemorySchedule) :
    ((indexProgram program.toProgramRecord = indexProgram other.toProgramRecord →
          program = other) ↔
        (program.untimed = other.untimed →
          SameTimings program.toProgramRecord other.toProgramRecord)) ∧
    ((∀ another : ShadowSpillProgram,
          indexProgram program.toProgramRecord = indexProgram another.toProgramRecord →
            program = another) ↔
        program.aliasGroups = [] ∧ program.profiles = []) ∧
    (∀ form : IndexedMemorySchedule,
      indexMemorySchedule program.toProgramRecord schedule.toScheduleFields = some form →
        indexMemorySchedule program.toProgramRecord otherSchedule.toScheduleFields = some form →
          schedule = otherSchedule) ∧
    ((indexExecutionPlan plan.toPlanFields = indexExecutionPlan otherPlan.toPlanFields →
          plan = otherPlan) ↔
        (AgreeButTimings plan.toPlanFields otherPlan.toPlanFields →
          SameTimings plan.program.toProgramRecord otherPlan.program.toProgramRecord)) ∧
    ((∀ another : ExecutionPlan,
          indexExecutionPlan plan.toPlanFields = indexExecutionPlan another.toPlanFields →
            plan = another) ↔
        plan.program.aliasGroups = [] ∧ plan.program.profiles = []) ∧
    (∃ form, indexProgram program.toProgramRecord = some form ∧ InRange form ∧
      ∀ indexed : IndexedMemorySchedule,
        indexMemorySchedule program.toProgramRecord schedule.toScheduleFields = some indexed →
          ScheduleInRange form indexed) ∧
    ∃ form, indexExecutionPlan plan.toPlanFields = some form ∧ PlanInRange form := by
  refine ⟨?_, ?_, ?_, ?_, ?_, ?_, ?_⟩
  · rw [indexProgram_eq_iff]
    constructor
    · intro apart same
      rw [apart same]
      exact SameTimings.refl _
    · intro timings same
      exact ShadowSpillProgram.ext (eq_of_untimed same (timings same))
  · constructor
    · intro apart
      have twin := apart (retimed program)
        ((indexProgram_eq_iff _ _).mpr (retime_untimed _).symm)
      exact (retime_eq_iff _).mp (congrArg ShadowSpillProgram.toProgramRecord twin).symm
    · intro nothing another same
      have untimed := (indexProgram_eq_iff _ _).mp same
      exact ShadowSpillProgram.ext
        (eq_of_untimed untimed (sameTimings_of_untimed untimed nothing))
  · intro form first second
    exact MemorySchedule.ext
      (schedule_eq (indexMemorySchedule_some first) (indexMemorySchedule_some second))
  · rw [indexExecutionPlan_eq_iff]
    constructor
    · intro apart same
      rw [apart same]
      exact SameTimings.refl _
    · intro timings same
      exact same.eq (timings same)
  · constructor
    · intro apart
      have twin := apart (retimedPlan plan)
        ((indexExecutionPlan_eq_iff _ _).mpr (retimedPlan_agrees plan))
      have programs : plan.program = retimed plan.program :=
        congrArg (fun another : ExecutionPlan => another.program) twin
      exact (retime_eq_iff _).mp (congrArg ShadowSpillProgram.toProgramRecord programs).symm
    · intro nothing another same
      have agree := (indexExecutionPlan_eq_iff _ _).mp same
      exact agree.eq (sameTimings_of_untimed agree.program nothing)
  · obtain ⟨form, indexed⟩ := indexProgram_isSome program
    have projects := indexProgram_some indexed
    refine ⟨form, indexed, projects.inRange, ?_⟩
    intro scheduled isForm
    exact (indexMemorySchedule_some isForm).inRange projects
  · obtain ⟨form, indexed⟩ := indexExecutionPlan_isSome plan
    exact ⟨form, indexed, (indexExecutionPlan_some indexed).inRange⟩

/-! ## Two programs with one form -/

/-- A device with one alias group of eight bytes, and nothing that runs. -/
def storedBytes : ProgramRecord where
  devices := [⟨"device_0", "process_0", "gpu", 0⟩]
  aliasGroups := [⟨"alias_0", "device_0", 8, 0, false, none, none⟩]
  objects := []
  profiles := []
  tasks := []
  taskAlternativeGroups := []

def storedProgram : ShadowSpillProgram where
  toProgramRecord := storedBytes
  checked := by decide +kernel

def storedPlan : ExecutionPlan where
  program := storedProgram
  schedule := ⟨⟨[], [], []⟩, by decide +kernel⟩
  selections := []
  entrypoints := []
  admission := ⟨8, 8, 0, 0, 8, 0, 0, 0, false⟩
  prediction := ⟨8, 0, 0⟩
  checked := by decide +kernel

/-- Another plan has the form of the stored one. -/
theorem index_lossless_iff_stored :
    ¬ ∀ other : ExecutionPlan,
      indexExecutionPlan storedPlan.toPlanFields = indexExecutionPlan other.toPlanFields →
        storedPlan = other :=
  mt (index_lossless_iff storedProgram storedProgram storedPlan storedPlan storedPlan.schedule
    storedPlan.schedule).2.2.2.2.1.mp (by decide)

/-- The alias group with a transfer recipe is another program with the same form. -/
theorem index_forgets_transfer :
    ∃ other : ShadowSpillProgram,
      other.aliasGroups.map (·.transfer) = [some plainTransfer] ∧ other ≠ storedProgram ∧
        indexProgram other.toProgramRecord = indexProgram storedProgram.toProgramRecord := by
  refine ⟨retimed storedProgram, rfl, ?_, rfl⟩
  intro same
  have transfers := congrArg (fun program : ShadowSpillProgram =>
    program.aliasGroups.map (·.transfer)) same
  exact absurd transfers (by decide)

end ShadowSpill.Ir.IndexLoss
