import ShadowSpill.Ir.PlanRecords
import ShadowSpill.Library.JsonReader
import ShadowSpill.Library.NameTables
import ShadowSpill.Planner.Search.StreamingHash

/-!
# The name of a schedule

A schedule's name is the hash of its canonical JSON.  The planner holds schedules as columns
of indices and codes, and writes the same text straight into the hash from names escaped once
for a program.  What it writes for the columns is the text of the schedule that they decode
to, and the text determines the schedule.
-/

namespace ShadowSpill.Planner.Search.ScheduleDigest

open Library Library.JsonText Library.JsonReader Library.Sha256 StreamingHash
open Ir.PlanRecords (ResidencySpec MemoryAction ScheduleFields)
open Ir.Schedule (MemoryActionKind)
open Residency.Problem (MemoryLocation)

/-! ## The text of a schedule -/

/-- The spelling of a location. -/
def locationValue : MemoryLocation → String
  | .device => "device"
  | .spill => "host"

/-- The spelling of an action's kind. -/
def kindValue : MemoryActionKind → String
  | .release => "release"
  | .evict => "evict"
  | .fetch => "fetch"
  | .writeBack => "write_back"

/-- `ARTIFACT_VERSION`. -/
def artifactVersion : Nat := 1

def artifactSchema (kind : String) : String :=
  "shadowspill." ++ kind ++ "/v" ++ toString artifactVersion

/-- `ResidencySpec.to_dict`. -/
def residencyValue (item : ResidencySpec) : Json :=
  .object [("alias_group_id", .text item.aliasGroupId),
    ("location", .text (locationValue item.location))]

/-- `MemoryAction.to_dict`. -/
def actionValue (action : MemoryAction) : Json :=
  .object [("alias_group_id", .text action.aliasGroupId),
    ("kind", .text (kindValue action.kind)),
    ("trigger_task_id", .text action.triggerTaskId)]

/-- `MemorySchedule.to_dict`. -/
def toDict (schedule : ScheduleFields) : Json :=
  .object [("actions", .list (schedule.actions.map actionValue)),
    ("final_residency", .list (schedule.finalResidency.map residencyValue)),
    ("initial_residency", .list (schedule.initialResidency.map residencyValue)),
    ("schema", .text (artifactSchema "memory_schedule"))]

/-- `MemorySchedule.to_json`. -/
def toJson (schedule : ScheduleFields) : List Char := canonicalText false (toDict schedule)

/-- `MemorySchedule.digest`, before it is spelled in hexadecimal. -/
def digest (schedule : ScheduleFields) : List UInt8 := sha256 (utf8 (toJson schedule))

/-! ## Schedules in index space -/

/-- `ShadowSpillIndexedSchedule`. -/
structure IndexedSchedule where
  actionCount : Nat
  actionTriggerTasks : List Nat
  actionAliases : List Nat
  actionKinds : List Nat
  initialCount : Nat
  initialAliases : List Nat
  initialLocations : List Nat
  finalCount : Nat
  finalAliases : List Nat
  finalLocations : List Nat
  deriving DecidableEq, Repr

/-- `_LOCATION`. -/
def decodeLocation : Nat → Option MemoryLocation
  | 0 => some .device
  | 1 => some .spill
  | _ => none

/-- `_ACTION_KIND`. -/
def decodeKind : Nat → Option MemoryActionKind
  | 0 => some .release
  | 1 => some .evict
  | 2 => some .fetch
  | 3 => some .writeBack
  | _ => none

/-- One action of `decode_schedule`. -/
def decodeAction (aliasIds taskIds : List String) (schedule : IndexedSchedule) (index : Nat) :
    Option MemoryAction := do
  let task ← schedule.actionTriggerTasks[index]?
  let aliasIndex ← schedule.actionAliases[index]?
  let kind ← schedule.actionKinds[index]?
  some {
    triggerTaskId := ← taskIds[task]?
    aliasGroupId := ← aliasIds[aliasIndex]?
    kind := ← decodeKind kind }

/-- One boundary residency of `decode_schedule`. -/
def decodeResidency (aliasIds : List String) (aliases locations : List Nat) (index : Nat) :
    Option ResidencySpec := do
  let aliasIndex ← aliases[index]?
  let location ← locations[index]?
  some {
    aliasGroupId := ← aliasIds[aliasIndex]?
    location := ← decodeLocation location }

/-- `decode_schedule`, of the columns as `_copy_schedule` reads them. -/
def decodeSchedule (aliasIds taskIds : List String) (schedule : IndexedSchedule) :
    Option ScheduleFields := do
  some {
    initialResidency := ← (List.range schedule.initialCount).mapM
      (decodeResidency aliasIds schedule.initialAliases schedule.initialLocations)
    actions := ← (List.range schedule.actionCount).mapM
      (decodeAction aliasIds taskIds schedule)
    finalResidency := ← (List.range schedule.finalCount).mapM
      (decodeResidency aliasIds schedule.finalAliases schedule.finalLocations) }

/-! ## Writing the text into the hash -/

/-- The names of `ShadowSpillScheduleContext`. -/
structure ScheduleContext where
  aliasJsonNames : List (List UInt8)
  taskJsonNames : List (List UInt8)

/-- `_escaped_identifier`: the string's JSON without its quotes. -/
def escapedIdentifier (value : String) : List UInt8 :=
  utf8 (canonicalText false (.text value)).tail.dropLast

/-- `_name_arrays`. -/
def nameArrays (aliasIds taskIds : List String) : ScheduleContext where
  aliasJsonNames := aliasIds.map escapedIdentifier
  taskJsonNames := taskIds.map escapedIdentifier

/-- A string literal of the digest. -/
def literal (value : String) : List UInt8 := utf8 value.toList

/-- `action_name`. -/
def actionName : Nat → List UInt8
  | 0 => literal "release"
  | 1 => literal "evict"
  | 2 => literal "fetch"
  | 3 => literal "write_back"
  | _ => literal "invalid"

/-- `location_name`. -/
def locationName (location : Nat) : List UInt8 :=
  if location = 0 then literal "device" else literal "host"

/-- `append_json_string`. -/
def appendJsonString (hash : Sha256) (escapedPayload : List UInt8) : Sha256 :=
  let hash := sha256Text hash (literal "\"")
  let hash := sha256Text hash escapedPayload
  sha256Text hash (literal "\"")

/-- One pass of the loop of `append_residency`. -/
def appendSpec (context : ScheduleContext) (aliases locations : List Nat) (hash : Sha256)
    (index : Nat) : Option Sha256 := do
  let hash := if index ≠ 0 then sha256Text hash (literal ",") else hash
  let hash := sha256Text hash (literal "\x7b\"alias_group_id\":")
  let hash := appendJsonString hash (← context.aliasJsonNames[← aliases[index]?]?)
  let hash := sha256Text hash (literal ",\"location\":\"")
  let hash := sha256Text hash (locationName (← locations[index]?))
  some (sha256Text hash (literal "\"\x7d"))

/-- `append_residency`. -/
def appendResidency (hash : Sha256) (context : ScheduleContext) (aliases locations : List Nat)
    (count : Nat) : Option Sha256 := do
  let hash := sha256Text hash (literal "[")
  let hash ← (List.range count).foldlM (appendSpec context aliases locations) hash
  some (sha256Text hash (literal "]"))

/-- One pass of the loop over the actions. -/
def appendAction (context : ScheduleContext) (schedule : IndexedSchedule) (hash : Sha256)
    (index : Nat) : Option Sha256 := do
  let hash := if index ≠ 0 then sha256Text hash (literal ",") else hash
  let hash := sha256Text hash (literal "\x7b\"alias_group_id\":")
  let hash := appendJsonString hash
    (← context.aliasJsonNames[← schedule.actionAliases[index]?]?)
  let hash := sha256Text hash (literal ",\"kind\":\"")
  let hash := sha256Text hash (actionName (← schedule.actionKinds[index]?))
  let hash := sha256Text hash (literal "\",\"trigger_task_id\":")
  let hash := appendJsonString hash
    (← context.taskJsonNames[← schedule.actionTriggerTasks[index]?]?)
  some (sha256Text hash (literal "\x7d"))

/-- `schema`: `snprintf` into a buffer of sixty-four bytes. -/
def schemaText : List UInt8 :=
  (literal (",\"schema\":\"shadowspill.memory_schedule/v" ++ toString artifactVersion ++
    "\"\x7d")).take 63

/-- `shadowspill_schedule_digest`. -/
def shadowspillScheduleDigest (context : ScheduleContext) (schedule : IndexedSchedule) :
    Option (List UInt8) := do
  let hash := sha256Text sha256Init (literal "\x7b\"actions\":[")
  let hash ← (List.range schedule.actionCount).foldlM (appendAction context schedule) hash
  let hash := sha256Text hash (literal "],\"final_residency\":")
  let hash ← appendResidency hash context schedule.finalAliases schedule.finalLocations
    schedule.finalCount
  let hash := sha256Text hash (literal ",\"initial_residency\":")
  let hash ← appendResidency hash context schedule.initialAliases schedule.initialLocations
    schedule.initialCount
  some (sha256Finish (sha256Text hash schemaText))

/-! ## The canonical text -/

@[simp]
theorem sortKeys_residencyValue (item : ResidencySpec) :
    sortKeys (residencyValue item) = residencyValue item :=
  sortKeys_object (show ["alias_group_id", "location"].Pairwise (· ≤ ·) by decide)

@[simp]
theorem sortKeys_actionValue (action : MemoryAction) :
    sortKeys (actionValue action) = actionValue action :=
  sortKeys_object
    (show ["alias_group_id", "kind", "trigger_task_id"].Pairwise (· ≤ ·) by decide)

theorem sortItems_map {Record : Type} {value : Record → Json}
    (sorted : ∀ record, sortKeys (value record) = value record) (records : List Record) :
    sortItems (records.map value) = records.map value := by
  rw [sortItems_eq, List.map_map]
  exact List.map_congr_left fun record _ => sorted record

/-- Every dictionary of a schedule names its members in order already. -/
theorem toJson_eq (schedule : ScheduleFields) :
    toJson schedule = render false (toDict schedule) := by
  have sorted : sortKeys (toDict schedule) = toDict schedule := by
    have names : ["actions", "final_residency", "initial_residency", "schema"].Pairwise
        (· ≤ ·) := by decide
    rw [toDict, sortKeys_object]
    · simp only [sortMembers, sortKeys, sortItems_map sortKeys_actionValue,
        sortItems_map sortKeys_residencyValue]
    · exact names
  rw [toJson, canonicalText, sorted]

/-! ## Writing -/

/-- The hash holds the bytes of a text. -/
def Written (hash : Sha256) (text : List Char) : Prop := Absorbed hash (utf8 text)

section Writing

variable {hash : Sha256} {text : List Char}

theorem Written.append {more : List Char} (written : Written hash text) (clean : '\x00' ∉ more) :
    Written (sha256Text hash (utf8 more)) (text ++ more) := by
  unfold Written
  rw [utf8_append]
  exact Absorbed.sha256Text written (utf8_ne_zero clean)

theorem Written.literal (written : Written hash text) (more : String)
    (clean : '\x00' ∉ more.toList) :
    Written (sha256Text hash (literal more)) (text ++ more.toList) :=
  written.append clean

theorem escapedIdentifier_eq (value : String) :
    escapedIdentifier value = utf8 (escape false value) := by
  rw [escapedIdentifier, canonicalText, sortKeys, render, quoted, List.tail_cons,
    List.dropLast_concat]

theorem Written.jsonString (written : Written hash text) (value : String) :
    Written (appendJsonString hash (escapedIdentifier value)) (text ++ quoted false value) := by
  have opened := written.literal "\"" (by decide)
  have named := opened.append (null_notMem_escape false value)
  have closed := named.literal "\"" (by decide)
  rw [← escapedIdentifier_eq] at closed
  rw [List.append_assoc, List.append_assoc] at closed
  exact closed

/-- The comma before every item but the first. -/
theorem Written.separator (written : Written hash text) (index : Nat) :
    Written (if index ≠ 0 then sha256Text hash (ScheduleDigest.literal ",") else hash)
      (text ++ if index ≠ 0 then [','] else []) := by
  by_cases later : index ≠ 0
  · rw [if_pos later, if_pos later]
    exact written.literal "," (by decide)
  · rw [if_neg later, if_neg later, List.append_nil]
    exact written

/-- A loop that writes one item at every pass writes the items with commas between them. -/
theorem Written.loop (body : Sha256 → Nat → Option Sha256) (values : List Json)
    (pass : ∀ {index value}, values[index]? = some value →
      ∀ {hash text}, Written hash text →
      ∃ next, body hash index = some next ∧
        Written next (text ++ ((if index ≠ 0 then [','] else []) ++ render false value)))
    (written : Written hash text) :
    ∃ next, (List.range values.length).foldlM body hash = some next ∧
      Written next (text ++ joined false values) := by
  induction values using List.reverseRecOn with
  | nil =>
      refine ⟨hash, rfl, ?_⟩
      rw [joined, List.append_nil]
      exact written
  | append_singleton values value inductionHypothesis =>
      have last : (values ++ [value])[values.length]? = some value := by simp
      obtain ⟨before, ran, here⟩ := inductionHypothesis fun {index other} found =>
        pass ((List.getElem?_append_left (List.getElem?_eq_some_iff.mp found).1).trans found)
      obtain ⟨next, final, there⟩ := pass last here
      refine ⟨next, ?_, ?_⟩
      · rw [List.length_append, List.length_singleton, List.range_succ, List.foldlM_append, ran]
        simpa using final
      · rw [joined_concat, ← List.append_assoc]
        exact there

end Writing

/-! ## What the digest writes -/

section Decoded

variable {aliasIds taskIds : List String} {schedule : IndexedSchedule}

/-- A code and what it decodes to have one spelling. -/
theorem locationName_eq {code : Nat} {location : MemoryLocation}
    (decoded : decodeLocation code = some location) :
    locationName code = literal (locationValue location) := by
  unfold decodeLocation at decoded
  split at decoded <;> cases decoded <;> rfl

theorem actionName_eq {code : Nat} {kind : MemoryActionKind}
    (decoded : decodeKind code = some kind) : actionName code = literal (kindValue kind) := by
  unfold decodeKind at decoded
  split at decoded <;> cases decoded <;> rfl

/-- The spellings need no escapes. -/
theorem quoted_locationValue (location : MemoryLocation) :
    quoted false (locationValue location) = '"' :: ((locationValue location).toList ++ ['"']) := by
  cases location <;> decide

theorem quoted_kindValue (kind : MemoryActionKind) :
    quoted false (kindValue kind) = '"' :: ((kindValue kind).toList ++ ['"']) := by
  cases kind <;> decide

theorem render_residencyValue (item : ResidencySpec) :
    render false (residencyValue item) =
      "\x7b\"alias_group_id\":".toList ++ (quoted false item.aliasGroupId ++
        (",\"location\":\"".toList ++ ((locationValue item.location).toList ++
          "\"\x7d".toList))) := by
  have first : quoted false "alias_group_id" = "\"alias_group_id\"".toList := by decide
  have second : quoted false "location" = "\"location\"".toList := by decide
  simp only [residencyValue, render, renderMembers, first, second, quoted_locationValue]
  simp

theorem render_actionValue (action : MemoryAction) :
    render false (actionValue action) =
      "\x7b\"alias_group_id\":".toList ++ (quoted false action.aliasGroupId ++
        (",\"kind\":\"".toList ++ ((kindValue action.kind).toList ++
          ("\",\"trigger_task_id\":".toList ++ (quoted false action.triggerTaskId ++
            "\x7d".toList))))) := by
  have first : quoted false "alias_group_id" = "\"alias_group_id\"".toList := by decide
  have second : quoted false "kind" = "\"kind\"".toList := by decide
  have third : quoted false "trigger_task_id" = "\"trigger_task_id\"".toList := by decide
  simp only [actionValue, render, renderMembers, first, second, third, quoted_kindValue]
  simp

theorem getElem?_escaped {names : List String} {index : Nat} {name : String}
    (found : names[index]? = some name) :
    (names.map escapedIdentifier)[index]? = some (escapedIdentifier name) := by
  rw [List.getElem?_map, found, Option.map_some]

theorem appendSpec_written (taskIds : List String) {aliases locations : List Nat} {index : Nat}
    {item : ResidencySpec}
    (decoded : decodeResidency aliasIds aliases locations index = some item)
    {hash : Sha256} {text : List Char} (written : Written hash text) :
    ∃ next, appendSpec (nameArrays aliasIds taskIds) aliases locations hash index = some next ∧
      Written next (text ++ ((if index ≠ 0 then [','] else []) ++
        render false (residencyValue item))) := by
  simp only [decodeResidency, Option.bind_eq_bind, Option.bind_eq_some_iff, Option.some_inj]
    at decoded
  obtain ⟨aliasIndex, aliasFound, code, codeFound, name, nameFound, location, located, rfl⟩ :=
    decoded
  have clean : '\x00' ∉ (locationValue location).toList := by
    cases location <;> decide
  have opened := (written.separator index).literal "\x7b\"alias_group_id\":" (by decide)
  have named := (opened.jsonString name).literal ",\"location\":\"" (by decide)
  have final := (named.literal _ clean).literal "\"\x7d" (by decide)
  simp only [List.append_assoc] at final
  rw [render_residencyValue]
  refine ⟨_, ?_, final⟩
  simp only [appendSpec, nameArrays, aliasFound, codeFound, getElem?_escaped nameFound,
    locationName_eq located, Option.bind_eq_bind, Option.bind_some]

theorem appendAction_written {index : Nat} {action : MemoryAction}
    (decoded : decodeAction aliasIds taskIds schedule index = some action)
    {hash : Sha256} {text : List Char} (written : Written hash text) :
    ∃ next, appendAction (nameArrays aliasIds taskIds) schedule hash index = some next ∧
      Written next (text ++ ((if index ≠ 0 then [','] else []) ++
        render false (actionValue action))) := by
  simp only [decodeAction, Option.bind_eq_bind, Option.bind_eq_some_iff, Option.some_inj]
    at decoded
  obtain ⟨task, taskFound, aliasIndex, aliasFound, code, codeFound, taskName, taskNamed,
    aliasName, aliasNamed, kind, kindFound, rfl⟩ := decoded
  have clean : '\x00' ∉ (kindValue kind).toList := by
    cases kind <;> decide
  have opened := (written.separator index).literal "\x7b\"alias_group_id\":" (by decide)
  have named := (opened.jsonString aliasName).literal ",\"kind\":\"" (by decide)
  have kinded := (named.literal _ clean).literal "\",\"trigger_task_id\":" (by decide)
  have final := (kinded.jsonString taskName).literal "\x7d" (by decide)
  simp only [List.append_assoc] at final
  rw [render_actionValue]
  refine ⟨_, ?_, final⟩
  simp only [appendAction, nameArrays, taskFound, aliasFound, codeFound,
    getElem?_escaped taskNamed, getElem?_escaped aliasNamed, actionName_eq kindFound,
    Option.bind_eq_bind, Option.bind_some]

/-- The rows of a decoded column stand at their indices. -/
theorem decoded_rows {Row : Type} {count : Nat} {decode : Nat → Option Row} {rows : List Row}
    (decoded : (List.range count).mapM decode = some rows) :
    rows.length = count ∧ ∀ {index row}, rows[index]? = some row → decode index = some row := by
  have length := NameTables.length_of_mapM decoded
  rw [List.length_range] at length
  refine ⟨length, ?_⟩
  intro index row found
  have same := congrArg (·[index]?) (NameTables.mapM_eq_some.mp decoded)
  have inside := (List.getElem?_eq_some_iff.mp found).1
  simpa [List.getElem?_range (length ▸ inside), found] using same

/-- A loop over decoded rows writes the rows' values. -/
theorem Written.rows {Row : Type} {count : Nat} {decode : Nat → Option Row} {rows : List Row}
    {value : Row → Json} {body : Sha256 → Nat → Option Sha256}
    (decoded : (List.range count).mapM decode = some rows)
    (pass : ∀ index row, decode index = some row → ∀ hash text, Written hash text →
      ∃ next, body hash index = some next ∧
        Written next (text ++ ((if index ≠ 0 then [','] else []) ++ render false (value row))))
    {hash : Sha256} {text : List Char} (written : Written hash text) :
    ∃ next, (List.range count).foldlM body hash = some next ∧
      Written next (text ++ joined false (rows.map value)) := by
  obtain ⟨length, found⟩ := decoded_rows decoded
  have loop := Written.loop body (rows.map value) ?_ written
  · rw [List.length_map, length] at loop
    exact loop
  · intro index item here hash text before
    rw [List.getElem?_map, Option.map_eq_some_iff] at here
    obtain ⟨row, there, rfl⟩ := here
    exact pass index row (found there) hash text before

theorem appendResidency_written (taskIds : List String) {aliases locations : List Nat} {count : Nat}
    {items : List ResidencySpec}
    (decoded : (List.range count).mapM (decodeResidency aliasIds aliases locations) = some items)
    {hash : Sha256} {text : List Char} (written : Written hash text) :
    ∃ next, appendResidency hash (nameArrays aliasIds taskIds) aliases locations count =
        some next ∧
      Written next (text ++ render false (.list (items.map residencyValue))) := by
  have opened := written.literal "[" (by decide)
  obtain ⟨next, ran, inside⟩ := opened.rows decoded fun _ _ found _ _ before =>
    appendSpec_written taskIds found before
  have closed := inside.literal "]" (by decide)
  simp only [List.append_assoc] at closed
  refine ⟨sha256Text next (literal "]"), ?_, ?_⟩
  · simp only [appendResidency, ran, Option.bind_eq_bind, Option.bind_some]
  · rw [render_list]
    exact closed

theorem render_toDict (fields : ScheduleFields) :
    render false (toDict fields) =
      "\x7b\"actions\":[".toList ++ (joined false (fields.actions.map actionValue) ++
        ("],\"final_residency\":".toList ++
          (render false (.list (fields.finalResidency.map residencyValue)) ++
            (",\"initial_residency\":".toList ++
              (render false (.list (fields.initialResidency.map residencyValue)) ++
                ",\"schema\":\"shadowspill.memory_schedule/v1\"\x7d".toList))))) := by
  have first : quoted false "actions" = "\"actions\"".toList := by decide
  have second : quoted false "final_residency" = "\"final_residency\"".toList := by decide
  have third : quoted false "initial_residency" = "\"initial_residency\"".toList := by decide
  have fourth : quoted false "schema" = "\"schema\"".toList := by decide
  have version : quoted false (artifactSchema "memory_schedule") =
      "\"shadowspill.memory_schedule/v1\"".toList := by decide
  simp only [toDict, render, renderMembers, first, second, third, fourth, version]
  simp [render_list]

/-- The digest of a schedule's columns is the name of the schedule they decode to. -/
theorem shadowspillScheduleDigest_eq {fields : ScheduleFields}
    (decoded : decodeSchedule aliasIds taskIds schedule = some fields) :
    shadowspillScheduleDigest (nameArrays aliasIds taskIds) schedule = some (digest fields) := by
  simp only [decodeSchedule, Option.bind_eq_bind, Option.bind_eq_some_iff, Option.some_inj]
    at decoded
  obtain ⟨initial, initialFound, actions, actionsFound, final, finalFound, rfl⟩ := decoded
  have start : Written sha256Init [] := init_absorbed
  have opened := start.literal "\x7b\"actions\":[" (by decide)
  obtain ⟨first, ranActions, acted⟩ := opened.rows actionsFound fun _ _ found _ _ before =>
    appendAction_written found before
  have finals := acted.literal "],\"final_residency\":" (by decide)
  obtain ⟨second, ranFinal, ended⟩ := appendResidency_written taskIds finalFound finals
  have initials := ended.literal ",\"initial_residency\":" (by decide)
  obtain ⟨third, ranInitial, began⟩ :=
    appendResidency_written taskIds initialFound initials
  have whole := began.literal ",\"schema\":\"shadowspill.memory_schedule/v1\"\x7d" (by decide)
  have schema : schemaText = literal ",\"schema\":\"shadowspill.memory_schedule/v1\"\x7d" := by
    decide
  simp only [List.append_assoc, List.nil_append] at whole
  have finished := Absorbed.sha256Finish whole
  simp only [shadowspillScheduleDigest, ranActions, ranFinal, ranInitial, schema,
    Option.bind_eq_bind, Option.bind_some, finished]
  rw [digest, toJson_eq, render_toDict]

end Decoded

/-! ## The text determines the schedule -/

theorem locationValue_injective : Function.Injective locationValue := by
  intro location other same
  cases location <;> cases other <;> first | rfl | exact absurd same (by decide)

theorem kindValue_injective : Function.Injective kindValue := by
  intro kind other same
  cases kind <;> cases other <;> first | rfl | exact absurd same (by decide)

theorem residencyValue_injective : Function.Injective residencyValue := by
  intro item other same
  obtain ⟨name, location⟩ := item
  simp only [residencyValue, Json.object.injEq, List.cons.injEq, Prod.mk.injEq, Json.text.injEq,
    true_and, and_true] at same
  obtain ⟨rfl, located⟩ := same
  rw [locationValue_injective located]

theorem actionValue_injective : Function.Injective actionValue := by
  intro action other same
  obtain ⟨task, name, kind⟩ := action
  simp only [actionValue, Json.object.injEq, List.cons.injEq, Prod.mk.injEq, Json.text.injEq,
    true_and, and_true] at same
  obtain ⟨rfl, kinded, rfl⟩ := same
  rw [kindValue_injective kinded]

theorem toDict_injective : Function.Injective toDict := by
  intro schedule other same
  obtain ⟨initial, actions, final⟩ := schedule
  simp only [toDict, Json.object.injEq, List.cons.injEq, Prod.mk.injEq, Json.list.injEq,
    true_and, and_true] at same
  obtain ⟨acted, ended, began⟩ := same
  rw [residencyValue_injective.list_map began, actionValue_injective.list_map acted,
    residencyValue_injective.list_map ended]

theorem residencyValue_wellFormed (item : ResidencySpec) : WellFormed (residencyValue item) := by
  refine .object _ (show ["alias_group_id", "location"].Nodup by decide) ?_
  simp only [List.forall_mem_cons, List.not_mem_nil, false_imp_iff, implies_true, and_true]
  exact ⟨.text _, .text _⟩

theorem actionValue_wellFormed (action : MemoryAction) : WellFormed (actionValue action) := by
  refine .object _ (show ["alias_group_id", "kind", "trigger_task_id"].Nodup by decide) ?_
  simp only [List.forall_mem_cons, List.not_mem_nil, false_imp_iff, implies_true, and_true]
  exact ⟨.text _, .text _, .text _⟩

theorem wellFormed_map {Record : Type} {value : Record → Json}
    (formed : ∀ record, WellFormed (value record)) (records : List Record) :
    WellFormed (.list (records.map value)) := by
  refine .list _ ?_
  intro item mem
  obtain ⟨record, _, rfl⟩ := List.mem_map.mp mem
  exact formed record

theorem toDict_wellFormed (schedule : ScheduleFields) : WellFormed (toDict schedule) := by
  refine .object _ (show ["actions", "final_residency", "initial_residency", "schema"].Nodup
    by decide) ?_
  simp only [List.forall_mem_cons, List.not_mem_nil, false_imp_iff, implies_true, and_true]
  exact ⟨wellFormed_map actionValue_wellFormed _, wellFormed_map residencyValue_wellFormed _,
    wellFormed_map residencyValue_wellFormed _, .text _⟩

theorem toJson_injective : Function.Injective toJson := by
  intro schedule other same
  rw [toJson_eq, toJson_eq] at same
  exact toDict_injective
    (render_injective (toDict_wellFormed schedule) (toDict_wellFormed other) same)

/-- The digest that the planner computes for columns of indices is the hash of the decoded
schedule's JSON, in whatever chunks the text is fed; and schedules have one text only if they
are one schedule. -/
theorem schedule_digest_identity (aliasIds taskIds : List String) (indexed : IndexedSchedule)
    (schedule : ScheduleFields)
    (decoded : decodeSchedule aliasIds taskIds indexed = some schedule) :
    shadowspillScheduleDigest (nameArrays aliasIds taskIds) indexed =
        some (sha256 (utf8 (toJson schedule))) ∧
      (∀ chunks : List (List UInt8), chunks.flatten = utf8 (toJson schedule) →
        sha256Finish (chunks.foldl sha256Update sha256Init) =
          sha256 (utf8 (toJson schedule))) ∧
      ∀ other : ScheduleFields,
        utf8 (toJson other) = utf8 (toJson schedule) ↔ other = schedule := by
  refine ⟨shadowspillScheduleDigest_eq decoded, ?_, ?_⟩
  · intro chunks whole
    rw [digest_chunks, whole]
  · intro other
    constructor
    · intro same
      exact toJson_injective (utf8_injective same)
    · rintro rfl
      rfl

/-- One object that a task fetches, with a name that needs escapes. -/
def fetchedColumns : IndexedSchedule where
  actionCount := 1
  actionTriggerTasks := [0]
  actionAliases := [1]
  actionKinds := [2]
  initialCount := 2
  initialAliases := [1, 0]
  initialLocations := [1, 0]
  finalCount := 1
  finalAliases := [1]
  finalLocations := [0]

def fetchedSchedule : ScheduleFields where
  initialResidency := [⟨"b\"\n", .spill⟩, ⟨"a", .device⟩]
  actions := [⟨"t", "b\"\n", .fetch⟩]
  finalResidency := [⟨"b\"\n", .device⟩]

theorem schedule_digest_identity_fetched :
    shadowspillScheduleDigest (nameArrays ["a", "b\"\n"] ["t"]) fetchedColumns =
        some (sha256 (utf8 (toJson fetchedSchedule))) ∧
      (utf8 (toJson { fetchedSchedule with finalResidency := [] }) =
          utf8 (toJson fetchedSchedule) ↔
        { fetchedSchedule with finalResidency := [] } = fetchedSchedule) := by
  obtain ⟨hashed, _, named⟩ := schedule_digest_identity ["a", "b\"\n"] ["t"] fetchedColumns
    fetchedSchedule (by decide)
  exact ⟨hashed, named _⟩

end ShadowSpill.Planner.Search.ScheduleDigest
