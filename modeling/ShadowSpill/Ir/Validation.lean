import ShadowSpill.Library.Checks

/-!
# Validation primitives

A failure names the field it is about.  Identifiers are strings, not empty and without
surrounding whitespace.
-/

namespace ShadowSpill.Ir.Validation

open Library.Checks

/-- What a failure says, with the values that its text quotes. -/
inductive Complaint where
  /-- "must not be empty" -/
  | mustNotBeEmpty
  /-- "must not have surrounding whitespace" -/
  | surroundingWhitespace
  /-- "duplicates `value` first seen at index `first`" -/
  | duplicates (value : String) (first : Nat)
  /-- "unknown device", "unknown profile" and so on, with the identity -/
  | unknown (kind identity : String)
  /-- "invalid group identity" -/
  | invalidGroupIdentity
  /-- "object … spans … of alias group …, which is … bytes" -/
  | spans (object aliasGroup : String) (first last extent : Nat)
  /-- "shared alias group … is runtime-resident and cannot be retained …" -/
  | runtimeResident (aliasGroup : String)
  /-- "tasks occur in several task-alternative groups: …" -/
  | severalGroups (tasks : List String)
  /-- "dependency … must precede the task" -/
  | mustPrecede (dependency : String)
  /-- "shared alias group … uses … and cannot publish task outputs" -/
  | cannotPublish (aliasGroup : String)
  /-- "object … has simultaneously active writers" -/
  | activeWriters (object : String)
  /-- "must include a producer for input …; candidates are …" -/
  | missingProducer (input : String) (candidates : List String)
  /-- "mutated object must be an input" -/
  | mutatedNotInput
  /-- "shared alias group … is read-only" -/
  | readOnly (aliasGroup : String)
  /-- "contains duplicate group IDs" -/
  | duplicateGroups
  /-- "must select exactly one option from every task-alternative group" -/
  | everyGroup
  /-- "unknown option … for group …" -/
  | unknownOption (option group : String)
  /-- "selected tasks produce object … more than once" -/
  | producedTwice (object : String)
  /-- "task … omits active producer …" -/
  | omitsProducer (task producer : String)
  deriving DecidableEq, Repr

/-- A field-addressable validation failure. -/
structure ValidationError where
  path : String
  complaint : Complaint
  deriving DecidableEq, Repr

abbrev Checked (α : Type) := Except ValidationError α

def require (condition : Bool) (path : String) (complaint : Complaint) : Checked Unit :=
  if condition then .ok () else .error ⟨path, complaint⟩

@[simp] theorem require_ok {condition : Bool} {path : String} {complaint : Complaint} :
    require condition path complaint = .ok () ↔ condition = true := by
  unfold require
  cases condition with
  | false =>
      constructor
      · intro impossible
        cases impossible
      · intro impossible
        cases impossible
  | true => exact iff_of_true rfl rfl

/-- Whitespace as `str.strip` has it. -/
def isSpace (char : Char) : Bool :=
  let code := char.toNat
  (9 ≤ code && code ≤ 13) || (28 ≤ code && code ≤ 32) || code = 133 || code = 160 ||
    code = 5760 || (8192 ≤ code && code ≤ 8202) || code = 8232 || code = 8233 ||
    code = 8239 || code = 8287 || code = 12288

/-- A string that stripping leaves alone. -/
def isStripped (value : String) : Bool :=
  !(value.toList.head?.any isSpace) && !(value.toList.getLast?.any isSpace)

def requireIdentifier (value path : String) : Checked Unit := do
  require (value ≠ "") path .mustNotBeEmpty
  require (isStripped value) path .surroundingWhitespace

/-- Where a value stands first in a list. -/
def firstIndex (value : String) : Nat → List String → Option Nat
  | _, [] => none
  | index, head :: rest => if head = value then some index else firstIndex value (index + 1) rest

/-- Index values, refusing duplicates; the index of a value is its place. -/
def indexUnique (path : String) : List String → List String → Checked (List String)
  | seen, [] => .ok seen
  | seen, value :: rest => do
    requireIdentifier value s!"{path}[{seen.length}]"
    match firstIndex value 0 seen with
    | some first => .error ⟨s!"{path}[{seen.length}]", .duplicates value first⟩
    | none => indexUnique path (seen ++ [value]) rest

/-! ## What success says -/

theorem firstIndex_eq_none {value : String} {index : Nat} {values : List String} :
    firstIndex value index values = none ↔ value ∉ values := by
  induction values generalizing index with
  | nil => simp [firstIndex]
  | cons head rest inductionHypothesis =>
      unfold firstIndex
      by_cases same : head = value
      · simp [same]
      · rw [if_neg same, inductionHypothesis, List.mem_cons]
        simp [Ne.symm same]

/-- An index of values has them in order, without duplicates, and all identifiers. -/
theorem indexUnique_ok {path : String} {seen values index : List String} :
    indexUnique path seen values = .ok index ↔
      index = seen ++ values ∧ (∀ value ∈ values, value ∉ seen) ∧ values.Nodup ∧
        ∀ value ∈ values, value ≠ "" ∧ isStripped value = true := by
  induction values generalizing seen with
  | nil =>
      unfold indexUnique
      rw [List.append_nil]
      constructor
      · intro same
        cases same
        exact ⟨rfl, fun _ mem => (List.not_mem_nil mem).elim, List.nodup_nil,
          fun _ mem => (List.not_mem_nil mem).elim⟩
      · rintro ⟨rfl, _⟩
        rfl
  | cons value rest inductionHypothesis =>
      unfold indexUnique requireIdentifier
      rw [check_bind_ok, check_bind_ok, require_ok, require_ok, decide_eq_true_iff]
      cases first : firstIndex value 0 seen with
      | some place =>
          have known : value ∈ seen := by
            apply Classical.byContradiction
            intro unknown
            rw [firstIndex_eq_none.mpr unknown] at first
            cases first
          constructor
          · rintro ⟨_, impossible⟩
            cases impossible
          · rintro ⟨_, apart, _⟩
            exact absurd known (apart value List.mem_cons_self)
      | none =>
          have unknown := firstIndex_eq_none.mp first
          dsimp only
          rw [inductionHypothesis, List.append_assoc, List.nodup_cons]
          constructor
          · rintro ⟨identifier, rfl, apart, nodup, others⟩
            refine ⟨rfl, ?_, ⟨?_, nodup⟩, ?_⟩
            · intro other mem
              rcases List.mem_cons.mp mem with rfl | later
              · exact unknown
              · exact fun known => apart other later (List.mem_append_left _ known)
            · exact fun mem => apart value mem (List.mem_append_right _ List.mem_cons_self)
            · exact List.forall_mem_cons.mpr ⟨identifier, others⟩
          · rintro ⟨rfl, apart, ⟨fresh, nodup⟩, identifiers⟩
            refine ⟨identifiers value List.mem_cons_self, rfl, ?_, nodup, ?_⟩
            · intro other mem known
              rcases List.mem_append.mp known with old | new
              · exact apart other (List.mem_cons_of_mem value mem) old
              · rw [List.mem_singleton.mp new] at mem
                exact fresh mem
            · exact fun other mem => identifiers other (List.mem_cons_of_mem value mem)

end ShadowSpill.Ir.Validation
