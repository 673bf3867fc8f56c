import ShadowSpill.Ir.Program

/-!
# Positions in a program

The planner knows alias groups by their position in the program.  An object stands for the
group it lies in.
-/

namespace ShadowSpill.Ir.Indexing

open Program

/-- `alias_index`. -/
def aliasIndex (program : ShadowSpillProgram) (aliasGroupId : String) : Nat :=
  (program.aliasGroups.map (·.aliasGroupId)).idxOf aliasGroupId

/-- `object_alias`. -/
def objectAlias (program : ShadowSpillProgram) (objectId : String) : Nat :=
  aliasIndex program
    (((program.objects.find? (·.objectId = objectId)).map (·.aliasGroupId)).getD "")

/-- `alias_sizes`. -/
def aliasSize (program : ShadowSpillProgram) (aliasId : Nat) : Nat :=
  match program.aliasGroups[aliasId]? with
  | none => 0
  | some item => item.sizeBytes

/-- The residency of the alias is shared. -/
def isShared (program : ShadowSpillProgram) (aliasId : Nat) : Bool :=
  match program.aliasGroups[aliasId]? with
  | none => false
  | some item => item.sharedResidency.isSome

end ShadowSpill.Ir.Indexing
