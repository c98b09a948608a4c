import UbuntuProjects.Model.TsHashmap

/-!
# The finite map that the hash maps stand for

The purpose of both hash maps: a finite map modulo `Key_eq`. A call for one key looks the
key up, returns what it finds or whether it found nothing, and changes at most the entry
of the key. `insert_or_assign` of `ts_ex_hashmap` returns nothing (`exResult`); otherwise
both maps return the same.
-/

set_option autoImplicit false

namespace UbuntuProjects.Hashmap

open Maps (KeyEq AssocMap)

variable {K V : Type}

/-- What a call does to a list of entries. -/
def KeyOp.entries (E : KeyEq K) : KeyOp K V → List (K × V) → List (K × V)
  | .insert k m => E.insert k m
  | .insertOrAssign k m => E.insertOrAssign k m
  | .remove k => E.erase k
  | .mappedFor _ => id

/-- What a call does to the map. -/
def KeyOp.apply {E : KeyEq K} (m : AssocMap E V) : KeyOp K V → AssocMap E V
  | .insert k v => m.insert k v
  | .insertOrAssign k v => m.insertOrAssign k v
  | .remove k => m.erase k
  | .mappedFor _ => m

/-- What a call returns if the value of its key is `found`. -/
def KeyOp.result (found : Option V) : KeyOp K V → Res V
  | .insert _ _ | .insertOrAssign _ _ => .bool found.isNone
  | .remove _ => .void
  | .mappedFor _ => .value found

/-- What a call of `ts_ex_hashmap` returns where `ts_hashmap` returns `r`. -/
def exResult : KeyOp K V → Res V → Res V
  | .insertOrAssign _ _, _ => .void
  | _, r => r

/-- One call after another, with what they return. -/
def mapRun {E : KeyEq K} : AssocMap E V → List (KeyOp K V) → List (Res V) × AssocMap E V
  | m, [] => ([], m)
  | m, o :: ops =>
    (o.result (m.lookup o.key) :: (mapRun (o.apply m) ops).1, (mapRun (o.apply m) ops).2)

@[simp] theorem KeyOp.apply_entries {E : KeyEq K} (o : KeyOp K V) (m : AssocMap E V) :
    (o.apply m).entries = o.entries E m.entries := by
  cases o <;> rfl

/-- A call acts on the entry of its key only. -/
theorem KeyOp.keyLocal {E : KeyEq K} (o : KeyOp K V) : E.KeyLocal o.key (o.entries E) := by
  cases o with
  | insert k m => exact KeyEq.keyLocal_insert
  | insertOrAssign k m => exact KeyEq.keyLocal_insertOrAssign
  | remove k => exact KeyEq.keyLocal_erase
  | mappedFor k => exact ⟨fun hp => hp, fun _ => rfl⟩

end UbuntuProjects.Hashmap
