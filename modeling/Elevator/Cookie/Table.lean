import Elevator.Wire.Item

/-!
# The relation-variable table

The variables of a visitor cookie live in two vectors: `relVar` holds one entry
per relation in order of first use, and `relVarSort` lists the indices of
`relVar` in order of relation id.  Lookups go through a binary search over
`relVarSort` that returns an insertion point.  This file transcribes the table
and its read operations; `Elevator.Cookie.Core` adds the writers.

Container sizes and positions are natural numbers; a size that the source casts
to 32 bits is reduced by `unsignedSize`.  An element of a vector that is read
outside its bounds is the default entry here; the index invariant of
`Elevator.Cookie.Index` keeps every read inside.
-/

namespace Elevator

open Wire

/-- `time_t`. -/
abbrev TimeT := Int64

abbrev RelationId := UInt16

/-- `INVALID_RID`. -/
def invalidRid : RelationId := 65535

/-- `VAR_NOT_SET`, the handle of no entry; a handle is an index into `relVar`. -/
def varNotSet : Nat := 4294967295

/-- `static_cast<unsigned>` of a container size. -/
def unsignedSize (size : Nat) : Nat :=
  size % 4294967296

theorem unsignedSize_lt (size : Nat) : unsignedSize size < 2 ^ 32 :=
  Nat.mod_lt _ (by decide)

theorem unsignedSize_le (size : Nat) : unsignedSize size ≤ size :=
  Nat.mod_le _ _

theorem unsignedSize_of_lt {size : Nat} (small : size < 2 ^ 32) : unsignedSize size = size :=
  Nat.mod_eq_of_lt small

inductive AllocationType
  | last
  | first
  | linear
  deriving DecidableEq, Repr

/-- `MAX_LINEAR_NOT_SET`. -/
def maxLinearNotSet : UInt32 := 4294967295

/-- `MAX_LINEAR_INFINITE`. -/
def maxLinearInfinite : UInt32 := 0

/-- One element of a variable. -/
structure RelVar where
  value : Bytes
  timestamp : TimeT
  revision : UInt8
  deriving DecidableEq, Repr, Inhabited

/-- One relation with its elements, oldest first. -/
structure RelVarImpl where
  relationId : RelationId
  modified : Bool
  var : List RelVar
  deriving DecidableEq, Repr, Inhabited

structure RelVarTable where
  relVar : List RelVarImpl
  relVarSort : List Nat
  deriving DecidableEq, Repr

namespace RelVarTable

/-- `relVar[vid]`. -/
def relVarAt (table : RelVarTable) (vid : Nat) : RelVarImpl :=
  table.relVar.getD vid default

/-- `relVar[relVarSort[pos]]`. -/
def entryAt (table : RelVarTable) (pos : Nat) : RelVarImpl :=
  table.relVarAt (table.relVarSort.getD pos 0)

/-! ## Binary search -/

/-- The loop of `FindRelationPos`: `low` stays at the midpoint rather than past
it, so an interval of one entry leaves through its upper end. -/
@[semireducible]
def findRelationPosLoop (table : RelVarTable) (relationId : RelationId) (low high : Nat) : Nat :=
  if low < high then
    let mid := (low + high) / 2
    let vid := (table.entryAt mid).relationId
    if vid = relationId then
      mid
    else if vid < relationId then
      if mid = low then high else findRelationPosLoop table relationId mid high
    else
      findRelationPosLoop table relationId low mid
  else
    low
termination_by high - low

def findRelationPos (table : RelVarTable) (relationId : RelationId) : Nat :=
  table.findRelationPosLoop relationId 0 table.relVarSort.length

/-- The position found is only compared with the size of the index, not with
the relation that stands there. -/
def findRelationId (table : RelVarTable) (relationId : RelationId) : Nat :=
  let pos := table.findRelationPos relationId
  if pos < table.relVarSort.length then table.relVarSort.getD pos 0 else varNotSet

/-! ## Element access -/

/-- The number of elements, and the value left in the optional `id` argument. -/
def getVarElementCount (table : RelVarTable) (relationId : RelationId) : Nat × Nat :=
  let vid := table.findRelationId relationId
  if vid ≠ varNotSet then
    let sz := unsignedSize (table.relVarAt vid).var.length
    (sz, if sz = 0 then varNotSet else vid)
  else
    (0, vid)

/-- `GetVar` on a handle; `none` is the null pointer. -/
def getVarAt (table : RelVarTable) (vid : Nat) (index : Nat) : Option RelVar :=
  if vid ≥ table.relVar.length ∨ index ≥ (table.relVarAt vid).var.length then none
  else (table.relVarAt vid).var[index]?

/-- `GetVar` on a relation id. -/
def getVar (table : RelVarTable) (relationId : RelationId) (index : Nat) : Option RelVar :=
  let vid := table.findRelationId relationId
  if vid = varNotSet then none else table.getVarAt vid index

/-! ## Enumeration -/

/-- The relation at the first position from `pos` on whose entry passes. -/
@[semireducible]
def firstFrom (table : RelVarTable) (passes : RelVarImpl → Bool) (pos : Nat) : RelationId :=
  if pos < table.relVarSort.length ∧ passes (table.entryAt pos) = false then
    firstFrom table passes (pos + 1)
  else if pos < table.relVarSort.length then
    (table.entryAt pos).relationId
  else
    invalidRid
termination_by table.relVarSort.length - pos

def getSetVar (table : RelVarTable) (pos : Nat) : RelationId :=
  table.firstFrom (fun rv => rv.var.length ≠ 0) pos

def getModifiedVar (table : RelVarTable) (pos : Nat) : RelationId :=
  table.firstFrom (fun rv => rv.modified) pos

/-- The position behind `relationId`, whether or not it has an entry. -/
def posAfter (table : RelVarTable) (relationId : RelationId) : Nat :=
  let pos := table.findRelationPos relationId
  if pos < table.relVarSort.length ∧ (table.entryAt pos).relationId = relationId then pos + 1
  else pos

def getFirstSetVar (table : RelVarTable) : RelationId :=
  table.getSetVar 0

def getNextSetVar (table : RelVarTable) (relationId : RelationId) : RelationId :=
  table.getSetVar (table.posAfter relationId)

def getFirstModifiedVar (table : RelVarTable) : RelationId :=
  table.getModifiedVar 0

def getNextModifiedVar (table : RelVarTable) (relationId : RelationId) : RelationId :=
  table.getModifiedVar (table.posAfter relationId)

end RelVarTable

end Elevator
