import Elevator.Cookie.Table
import Elevator.Transition.Run

/-!
# The visitor cookie and its mutators

`VCookie` carries the identity, the scalar members, the purchase-id list, the
variable table and the modified flags.  Every public mutator is a function on
the cookie; `Mutator` names the calls, so that a run of mutators is a list.

The store reference is not a member here: `Elevator.Cookie.Lifecycle` passes
the outcome of a store call to the operations that make one.
-/

namespace Elevator

open Wire Transition

/-- `NUM_SAVED_PURCHASE_IDS`. -/
def numSavedPurchaseIds : Nat := 5

/-- The category flags kept beside `modified`. -/
inductive Category
  | traffic
  | ecommerce
  | merchandising
  | relVar
  deriving DecidableEq, Repr

structure VCookie extends RelVarTable where
  newCookie : Bool
  modified : Bool
  userid : UInt32
  visidHigh : UInt64
  visidLow : UInt64
  lastHitTimeGMT : TimeT
  lastHitTimeVisitorLocal : TimeT
  firstHitTimeGMT : TimeT
  lastVisitNum : UInt32
  trafficModified : Bool
  firstHitReferrer : Bytes
  firstHitPageUrl : Bytes
  firstHitPagename : Bytes
  lastPurchaseTimeGMT : TimeT
  lastPurchaseNum : UInt32
  purchaseIds : List Bytes
  ecommerceModified : Bool
  merchandising : Bytes
  merchandisingModified : Bool
  relVarModified : Bool
  deriving DecidableEq, Repr

/-- The identity of a visitor. -/
structure VCookieId where
  userid : UInt32
  visidHigh : UInt64
  visidLow : UInt64
  deriving DecidableEq, Repr

namespace VCookie

def id (c : VCookie) : VCookieId :=
  ⟨c.userid, c.visidHigh, c.visidLow⟩

/-- A cookie as its constructor leaves it when nothing is loaded. -/
def fresh (id : VCookieId) (newCookie : Bool) : VCookie where
  relVar := []
  relVarSort := []
  newCookie := newCookie
  modified := false
  userid := id.userid
  visidHigh := id.visidHigh
  visidLow := id.visidLow
  lastHitTimeGMT := 0
  lastHitTimeVisitorLocal := 0
  firstHitTimeGMT := 0
  lastVisitNum := 0
  trafficModified := false
  firstHitReferrer := []
  firstHitPageUrl := []
  firstHitPagename := []
  lastPurchaseTimeGMT := 0
  lastPurchaseNum := 0
  purchaseIds := []
  ecommerceModified := false
  merchandising := []
  merchandisingModified := false
  relVarModified := false

/-- `Reset` clears the persistent members and leaves every flag alone. -/
def reset (c : VCookie) (id : VCookieId) : VCookie :=
  { c with
    userid := id.userid
    visidHigh := id.visidHigh
    visidLow := id.visidLow
    lastHitTimeGMT := 0
    lastHitTimeVisitorLocal := 0
    firstHitTimeGMT := 0
    lastVisitNum := 0
    firstHitReferrer := []
    firstHitPageUrl := []
    firstHitPagename := []
    lastPurchaseTimeGMT := 0
    lastPurchaseNum := 0
    purchaseIds := []
    merchandising := []
    relVar := []
    relVarSort := [] }

/-! ## Scalar setters -/

def setFirstHitTimeGMT (c : VCookie) (t : TimeT) : VCookie :=
  { c with modified := true, trafficModified := true, firstHitTimeGMT := t }

def setLastHitTimeGMT (c : VCookie) (t : TimeT) : VCookie :=
  { c with modified := true, trafficModified := true, lastHitTimeGMT := t }

def setLastHitTimeVisitorLocal (c : VCookie) (t : TimeT) : VCookie :=
  { c with modified := true, trafficModified := true, lastHitTimeVisitorLocal := t }

def setLastVisitNum (c : VCookie) (i : UInt32) : VCookie :=
  { c with modified := true, trafficModified := true, lastVisitNum := i }

def setLastPurchaseTimeGMT (c : VCookie) (t : TimeT) : VCookie :=
  { c with modified := true, ecommerceModified := true, lastPurchaseTimeGMT := t }

def setFirstHitReferrer (c : VCookie) (s : Bytes) : VCookie :=
  { c with modified := true, ecommerceModified := true, firstHitReferrer := s }

def setFirstHitUrl (c : VCookie) (s : Bytes) : VCookie :=
  { c with modified := true, ecommerceModified := true, firstHitPageUrl := s }

def setFirstHitPagename (c : VCookie) (s : Bytes) : VCookie :=
  { c with modified := true, ecommerceModified := true, firstHitPagename := s }

def setLastPurchaseNum (c : VCookie) (i : UInt32) : VCookie :=
  { c with modified := true, ecommerceModified := true, lastPurchaseNum := i }

def setMerchandising (c : VCookie) (s : Bytes) : VCookie :=
  { c with modified := true, merchandisingModified := true, merchandising := s }

/-! ## Purchase ids -/

/-- The inner loop of `SetPurchaseId`: every id behind the hit moves one place
forward and the last place takes the id. -/
def shiftDown (purchaseId : Bytes) : List Bytes → List Bytes
  | [] => [purchaseId]
  | next :: rest => next :: shiftDown purchaseId rest

/-- The search of `SetPurchaseId`, with the list after a hit. -/
def movePurchaseId (purchaseId : Bytes) : List Bytes → Option (List Bytes)
  | [] => none
  | saved :: rest =>
      if saved = purchaseId then
        some (if rest = [] then [saved] else shiftDown purchaseId rest)
      else
        (movePurchaseId purchaseId rest).map (saved :: ·)

/-- Returns false, and leaves the flags alone, when the id is already saved. -/
def setPurchaseId (c : VCookie) (purchaseId : Bytes) : VCookie × Bool :=
  match movePurchaseId purchaseId c.purchaseIds with
  | some purchaseIds => ({ c with purchaseIds }, false)
  | none =>
      let kept :=
        if c.purchaseIds.length = numSavedPurchaseIds then c.purchaseIds.tail else c.purchaseIds
      ({ c with
          purchaseIds := kept ++ [purchaseId]
          modified := true
          ecommerceModified := true }, true)

/-! ## Getters -/

def getFirstHitTimeGMT (c : VCookie) : TimeT := c.firstHitTimeGMT

def getLastHitTimeGMT (c : VCookie) : TimeT := c.lastHitTimeGMT

/-- The source returns the GMT member. -/
def getLastHitTimeVisitorLocal (c : VCookie) : TimeT := c.lastHitTimeGMT

def getLastVisitNum (c : VCookie) : UInt32 := c.lastVisitNum

/-- The source returns the last-hit member. -/
def getLastPurchaseTimeGMT (c : VCookie) : TimeT := c.lastHitTimeGMT

def getFirstHitReferrer (c : VCookie) : Bytes := c.firstHitReferrer

def getFirstHitUrl (c : VCookie) : Bytes := c.firstHitPageUrl

def getFirstHitPagename (c : VCookie) : Bytes := c.firstHitPagename

def getLastPurchaseNum (c : VCookie) : UInt32 := c.lastPurchaseNum

def getMerchandising (c : VCookie) : Bytes := c.merchandising

def getPurchaseIdCount (c : VCookie) : Nat := c.purchaseIds.length

def getPurchaseId (c : VCookie) (index : Nat) : Bytes := c.purchaseIds.getD index []

/-! ## Variables -/

/-- `ClearVar` empties the entry that `FindRelationId` designates and sets only
the flag of that entry. -/
def clearVar (c : VCookie) (relationId : RelationId) : VCookie :=
  let vid := c.findRelationId relationId
  if vid ≠ varNotSet then
    { c with relVar := c.relVar.modify vid fun rv => { rv with var := [], modified := true } }
  else
    c

/-- `std::deque::resize` to one element. -/
def resizeOne (var : List RelVar) : List RelVar :=
  [var.headD default]

/-- The eviction loop of a linear variable: pop from the front while the limit
is reached. -/
def evict (maxLinear : UInt32) : List RelVar → List RelVar
  | [] => []
  | oldest :: rest =>
      if (oldest :: rest).length ≥ maxLinear.toNat then evict maxLinear rest else oldest :: rest

/-- The elements of a variable after `element` is stored in it.  A linear call
writes at the old size cast to 32 bits, which is the new last place unless the
list has 2^32 elements. -/
def storeElement (var : List RelVar) (element : RelVar) (allocType : AllocationType)
    (maxLinear : UInt32) : List RelVar :=
  if allocType ≠ .linear then
    (resizeOne var).set 0 element
  else
    let kept := if maxLinear ≠ maxLinearInfinite then evict maxLinear var else var
    (kept ++ [default]).set (unsignedSize kept.length) element

/-- The common end of `SetVar`: store the element in entry `vid`, set the flags
and return the handle of a linear variable. -/
def storeVar (c : VCookie) (vid : Nat) (element : RelVar) (allocType : AllocationType)
    (maxLinear : UInt32) : VCookie × Nat :=
  ({ c with
      relVar := c.relVar.modify vid fun rv =>
        { rv with var := storeElement rv.var element allocType maxLinear, modified := true }
      modified := true
      relVarModified := true },
    if allocType = .linear then vid else varNotSet)

/-- The insertion branch of `SetVar`: a new entry at the end of `relVar`, whose
index goes to position `pos` of `relVarSort`. -/
def insertRelation (c : VCookie) (relationId : RelationId) (pos : Nat) : VCookie :=
  { c with
    relVar := c.relVar ++ [⟨relationId, false, []⟩]
    relVarSort := c.relVarSort.insertIdx pos c.relVar.length }

def setVar (c : VCookie) (relationId : RelationId) (val : Bytes) (timestamp : TimeT)
    (revision : UInt8) (allocType : AllocationType) (maxLinear : UInt32) : VCookie × Nat :=
  if val = [] then
    (if allocType = .last then c.clearVar relationId else c, varNotSet)
  else
    let pos := c.findRelationPos relationId
    let vid := c.relVar.length
    if pos ≥ vid ∨ (c.entryAt pos).relationId ≠ relationId then
      (c.insertRelation relationId pos).storeVar vid ⟨val, timestamp, revision⟩ allocType maxLinear
    else
      let vid := c.relVarSort.getD pos 0
      if allocType = .first ∧ (c.relVarAt vid).var.length = 1 then
        (c, varNotSet)
      else
        c.storeVar vid ⟨val, timestamp, revision⟩ allocType maxLinear

def addLinearElement (c : VCookie) (vid : Nat) (val : Bytes) (timestamp : TimeT)
    (revision : UInt8) : VCookie :=
  if vid ≥ c.relVar.length then
    c
  else
    { c with
      relVar := c.relVar.modify vid fun rv =>
        { rv with var := rv.var ++ [⟨val, timestamp, revision⟩], modified := true }
      modified := true
      relVarModified := true }

end VCookie

/-! ## Calls -/

/-- A call of a public mutator. -/
inductive Mutator
  | setFirstHitTimeGMT (t : TimeT)
  | setLastHitTimeGMT (t : TimeT)
  | setLastHitTimeVisitorLocal (t : TimeT)
  | setLastVisitNum (i : UInt32)
  | setLastPurchaseTimeGMT (t : TimeT)
  | setFirstHitReferrer (s : Bytes)
  | setFirstHitUrl (s : Bytes)
  | setFirstHitPagename (s : Bytes)
  | setLastPurchaseNum (i : UInt32)
  | setMerchandising (s : Bytes)
  | setPurchaseId (purchaseId : Bytes)
  | setVar (relationId : RelationId) (val : Bytes) (timestamp : TimeT) (revision : UInt8)
      (allocType : AllocationType) (maxLinear : UInt32)
  | clearVar (relationId : RelationId)
  | addLinearElement (vid : Nat) (val : Bytes) (timestamp : TimeT) (revision : UInt8)
  deriving DecidableEq, Repr

namespace VCookie

def mutate (c : VCookie) : Mutator → VCookie
  | .setFirstHitTimeGMT t => c.setFirstHitTimeGMT t
  | .setLastHitTimeGMT t => c.setLastHitTimeGMT t
  | .setLastHitTimeVisitorLocal t => c.setLastHitTimeVisitorLocal t
  | .setLastVisitNum i => c.setLastVisitNum i
  | .setLastPurchaseTimeGMT t => c.setLastPurchaseTimeGMT t
  | .setFirstHitReferrer s => c.setFirstHitReferrer s
  | .setFirstHitUrl s => c.setFirstHitUrl s
  | .setFirstHitPagename s => c.setFirstHitPagename s
  | .setLastPurchaseNum i => c.setLastPurchaseNum i
  | .setMerchandising s => c.setMerchandising s
  | .setPurchaseId purchaseId => (c.setPurchaseId purchaseId).1
  | .setVar relationId val timestamp revision allocType maxLinear =>
      (c.setVar relationId val timestamp revision allocType maxLinear).1
  | .clearVar relationId => c.clearVar relationId
  | .addLinearElement vid val timestamp revision =>
      c.addLinearElement vid val timestamp revision

end VCookie

end Elevator
