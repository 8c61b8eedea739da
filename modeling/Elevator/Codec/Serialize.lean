import Elevator.Cookie.Core

/-!
# Serialization

`VCookieStore::Serialize`: a seven-byte header whose last four bytes are patched
with the offset of the variable section, eleven optional fields in ascending
order of their field number, a zero byte, and the variables in enumeration
order.  Numbers are stored as on a little-endian LP64 machine.

The loop over the variables is driven by `GetNextSetVar`.  It gets one unit of
fuel for each index entry and one for the test that ends it, and is undefined if
they do not suffice; `Elevator.Codec.Encoding` shows that they always do in a
well-indexed table.
-/

namespace Elevator

open Wire

/-- `VC_SERIAL_VERSION`. -/
def vcSerialVersion : UInt8 := 0

namespace VCookieStore

/-- `AddField`: the field number and the value, or nothing for a zero or empty
value. -/
def addField {φ α : Type} [DecidableEq α] (fieldItem : Item φ) (item : Item α) (empty : α)
    (fieldId : φ) (val : α) : Bytes :=
  if val = empty then [] else fieldItem.put fieldId ++ item.put val

def timeField (field : UInt8) (val : TimeT) : Bytes :=
  addField u8 i64 0 field val

def numberField (field : UInt8) (val : UInt32) : Bytes :=
  addField u8 u32 0 field val

def textField (field : UInt8) (val : Bytes) : Bytes :=
  addField u8 text [] field val

/-- Field 11, the counted purchase-id list. -/
def purchaseField (c : VCookie) : Bytes :=
  let count := UInt8.ofNat c.getPurchaseIdCount
  if count > 0 then
    addField u8 u8 0 11 count ++
      (List.range count.toNat).flatMap fun i => text.put (c.getPurchaseId i)
  else
    []

/-- The known fields of a cookie. -/
def serializeFields (c : VCookie) (saveLastHitTime : Bool) : Bytes :=
  timeField 1 c.getFirstHitTimeGMT ++
    ((if saveLastHitTime then timeField 2 c.getLastHitTimeGMT else []) ++
      (timeField 3 c.getLastHitTimeVisitorLocal ++
        (numberField 4 c.getLastVisitNum ++
          (timeField 5 c.getLastPurchaseTimeGMT ++
            (textField 6 c.getFirstHitReferrer ++
              (textField 7 c.getFirstHitUrl ++
                (textField 8 c.getFirstHitPagename ++
                  (numberField 9 c.getLastPurchaseNum ++
                    (textField 10 c.getMerchandising ++ purchaseField c)))))))))

def serializeElement (rv : RelVar) : Bytes :=
  text.put rv.value ++ (i64.put rv.timestamp ++ u8.put rv.revision)

/-- One turn of the variable loop.  The elements are fetched through the handle
that `GetVarElementCount` leaves behind. -/
def serializeVar (table : RelVarTable) (rid : RelationId) : Bytes :=
  let counted := table.getVarElementCount rid
  addField u16 u32 0 rid (UInt32.ofNat counted.1) ++
    (List.range counted.1).flatMap fun i =>
      ((table.getVarAt counted.2 i).map serializeElement).getD []

/-- The variable loop, ended by the invalid relation id. -/
def serializeVars (table : RelVarTable) : Nat → RelationId → Option Bytes
  | 0, _ => none
  | fuel + 1, rid =>
      if rid = invalidRid then
        some (u16.put rid)
      else
        (serializeVars table fuel (table.getNextSetVar rid)).map (serializeVar table rid ++ ·)

/-- `memcpy` into the middle of a buffer. -/
def overwrite (buffer : Bytes) (index : Nat) (bytes : Bytes) : Bytes :=
  buffer.take index ++ bytes ++ buffer.drop (index + bytes.length)

def serialize (c : VCookie) (saveLastHitTime : Bool) : Option Bytes :=
  let flag : UInt8 := 0
  let header := u8.put vcSerialVersion ++ u8.put vcSerialVersion ++ u8.put flag
  let offset := header.length
  let buffer :=
    header ++ u32.put (UInt32.ofNat offset) ++ serializeFields c saveLastHitTime ++ u8.put 0
  let relVarOffset := UInt32.ofNat buffer.length
  let buffer := overwrite buffer offset (u32.put relVarOffset)
  (serializeVars c.toRelVarTable (c.relVarSort.length + 1) c.getFirstSetVar).map (buffer ++ ·)

end VCookieStore

end Elevator
