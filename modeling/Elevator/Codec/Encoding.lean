import Elevator.Codec.Serialize
import Elevator.Cookie.Equality
import Elevator.Cookie.Profile

/-!
# The encoding in closed form

`encode` writes down the bytes of `Serialize` without its loop and its patched
offset.  The loop has enough fuel in every well-indexed table, so `Serialize` is
total and equal to `encode`; it reads the cookie through its getters, its
purchase ids and the counted parts of its set variables only.
-/

namespace Elevator

open Wire RelVarTable VCookie

namespace VCookieStore

def encodeVar (set : RelationId × List RelVar) : Bytes :=
  addField u16 u32 0 set.1 (UInt32.ofNat set.2.length) ++ set.2.flatMap serializeElement

def encodeVars (sets : List (RelationId × List RelVar)) : Bytes :=
  sets.flatMap encodeVar ++ u16.put invalidRid

/-- The known fields with the zero byte behind them. -/
def encodeFields (c : VCookie) (saveLastHitTime : Bool) : Bytes :=
  serializeFields c saveLastHitTime ++ u8.put 0

def encode (c : VCookie) (saveLastHitTime : Bool) : Bytes :=
  [0, 0, 0] ++ u32.put (UInt32.ofNat (7 + (encodeFields c saveLastHitTime).length)) ++
    encodeFields c saveLastHitTime ++ encodeVars c.countedVars

theorem overwrite_append (before old after new : Bytes) (same : old.length = new.length) :
    overwrite (before ++ old ++ after) before.length new = before ++ new ++ after := by
  have front : (before ++ old ++ after).take before.length = before := by
    rw [List.append_assoc, List.take_left]
  have back : (before ++ old ++ after).drop (before.length + new.length) = after := by
    rw [← same, ← List.length_append, List.drop_left]
  rw [overwrite, front, back]

/-- Collecting the elements by index collects them all. -/
theorem flatMap_range_getElem? {α : Type} (f : α → Bytes) (l : List α) :
    ((List.range l.length).flatMap fun i => (l[i]?.map f).getD []) = l.flatMap f := by
  rw [List.flatMap_def, List.flatMap_def]
  congr 1
  apply List.ext_getElem (by simp)
  intro i inside inside'
  have bound : i < l.length := by simpa using inside'
  simp [bound]

/-- One turn writes the elements counted, and nothing if there are none. -/
theorem serializeVar_eq {table : RelVarTable} (indexed : table.Indexed) {rv : RelVarImpl}
    (member : rv ∈ table.relVar) :
    serializeVar table rv.relationId = encodeVar (rv.relationId, counted rv.var) := by
  have answer := indexed.answer_of_mem member
  have count := indexed.getVarElementCount_eq rv.relationId
  rw [answer, ← length_counted] at count
  have element : ∀ i ∈ List.range (counted rv.var).length,
      table.getVarAt (table.getVarElementCount rv.relationId).2 i = (counted rv.var)[i]? := by
    intro i member
    have inside := List.mem_range.mp member
    rw [length_counted] at inside
    rw [indexed.getVarAt_count rv.relationId (answer ▸ inside), answer, counted,
      List.getElem?_take_of_lt inside]
  simp only [serializeVar, encodeVar, count]
  rw [← flatMap_range_getElem? serializeElement (counted rv.var)]
  congr 1
  rw [List.flatMap_def, List.flatMap_def, List.map_congr_left]
  intro i inside
  rw [element i inside]

/-- The loop writes the relations of its walk and the invalid id. -/
theorem serializeVars_eq {table : RelVarTable} (indexed : table.Indexed) {rid : RelationId}
    {visited : List RelVarImpl} (walk : Walk table RelVarImpl.isSet rid visited) {fuel : Nat}
    (enough : visited.length < fuel) :
    serializeVars table fuel rid =
      some (encodeVars (visited.map fun rv => (rv.relationId, counted rv.var))) := by
  induction walk generalizing fuel with
  | stop =>
      cases fuel with
      | zero => contradiction
      | succ fuel => rfl
  | @visit rv rest member pass valid next ih =>
      cases fuel with
      | zero => contradiction
      | succ fuel =>
          have rest := ih (Nat.lt_of_succ_lt_succ enough)
          rw [serializeVars, if_neg valid, serializeVar_eq indexed member]
          apply (congrArg (Option.map _) rest).trans
          simp [encodeVars]

/-- A relation without counted elements writes nothing. -/
theorem encodeVars_filter (sets : List (RelationId × List RelVar)) :
    encodeVars (sets.filter fun set => set.2 ≠ []) = encodeVars sets := by
  induction sets with
  | nil => rfl
  | cons set sets ih =>
      rw [encodeVars, encodeVars] at ih ⊢
      by_cases empty : set.2 = []
      · have written : encodeVar set = [] := by simp [encodeVar, addField, empty]
        rw [List.filter_cons_of_neg (by simp [empty]), ih, List.flatMap_cons, written,
          List.nil_append]
      · rw [List.filter_cons_of_pos (by simp [empty]), List.flatMap_cons, List.flatMap_cons,
          List.append_assoc, List.append_assoc, ih]

/-- `Serialize` succeeds on every well-indexed cookie. -/
theorem serialize_eq {c : VCookie} (indexed : c.toRelVarTable.Indexed) (saveLastHitTime : Bool) :
    serialize c saveLastHitTime = some (encode c saveLastHitTime) := by
  have enough := Nat.lt_succ_of_le (c.length_listed_le RelVarImpl.isSet)
  have vars : serializeVars c.toRelVarTable (c.relVarSort.length + 1) c.getFirstSetVar =
      some (encodeVars c.countedVars) := by
    rw [countedVars, encodeVars_filter, setVars, List.map_map]
    exact serializeVars_eq indexed (indexed.walk RelVarImpl.isSet) enough
  have patched (fields old new : Bytes) (same : old.length = new.length) :
      overwrite ([0, 0, 0] ++ old ++ fields) 3 new = [0, 0, 0] ++ new ++ fields :=
    overwrite_append [0, 0, 0] old fields new same
  have length_u32 (val : UInt32) : (u32.put val).length = 4 := length_leBytes 4 _
  have header : u8.put vcSerialVersion ++ u8.put vcSerialVersion ++ u8.put 0 = [0, 0, 0] := rfl
  have size (fields : Bytes) (val : UInt32) :
      ([0, 0, 0] ++ u32.put val ++ fields).length = 7 + fields.length := by
    simp [length_u32]
    omega
  have fields : serializeFields c saveLastHitTime ++ u8.put 0 = encodeFields c saveLastHitTime :=
    rfl
  rw [serialize, header, vars]
  simp only [List.append_assoc _ (serializeFields c saveLastHitTime), fields, size,
    List.length_cons, List.length_nil]
  rw [patched _ _ _ (by rw [length_u32, length_u32])]
  rfl

/-- A cookie with a well-formed index, as every history of calls leaves it. -/
abbrev IndexedCookie : Type :=
  { c : VCookie // c.toRelVarTable.Indexed }

/-- The bytes that `Serialize` writes. -/
def serialized (c : IndexedCookie) (saveLastHitTime : Bool) : Bytes :=
  (serialize c.1 saveLastHitTime).get (by rw [serialize_eq c.2]; rfl)

/-- The getters never show the visitor-local time and the purchase time. -/
theorem sameHeader_of_profile {c c' : VCookie} (id : c'.id = c.id) {visitorLocal purchase : TimeT}
    (profile : c'.profile =
      { c.profile with
        lastHitTimeVisitorLocal := visitorLocal
        lastPurchaseTimeGMT := purchase }) : SameHeader c' c := by
  have lastHit : c'.lastHitTimeGMT = c.lastHitTimeGMT := congrArg Profile.lastHitTimeGMT profile
  exact ⟨id, congrArg Profile.firstHitTimeGMT profile, lastHit, lastHit,
    congrArg Profile.lastVisitNum profile, lastHit, congrArg Profile.firstHitReferrer profile,
    congrArg Profile.firstHitPageUrl profile, congrArg Profile.firstHitPagename profile,
    congrArg Profile.lastPurchaseNum profile, congrArg Profile.merchandising profile,
    congrArg Profile.purchaseIds profile⟩

theorem encodeFields_congr {c c' : VCookie} (header : SameHeader c' c) (saveLastHitTime : Bool) :
    encodeFields c' saveLastHitTime = encodeFields c saveLastHitTime := by
  have count : c'.getPurchaseIdCount = c.getPurchaseIdCount :=
    congrArg List.length header.purchaseIds
  have get : c'.getPurchaseId = c.getPurchaseId :=
    congrArg (fun ids index => List.getD ids index []) header.purchaseIds
  have purchases : purchaseField c' = purchaseField c := by
    rw [purchaseField, purchaseField, count, get]
  rw [encodeFields, encodeFields, serializeFields, serializeFields, purchases,
    header.firstHitTimeGMT, header.lastHitTimeGMT, header.lastHitTimeVisitorLocal,
    header.lastVisitNum, header.lastPurchaseTimeGMT, header.firstHitReferrer,
    header.firstHitUrl, header.firstHitPagename, header.lastPurchaseNum, header.merchandising]

/-- Cookies that agree on the getters and the counted variables encode alike. -/
theorem encode_congr {c c' : VCookie} (header : SameHeader c' c)
    (sets : c'.countedVars = c.countedVars) (saveLastHitTime : Bool) :
    encode c' saveLastHitTime = encode c saveLastHitTime := by
  rw [encode, encode, encodeFields_congr header, sets]

/-- What is counted decides the record. -/
theorem serialize_congr {c c' : VCookie} (indexed : c.toRelVarTable.Indexed)
    (indexed' : c'.toRelVarTable.Indexed) (header : SameHeader c' c)
    (lists : ∀ r, counted (c'.elements r) = counted (c.elements r)) (saveLastHitTime : Bool) :
    serialize c' saveLastHitTime = serialize c saveLastHitTime := by
  have sameVars := (countedVars_eq_iff indexed' indexed).mpr fun r _ => lists r
  rw [serialize_eq indexed, serialize_eq indexed', encode_congr header sameVars]

/-- The counted list in closed form. -/
theorem purchaseField_eq {c : VCookie} (kept : PurchaseIdsKept c.purchaseIds) :
    purchaseField c =
      if c.purchaseIds = [] then []
      else [11, UInt8.ofNat c.purchaseIds.length] ++ c.purchaseIds.flatMap text.put := by
  have bound := kept.length_le
  have count : (UInt8.ofNat c.purchaseIds.length).toNat = c.purchaseIds.length := by
    rw [UInt8.toNat_ofNat']
    exact Nat.mod_eq_of_lt (Nat.lt_of_le_of_lt bound (by decide))
  have ids : ((List.range c.purchaseIds.length).flatMap fun i => text.put (c.getPurchaseId i)) =
      c.purchaseIds.flatMap text.put := by
    rw [← flatMap_range_getElem? text.put c.purchaseIds, List.flatMap_def, List.flatMap_def,
      List.map_congr_left]
    intro i member
    have inside := List.mem_range.mp member
    simp [getPurchaseId, List.getD_eq_getElem?_getD, inside]
  simp only [purchaseField, getPurchaseIdCount, count, ids]
  have positive : UInt8.ofNat c.purchaseIds.length > 0 ↔ c.purchaseIds ≠ [] := by
    rw [gt_iff_lt, UInt8.lt_iff_toNat_lt, count, ← List.length_pos_iff]
    rfl
  by_cases none : c.purchaseIds = []
  · rw [if_neg (mt positive.mp (not_not.mpr none)), if_pos none]
  · have some := positive.mpr none
    rw [if_pos some, if_neg none, addField, if_neg (UInt8.ne_of_lt some).symm, u8_put, u8_put]
    rfl

theorem length_flatMap_serializeElement (var : List RelVar) :
    var.length ≤ (var.flatMap serializeElement).length := by
  induction var with
  | nil => exact Nat.le_refl _
  | cons rv var ih =>
      have positive : 1 ≤ (serializeElement rv).length := by
        simp only [serializeElement, u8_put, List.length_append, List.length_singleton]
        omega
      simp only [List.flatMap_cons, List.length_cons, List.length_append]
      omega

end VCookieStore

end Elevator
