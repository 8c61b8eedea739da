import Elevator.Codec.Encoding
import Elevator.Codec.Trace
import Elevator.Cookie.Profile

/-!
# Scanning an encoding

The scan of an encoding accepts it, and its calls are read off the cookie: one
for each field that is not zero or empty, one for each purchase id, and the
counted elements of each set variable.  The fields are treated from the last one back,
each as a reader that consumes its bytes when no earlier field follows.
-/

namespace Elevator

open Wire Transition RelVarTable VCookie

/-! ## Cookies that fit the encoding -/

namespace Mutator

/-- The string argument of a call. -/
def text : Mutator → Bytes
  | .setFirstHitReferrer s => s
  | .setFirstHitUrl s => s
  | .setFirstHitPagename s => s
  | .setMerchandising s => s
  | .setPurchaseId purchaseId => purchaseId
  | .setVar _ val _ _ _ _ => val
  | .addLinearElement _ val _ _ => val
  | _ => []

/-- A string without a zero byte, a relation other than the invalid one, and no
empty element. -/
structure Plain (m : Mutator) : Prop where
  text : 0 ∉ m.text
  stores : m.StoresIn (fun r => r ≠ invalidRid) fun element => element.value ≠ []

end Mutator

/-- The texts of a profile have no zero byte. -/
structure Profile.NulFree (p : Profile) : Prop where
  firstHitReferrer : 0 ∉ p.firstHitReferrer
  firstHitPageUrl : 0 ∉ p.firstHitPageUrl
  firstHitPagename : 0 ∉ p.firstHitPagename
  merchandising : 0 ∉ p.merchandising
  purchaseIds : ∀ purchaseId ∈ p.purchaseIds, 0 ∉ purchaseId

/-- No string of the cookie has a zero byte. -/
structure VCookie.NulFree (c : VCookie) : Prop where
  profile : c.profile.NulFree
  values : ∀ relationId, ∀ element ∈ c.elements relationId, 0 ∉ element.value

namespace VCookieStore

/-- What the encoding relies on. -/
structure Encodable (c : VCookie) : Prop where
  indexed : c.toRelVarTable.Indexed
  nulFree : c.profile.NulFree
  purchaseIds : PurchaseIdsKept c.purchaseIds
  values : Within (fun _ => True) (fun element => 0 ∉ element.value) c.toRelVarTable

theorem encodable_of_nulFree {c : VCookie} (indexed : c.toRelVarTable.Indexed)
    (purchaseIds : PurchaseIdsKept c.purchaseIds) (nulFree : c.NulFree) : Encodable c where
  indexed := indexed
  nulFree := nulFree.profile
  purchaseIds := purchaseIds
  values rv member := ⟨trivial, fun element stored =>
    nulFree.values rv.relationId element (indexed.elements_of_mem member ▸ stored)⟩

/-! ## Fields -/

/-- The next byte ends the fields or opens one behind `field`. -/
def OpensAbove (field : UInt8) (bytes : Bytes) : Prop :=
  ∃ next rest, bytes = next :: rest ∧ (next = 0 ∨ field < next)

theorem OpensAbove.mono {field field' : UInt8} (le : field ≤ field') {bytes : Bytes}
    (opens : OpensAbove field' bytes) : OpensAbove field bytes := by
  rcases opens with ⟨next, rest, equal, above⟩
  exact ⟨next, rest, equal, above.imp_right (UInt8.lt_of_le_of_lt le)⟩

/-- `f` reads `bytes`, which open behind field `low`, up to a byte that opens
behind field `high`, and makes `calls`. -/
structure Consumes (buffer : Bytes)
    (f : Cursor (List Call) → Except (List Call) (Cursor (List Call)))
    (low high : UInt8) (bytes : Bytes) (calls : List Call) : Prop where
  opens : ∀ rest, OpensAbove high rest → OpensAbove low (bytes ++ rest)
  reads : ∀ s rest, OpensAbove high rest → s.next :: buffer.drop s.b = bytes ++ rest →
    ∃ s', f s = .ok s' ∧ s'.next :: buffer.drop s'.b = rest ∧ s'.cookie = s.cookie ++ calls

/-- Readers of adjacent fields in sequence. -/
theorem Consumes.bind {buffer : Bytes}
    {f g : Cursor (List Call) → Except (List Call) (Cursor (List Call))}
    {low middle high : UInt8} {bytes bytes' : Bytes} {calls calls' : List Call}
    (first : Consumes buffer f low middle bytes calls)
    (second : Consumes buffer g middle high bytes' calls') :
    Consumes buffer (fun s => f s >>= g) low high (bytes ++ bytes') (calls ++ calls') where
  opens rest above := by
    rw [List.append_assoc]
    exact first.opens _ (second.opens rest above)
  reads s rest above stands := by
    rw [List.append_assoc] at stands
    obtain ⟨s₁, result₁, stands₁, cookie₁⟩ :=
      first.reads s (bytes' ++ rest) (second.opens rest above) stands
    rcases second.reads s₁ rest above stands₁ with ⟨s₂, result₂, stands₂, cookie₂⟩
    refine ⟨s₂, ?_, stands₂, by rw [cookie₂, cookie₁, List.append_assoc]⟩
    rw [result₁]
    exact result₂

/-- The call for a field, unless the value is left out. -/
def fieldCalls {α : Type} [DecidableEq α] (empty : α) (set : α → Mutator) (val : α) : List Call :=
  if val = empty then [] else [.mutate (set val)]

theorem opensAbove_addField {α : Type} [DecidableEq α] (item : Item α) (empty val : α)
    {field low : UInt8} (below : low < field) {rest : Bytes} (above : OpensAbove field rest) :
    OpensAbove low (addField u8 item empty field val ++ rest) := by
  by_cases skipped : val = empty
  · rw [addField, if_pos skipped, List.nil_append]
    exact above.mono (UInt8.le_of_lt below)
  · rw [addField, if_neg skipped, u8_put]
    exact ⟨field, _, rfl, Or.inr below⟩

theorem consumes_readField {α : Type} [DecidableEq α] {item : Item α} {empty val : α}
    (fits : item.Fits val) (buffer : Bytes) {field low : UInt8} (positive : field ≠ 0)
    (below : low < field) (set : α → Mutator) :
    Consumes buffer (readField traceSetters buffer item field set) low field
      (addField u8 item empty field val) (fieldCalls empty set val) where
  opens _ := opensAbove_addField item empty val below
  reads s rest above stands := by
    rcases above with ⟨next, rest, rfl, behind⟩
    by_cases skipped : val = empty
    · rw [addField, if_pos skipped, List.nil_append] at stands
      have absent : ¬ s.next = field := by
        rintro rfl
        rw [(List.cons.inj stands).1] at positive behind
        exact behind.elim positive (UInt8.lt_irrefl _)
      refine ⟨s, by rw [readField, if_neg absent], stands, by simp [fieldCalls, skipped]⟩
    · rw [addField, if_neg skipped, u8_put] at stands
      rcases List.cons.inj stands with ⟨present, behindField⟩
      rcases item.read_of_drop fits behindField with ⟨read, standsNext⟩
      rcases u8_read_of_drop standsNext with ⟨readNext, standsRest⟩
      refine ⟨⟨s.cookie ++ [.mutate (set val)], s.b + (item.put val).length + 1, next⟩, ?_, ?_, ?_⟩
      · rw [readField, if_pos present, read]
        dsimp only
        rw [readNext]
        rfl
      · rw [standsRest]
      · simp [fieldCalls, skipped]

/-! ## Purchase ids -/

/-- The calls for the saved purchase ids. -/
def purchaseCalls (purchaseIds : List Bytes) : List Call :=
  purchaseIds.map fun purchaseId => .mutate (.setPurchaseId purchaseId)

theorem readPurchaseLoop_encoded (buffer : Bytes) {purchaseIds : List Bytes}
    (nulFree : ∀ purchaseId ∈ purchaseIds, 0 ∉ purchaseId) {rest : Bytes} (calls : List Call)
    (b : Nat) (stands : buffer.drop b = purchaseIds.flatMap text.put ++ rest) :
    ∃ b', readPurchaseLoop traceSetters buffer purchaseIds.length calls b =
        .ok (calls ++ purchaseCalls purchaseIds, b') ∧ buffer.drop b' = rest := by
  induction purchaseIds generalizing calls b with
  | nil => exact ⟨b, by simp [readPurchaseLoop, purchaseCalls], stands⟩
  | cons purchaseId purchaseIds ih =>
      rcases List.forall_mem_cons.mp nulFree with ⟨fits, fitsRest⟩
      rw [List.flatMap_cons, List.append_assoc] at stands
      rcases text.read_of_drop fits stands with ⟨read, standsRest⟩
      rcases ih fitsRest _ _ standsRest with ⟨b', result, standsEnd⟩
      refine ⟨b', ?_, standsEnd⟩
      rw [List.length_cons, readPurchaseLoop, read]
      apply result.trans
      simp [purchaseCalls, traceSetters]

theorem opensAbove_purchaseField (c : VCookie) {rest : Bytes} (above : OpensAbove 11 rest) :
    OpensAbove 10 (purchaseField c ++ rest) := by
  unfold purchaseField
  dsimp only
  split
  · rename_i some
    rw [addField, if_neg (UInt8.ne_of_lt some).symm, u8_put]
    exact ⟨11, _, rfl, Or.inr (by decide)⟩
  · exact above.mono (by decide)

theorem consumes_readPurchaseIds {c : VCookie} (kept : PurchaseIdsKept c.purchaseIds)
    (nulFree : ∀ purchaseId ∈ c.purchaseIds, 0 ∉ purchaseId) (buffer : Bytes) :
    Consumes buffer (readPurchaseIds traceSetters buffer) 10 11 (purchaseField c)
      (purchaseCalls c.purchaseIds) := by
  have bound := kept.length_le
  have count : (UInt8.ofNat c.purchaseIds.length).toNat = c.purchaseIds.length := by
    rw [UInt8.toNat_ofNat']
    exact Nat.mod_eq_of_lt (Nat.lt_of_le_of_lt bound (by decide))
  constructor
  · exact fun _ => opensAbove_purchaseField c
  · rintro s _ ⟨next, rest, rfl, behind⟩ stands
    rw [purchaseField_eq kept] at stands
    by_cases none : c.purchaseIds = []
    · rw [if_pos none, List.nil_append] at stands
      have absent : ¬ s.next = 11 := by
        rw [(List.cons.inj stands).1]
        rintro rfl
        exact absurd behind (by decide)
      exact ⟨s, by rw [readPurchaseIds, if_neg absent], stands, by simp [none, purchaseCalls]⟩
    · rw [if_neg none] at stands
      rcases List.cons.inj stands with ⟨present, standsCount⟩
      rcases u8_read_of_drop standsCount with ⟨readCount, standsIds⟩
      obtain ⟨b', readIds, standsNext⟩ :=
        readPurchaseLoop_encoded buffer nulFree s.cookie _ standsIds
      rcases u8_read_of_drop standsNext with ⟨readNext, standsRest⟩
      refine ⟨⟨s.cookie ++ purchaseCalls c.purchaseIds, b' + 1, next⟩, ?_, ?_, rfl⟩
      · simp only [readPurchaseIds, if_pos present, readCount, count, readIds, readNext]
      · rw [standsRest]

/-! ## The known fields -/

/-- The calls for the known fields of an encoding. -/
def headerCalls (c : VCookie) (saveLastHitTime : Bool) : List Call :=
  fieldCalls 0 .setFirstHitTimeGMT c.getFirstHitTimeGMT ++
    (fieldCalls 0 .setLastHitTimeGMT (if saveLastHitTime then c.getLastHitTimeGMT else 0) ++
      (fieldCalls 0 .setLastHitTimeVisitorLocal c.getLastHitTimeVisitorLocal ++
        (fieldCalls 0 .setLastVisitNum c.getLastVisitNum ++
          (fieldCalls 0 .setLastPurchaseTimeGMT c.getLastPurchaseTimeGMT ++
            (fieldCalls [] .setFirstHitReferrer c.getFirstHitReferrer ++
              (fieldCalls [] .setFirstHitUrl c.getFirstHitUrl ++
                (fieldCalls [] .setFirstHitPagename c.getFirstHitPagename ++
                  (fieldCalls 0 .setLastPurchaseNum c.getLastPurchaseNum ++
                    (fieldCalls [] .setMerchandising c.getMerchandising ++
                      purchaseCalls c.purchaseIds)))))))))

theorem consumes_readFields {c : VCookie} (encodable : Encodable c) (saveLastHitTime : Bool)
    (buffer : Bytes) :
    Consumes buffer (readFields traceSetters buffer) 0 11 (serializeFields c saveLastHitTime)
      (headerCalls c saveLastHitTime) := by
  have nulFree := encodable.nulFree
  have lastHit : (if saveLastHitTime then timeField 2 c.getLastHitTimeGMT else []) =
      timeField 2 (if saveLastHitTime then c.getLastHitTimeGMT else 0) := by
    cases saveLastHitTime <;> rfl
  rw [serializeFields, lastHit]
  apply (consumes_readField trivial buffer (by decide) (by decide) _).bind
  apply (consumes_readField trivial buffer (by decide) (by decide) _).bind
  apply (consumes_readField trivial buffer (by decide) (by decide) _).bind
  apply (consumes_readField trivial buffer (by decide) (by decide) _).bind
  apply (consumes_readField trivial buffer (by decide) (by decide) _).bind
  apply (consumes_readField nulFree.firstHitReferrer buffer (by decide) (by decide) _).bind
  apply (consumes_readField nulFree.firstHitPageUrl buffer (by decide) (by decide) _).bind
  apply (consumes_readField nulFree.firstHitPagename buffer (by decide) (by decide) _).bind
  apply (consumes_readField trivial buffer (by decide) (by decide) _).bind
  apply (consumes_readField nulFree.merchandising buffer (by decide) (by decide) _).bind
  exact consumes_readPurchaseIds encodable.purchaseIds nulFree.purchaseIds buffer

/-! ## Variables -/

/-- The calls for the elements of one relation; `stored` once a handle is held. -/
def elementCalls (rid : RelationId) (cnt : UInt32) : Bool → List RelVar → List Call
  | _, [] => []
  | false, rv :: rest =>
      .setVar rid rv (if cnt > 1 then .linear else .last) cnt ::
        elementCalls rid cnt (cnt > 1 ∧ rv.value ≠ []) rest
  | true, rv :: rest => .append rid rv :: elementCalls rid cnt true rest

def varCalls (set : RelationId × List RelVar) : List Call :=
  elementCalls set.1 (UInt32.ofNat set.2.length) false set.2

theorem readElement_encoded {buffer rest : Bytes} {b : Nat} {rv : RelVar} (fits : 0 ∉ rv.value)
    (stands : buffer.drop b = serializeElement rv ++ rest) :
    ∃ b', readElement buffer b = some (rv, b') ∧ buffer.drop b' = rest := by
  rw [serializeElement, List.append_assoc, List.append_assoc] at stands
  rcases text.read_of_drop fits stands with ⟨value, stands₁⟩
  rcases i64.read_of_drop trivial stands₁ with ⟨timestamp, stands₂⟩
  rcases u8.read_of_drop trivial stands₂ with ⟨revision, stands₃⟩
  exact ⟨_, by simp [readElement, value, timestamp, revision], stands₃⟩

/-- The handle of a trace in a state of the element loop. -/
def tracedVid (rid : RelationId) (stored : Bool) : Nat :=
  if stored then rid.toNat else varNotSet

theorem elementCalls_nil (rid : RelationId) (cnt : UInt32) (stored : Bool) :
    elementCalls rid cnt stored [] = [] := by
  cases stored <;> rfl

/-- An element that is read makes the first of the calls for it and what follows. -/
theorem readElements_step {buffer : Bytes} {b b₁ : Nat} {rv : RelVar}
    (read : readElement buffer b = some (rv, b₁)) (rid : RelationId) (cnt : UInt32)
    (remaining : Nat) (calls : List Call) (stored : Bool) :
    ∃ call stored', (∀ rest, elementCalls rid cnt stored (rv :: rest) =
        call :: elementCalls rid cnt stored' rest) ∧
      readElements traceSetters buffer rid cnt (remaining + 1) calls (tracedVid rid stored) b =
        readElements traceSetters buffer rid cnt remaining (calls ++ [call])
          (tracedVid rid stored') b₁ := by
  cases stored with
  | false =>
      refine ⟨_, cnt > 1 ∧ rv.value ≠ [], fun _ => rfl, ?_⟩
      have handle : (traceSetters.setVar calls rid rv (if cnt > 1 then .linear else .last)
          cnt).2 = tracedVid rid (decide (cnt > 1 ∧ rv.value ≠ [])) := by
        by_cases many : cnt > 1 <;> simp [traceSetters, tracedVid, many]
      have unset : tracedVid rid false = varNotSet := rfl
      rw [readElements, read]
      dsimp only
      rw [if_pos unset, handle]
      rfl
  | true =>
      refine ⟨_, true, fun _ => rfl, ?_⟩
      have handle : tracedVid rid true = rid.toNat := rfl
      rw [readElements, read]
      dsimp only
      rw [handle, if_neg (toNat_ne_varNotSet rid)]
      simp only [traceSetters, UInt16.ofNat_toNat]

theorem readElements_encoded (buffer : Bytes) (rid : RelationId) (cnt : UInt32)
    {var : List RelVar} (fits : ∀ element ∈ var, 0 ∉ element.value) {rest : Bytes}
    (calls : List Call) (stored : Bool) (b : Nat)
    (stands : buffer.drop b = var.flatMap serializeElement ++ rest) :
    ∃ b', readElements traceSetters buffer rid cnt var.length calls (tracedVid rid stored) b =
        .ok (calls ++ elementCalls rid cnt stored var, b') ∧ buffer.drop b' = rest := by
  induction var generalizing calls stored b with
  | nil =>
      refine ⟨b, ?_, stands⟩
      rw [elementCalls_nil, List.append_nil]
      rfl
  | cons rv var ih =>
      rcases List.forall_mem_cons.mp fits with ⟨fitsHead, fitsRest⟩
      rw [List.flatMap_cons, List.append_assoc] at stands
      rcases readElement_encoded fitsHead stands with ⟨b₁, read, standsRest⟩
      obtain ⟨call, stored', split, step⟩ :=
        readElements_step read rid cnt var.length calls stored
      rcases ih fitsRest (calls ++ [call]) stored' b₁ standsRest with ⟨b', result, standsEnd⟩
      refine ⟨b', ?_, standsEnd⟩
      rw [List.length_cons, step, result, split, List.append_assoc, List.singleton_append]

/-- A set variable that fits: its id is not the end mark, and its count is not
truncated. -/
structure SetFits (set : RelationId × List RelVar) : Prop where
  valid : set.1 ≠ invalidRid
  nonempty : set.2 ≠ []
  small : set.2.length < 2 ^ 32
  values : ∀ element ∈ set.2, 0 ∉ element.value

theorem SetFits.count {set : RelationId × List RelVar} (fits : SetFits set) :
    (UInt32.ofNat set.2.length).toNat = set.2.length := by
  rw [UInt32.toNat_ofNat']
  exact Nat.mod_eq_of_lt fits.small

theorem encodeVars_nil : encodeVars [] = u16.put invalidRid ++ [] :=
  (List.append_nil _).symm

/-- The relation and the count stand in front of the elements. -/
theorem encodeVars_cons {set : RelationId × List RelVar} (fits : SetFits set)
    (sets : List (RelationId × List RelVar)) :
    encodeVars (set :: sets) = u16.put set.1 ++
      (u32.put (UInt32.ofNat set.2.length) ++
        (set.2.flatMap serializeElement ++ encodeVars sets)) := by
  have positive : ¬ UInt32.ofNat set.2.length = 0 := by
    intro zero
    have count := fits.count
    rw [zero] at count
    exact fits.nonempty (List.length_eq_zero_iff.mp count.symm)
  simp [encodeVars, encodeVar, addField, positive]

/-- The reads of one encoded variable. -/
theorem readVar_encoded {buffer : Bytes} {set : RelationId × List RelVar}
    {sets : List (RelationId × List RelVar)} (fits : SetFits set) {b : Nat}
    (stands : buffer.drop b = encodeVars (set :: sets)) (calls : List Call) :
    ∃ cnt b₁ b₂ b₃, u16.read buffer b = some (set.1, b₁) ∧
      u32.read buffer b₁ = some (cnt, b₂) ∧
      readElements traceSetters buffer set.1 cnt cnt.toNat calls varNotSet b₂ =
        .ok (calls ++ varCalls set, b₃) ∧
      buffer.drop b₃ = encodeVars sets := by
  rw [encodeVars_cons fits] at stands
  rcases u16.read_of_drop trivial stands with ⟨readRid, stands₁⟩
  rcases u32.read_of_drop trivial stands₁ with ⟨readCnt, stands₂⟩
  obtain ⟨b₃, readAll, stands₃⟩ := readElements_encoded buffer set.1
    (UInt32.ofNat set.2.length) fits.values calls false _ stands₂
  have noHandle : tracedVid set.1 false = varNotSet := rfl
  rw [noHandle] at readAll
  refine ⟨_, _, _, b₃, readRid, readCnt, ?_, stands₃⟩
  rw [fits.count]
  exact readAll

theorem readVars_encoded (buffer : Bytes) {sets : List (RelationId × List RelVar)}
    (fits : ∀ set ∈ sets, SetFits set) (calls : List Call) (b : Nat)
    (stands : buffer.drop b = encodeVars sets) :
    ∃ rid b', u16.read buffer b = some (rid, b') ∧
      readVars traceSetters buffer calls rid b' = .ok (calls ++ sets.flatMap varCalls) := by
  induction sets generalizing calls b with
  | nil =>
      rw [encodeVars_nil] at stands
      rcases u16.read_of_drop trivial stands with ⟨read, _⟩
      exact ⟨invalidRid, _, read, by simp [readVars_eq]⟩
  | cons set sets ih =>
      rcases List.forall_mem_cons.mp fits with ⟨fitsHead, fitsRest⟩
      obtain ⟨cnt, b₁, b₂, b₃, readRid, readCnt, readAll, standsRest⟩ :=
        readVar_encoded fitsHead stands calls
      rcases ih fitsRest (calls ++ varCalls set) b₃ standsRest with ⟨rid, b₄, readNext, rest⟩
      refine ⟨set.1, b₁, readRid, ?_⟩
      rw [readVars_eq, if_neg fitsHead.valid, readCnt]
      simp only [readAll, readNext]
      apply rest.trans
      simp [varCalls]

/-! ## The scan -/

/-- The calls that decoding an encoding makes. -/
def encodingCalls (c : VCookie) (saveLastHitTime : Bool) : List Call :=
  headerCalls c saveLastHitTime ++ c.countedVars.flatMap varCalls

/-- Every counted variable of an encodable cookie fits. -/
theorem setFits_of_mem {c : VCookie} (encodable : Encodable c) :
    ∀ set ∈ c.countedVars, SetFits set := by
  rintro ⟨rid, var⟩ member
  rcases encodable.indexed.mem_countedVars_iff.mp member with ⟨valid, nonempty, rfl⟩
  refine ⟨valid, nonempty, ?_, ?_⟩
  · rw [length_counted]
    exact unsignedSize_lt _
  · intro element stored
    have held := List.mem_of_mem_take stored
    rcases exists_of_elements_ne_nil (List.ne_nil_of_mem held) with ⟨rv, entry, rfl⟩
    rw [encodable.indexed.elements_of_mem entry] at held
    exact (encodable.values rv entry).2 element held

theorem length_u32_put (val : UInt32) : (u32.put val).length = 4 :=
  length_leBytes 4 _

theorem encodeVars_ne_nil (sets : List (RelationId × List RelVar)) : encodeVars sets ≠ [] := by
  rw [encodeVars]
  exact List.append_ne_nil_of_right_ne_nil _ (List.cons_ne_nil _ _)

/-- The encoding with other bytes in place of the terminator of the fields, under
any version and flag. -/
def newerStream (c : VCookie) (saveLastHitTime : Bool) (version flag : UInt8) (unknown : Bytes) :
    Bytes :=
  [version, 0, flag] ++
    u32.put (UInt32.ofNat (7 + (serializeFields c saveLastHitTime).length + unknown.length)) ++
    serializeFields c saveLastHitTime ++ unknown ++ encodeVars c.countedVars

theorem length_newerStream (c : VCookie) (saveLastHitTime : Bool) (version flag : UInt8)
    (unknown : Bytes) :
    (newerStream c saveLastHitTime version flag unknown).length =
      7 + (serializeFields c saveLastHitTime).length + unknown.length +
        (encodeVars c.countedVars).length := by
  simp only [newerStream, List.length_append, List.length_cons, List.length_nil, length_u32_put]

theorem encode_eq_newerStream (c : VCookie) (saveLastHitTime : Bool) :
    encode c saveLastHitTime = newerStream c saveLastHitTime 0 0 [0] := by
  simp [encode, newerStream, encodeFields, Nat.add_assoc]

/-- The reads of a stream up to its variables: the header, the offset, and the
known fields, which end before the first byte that is no field of theirs. -/
structure ReadsFields (c : VCookie) (saveLastHitTime : Bool) (buffer : Bytes) (offset : UInt32) :
    Prop where
  version : ∃ version, u8.read buffer 0 = some (version, 1)
  compatible : u8.read buffer 1 = some (0, 2)
  flag : ∃ flag, u8.read buffer 2 = some (flag, 3)
  offset : u32.read buffer 3 = some (offset, 7)
  fields : ∃ next s, u8.read buffer 7 = some (next, 8) ∧
    readFields traceSetters buffer ⟨[], 8, next⟩ = .ok s ∧
    s.b = 8 + (serializeFields c saveLastHitTime).length ∧
    s.cookie = headerCalls c saveLastHitTime

theorem readsFields {c : VCookie} (encodable : Encodable c) (saveLastHitTime : Bool)
    {buffer tail : Bytes} {version flag : UInt8} {offset : UInt32}
    (bytes : buffer = version :: 0 :: flag ::
      (u32.put offset ++ (serializeFields c saveLastHitTime ++ tail)))
    (opens : OpensAbove 11 tail) (long : 1 < tail.length) :
    ReadsFields c saveLastHitTime buffer offset := by
  have stands : buffer.drop 0 = version :: 0 :: flag ::
      (u32.put offset ++ (serializeFields c saveLastHitTime ++ tail)) := bytes
  rcases u8_read_of_drop stands with ⟨readVersion, stands₁⟩
  rcases u8_read_of_drop stands₁ with ⟨readCompatible, stands₂⟩
  rcases u8_read_of_drop stands₂ with ⟨readFlag, stands₃⟩
  rcases u32.read_of_drop trivial stands₃ with ⟨readOffset, stands₄⟩
  rw [length_u32_put] at readOffset stands₄
  have fields := consumes_readFields encodable saveLastHitTime buffer
  rcases fields.opens _ opens with ⟨next, rest, opensAt, _⟩
  rcases u8_read_of_drop (stands₄.trans opensAt) with ⟨readNext, stands₅⟩
  obtain ⟨s, readFields, standsEnd, cookie⟩ :=
    fields.reads ⟨[], 8, next⟩ _ opens ((congrArg (next :: ·) stands₅).trans opensAt.symm)
  have total : buffer.length = 7 + (serializeFields c saveLastHitTime).length + tail.length := by
    rw [bytes]
    simp only [List.length_cons, List.length_append, length_u32_put]
    omega
  have lengths := congrArg List.length standsEnd
  rw [List.length_cons, List.length_drop] at lengths
  exact ⟨⟨version, readVersion⟩, readCompatible, ⟨flag, readFlag⟩, readOffset, next, s, readNext,
    readFields, by omega, cookie⟩

theorem opensAbove_append {bytes : Bytes} {field : UInt8} (opens : OpensAbove field bytes)
    (rest : Bytes) : OpensAbove field (bytes ++ rest) := by
  rcases opens with ⟨next, bytes, rfl, above⟩
  exact ⟨next, bytes ++ rest, rfl, above⟩

theorem readsFields_newerStream {c : VCookie} (encodable : Encodable c) (saveLastHitTime : Bool)
    (version flag : UInt8) {unknown : Bytes} (opens : OpensAbove 11 unknown) :
    ReadsFields c saveLastHitTime (newerStream c saveLastHitTime version flag unknown)
      (UInt32.ofNat (7 + (serializeFields c saveLastHitTime).length + unknown.length)) := by
  have vars := List.length_pos_iff.mpr (encodeVars_ne_nil c.countedVars)
  have bytes : newerStream c saveLastHitTime version flag unknown = version :: 0 :: flag ::
      (u32.put (UInt32.ofNat (7 + (serializeFields c saveLastHitTime).length + unknown.length)) ++
        (serializeFields c saveLastHitTime ++ (unknown ++ encodeVars c.countedVars))) := by
    simp [newerStream]
  apply readsFields encodable saveLastHitTime bytes (opensAbove_append opens _)
  rcases opens with ⟨first, rest, rfl, _⟩
  simp only [List.length_append, List.length_cons]
  omega

/-- The variables stand where the offset leads. -/
theorem drop_newerStream (c : VCookie) (saveLastHitTime : Bool) (version flag : UInt8)
    (unknown : Bytes) :
    (newerStream c saveLastHitTime version flag unknown).drop
      (7 + (serializeFields c saveLastHitTime).length + unknown.length) =
        encodeVars c.countedVars := by
  apply List.drop_left'
  simp only [List.length_append, List.length_cons, List.length_nil, length_u32_put]

/-- The bytes in place of the terminator are not looked at, as long as they do not
open with a known field. -/
theorem scan_newerStream {c : VCookie} (encodable : Encodable c) {saveLastHitTime : Bool}
    (version flag : UInt8) {unknown : Bytes} (opens : OpensAbove 11 unknown)
    (small : (newerStream c saveLastHitTime version flag unknown).length < 2 ^ 32) :
    scan (newerStream c saveLastHitTime version flag unknown) =
      (encodingCalls c saveLastHitTime, true) := by
  have reads := readsFields_newerStream encodable saveLastHitTime version flag opens
  have stands := drop_newerStream c saveLastHitTime version flag unknown
  have length_stream := length_newerStream c saveLastHitTime version flag unknown
  have length_encode := length_newerStream c saveLastHitTime 0 0 [0]
  have nonempty : 0 < unknown.length := by
    rcases opens with ⟨first, rest, rfl, _⟩
    exact Nat.succ_pos _
  rw [← encode_eq_newerStream, List.length_singleton] at length_encode
  have fits := setFits_of_mem encodable
  generalize newerStream c saveLastHitTime version flag unknown = buffer at *
  generalize size : 7 + (serializeFields c saveLastHitTime).length + unknown.length = offset at *
  have offsetSmall : (UInt32.ofNat offset).toNat = offset := by
    rw [UInt32.toNat_ofNat']
    exact Nat.mod_eq_of_lt (by omega)
  rcases reads.version with ⟨version, readVersion⟩
  rcases reads.flag with ⟨flag, readFlag⟩
  rcases reads.fields with ⟨next, s, readNext, readFields, position, cookie⟩
  rcases readVars_encoded buffer fits s.cookie offset stands with ⟨rid, b, readRid, readAll⟩
  have accepted : decode traceSetters 0 [] buffer =
      .ok (s.cookie ++ c.countedVars.flatMap varCalls) := by
    have compatible : ¬ (0 : UInt8) > vcSerialVersion := by decide
    have inside : ¬ s.b > offset := by omega
    simp only [decode, readHeaderByte, readVersion, reads.compatible, readFlag, Option.getD_some,
      if_neg compatible, reads.offset, readNext, readFields, offsetSmall, if_neg inside, readRid,
      readAll]
  rw [scan, accepted, cookie, encodingCalls]

/-- The scan of an encoding accepts it and makes its calls. -/
theorem scan_encode {c : VCookie} (encodable : Encodable c) {saveLastHitTime : Bool}
    (small : (encode c saveLastHitTime).length < 2 ^ 32) :
    scan (encode c saveLastHitTime) = (encodingCalls c saveLastHitTime, true) := by
  rw [encode_eq_newerStream] at small ⊢
  exact scan_newerStream encodable 0 0 ⟨0, [], rfl, Or.inl rfl⟩ small

end VCookieStore

end Elevator
