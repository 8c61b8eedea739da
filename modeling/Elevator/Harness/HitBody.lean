import Elevator.Codec.Size
import Elevator.Harness.Replay
import Elevator.Store.Site

/-!
# What a worker does with a hit

The worker gives a new cookie the data of its first hit, and every cookie those of its
last one; a purchase is counted and its id saved.  The profile that results is a
function of the hit and of the profile that was found.  No cookie of a worker ever
holds a variable, because an evar is only stored where one is set.
-/

namespace Elevator.Harness

open Wire Transition RelVarTable VCookie VCookieStore

/-- The id that a hit constructs its cookie with. -/
def HitData.id (hit : HitData) : VCookieId :=
  ⟨hit.rsid, hit.visidHigh, hit.visidLow⟩

/-- The setters of `WorkerThread` for a cookie that is new. -/
def setFirstHit (hit : HitData) (cookie : VCookie) : VCookie :=
  let cookie := cookie.setFirstHitTimeGMT hit.hitTimeGmt
  let cookie := cookie.setFirstHitReferrer hit.referrer
  let cookie := cookie.setFirstHitUrl hit.pageUrl
  cookie.setFirstHitPagename hit.pageName

/-- The setters of `WorkerThread` for every cookie. -/
def setLastHit (hit : HitData) (cookie : VCookie) : VCookie :=
  let cookie := cookie.setLastHitTimeGMT hit.hitTimeGmt
  let cookie := cookie.setLastHitTimeVisitorLocal (hit.hitTimeGmt - 7 * 60 * 60)
  cookie.setLastVisitNum hit.visitNum.toUInt32

def setPurchase (hit : HitData) (cookie : VCookie) : VCookie :=
  let cookie :=
    if hit.purchaseTimeGmt ≠ 0 then cookie.setLastPurchaseTimeGMT hit.purchaseTimeGmt else cookie
  if hit.purchaseid.length > 0 then
    ((cookie.setLastPurchaseNum (cookie.getLastPurchaseNum + 1)).setPurchaseId hit.purchaseid).1
  else
    cookie

/-- What `WorkerThread` does between the constructor of a cookie and its `Store`. -/
def applyHit (hit : HitData) (cookie : VCookie) : VCookie :=
  let cookie := if cookie.newCookie then setFirstHit hit cookie else cookie
  evarLoop hit.toHit (setPurchase hit (setLastHit hit cookie))

/-! ## The profile -/

/-- The profile after a hit on a cookie that is new or not. -/
def profileAfter (hit : HitData) (isNew : Bool) (p : Profile) : Profile where
  firstHitTimeGMT := if isNew then hit.hitTimeGmt else p.firstHitTimeGMT
  lastHitTimeGMT := hit.hitTimeGmt
  lastHitTimeVisitorLocal := hit.hitTimeGmt - 7 * 60 * 60
  lastVisitNum := hit.visitNum.toUInt32
  lastPurchaseTimeGMT :=
    if hit.purchaseTimeGmt ≠ 0 then hit.purchaseTimeGmt else p.lastPurchaseTimeGMT
  firstHitReferrer := if isNew then hit.referrer else p.firstHitReferrer
  firstHitPageUrl := if isNew then hit.pageUrl else p.firstHitPageUrl
  firstHitPagename := if isNew then hit.pageName else p.firstHitPagename
  lastPurchaseNum := if hit.purchaseid = [] then p.lastPurchaseNum else p.lastPurchaseNum + 1
  merchandising := p.merchandising
  purchaseIds :=
    if hit.purchaseid = [] then p.purchaseIds else usePurchaseId p.purchaseIds hit.purchaseid

/-- A cookie none of whose variables is set. -/
def NoVars (cookie : VCookie) : Prop :=
  ∀ r, cookie.elements r = []

/-- No evar is stored in a cookie without variables. -/
theorem evarTurn_of_noVars {cookie : VCookie} (indexed : cookie.toRelVarTable.Indexed)
    (noVars : NoVars cookie) (hit : Hit) (i : Fin 75) :
    evarTurn hit cookie i = if hit.evar i = [] then cookie.clearVar (relation i) else cookie := by
  by_cases empty : hit.evar i = []
  · rw [evarTurn, if_neg (not_not.mpr empty), if_pos empty]
  · have answer : cookie.answer (relation i) = [] := by
      rw [indexed.answer_eq]
      cases cookie.designatedId (relation i) with
      | none => rfl
      | some r => exact noVars r
    have nothing : cookie.getVar (relation i) 0 = none := by
      rw [indexed.getVar_eq, answer]
      rfl
    rw [evarTurn, if_pos empty, if_neg empty, nothing]

/-- What the loop over the evars keeps of a cookie without variables. -/
structure Evarless (cookie cookie' : VCookie) : Prop where
  plain : PlainCookie cookie'
  noVars : NoVars cookie'
  profile : cookie'.profile = cookie.profile
  id : cookie'.id = cookie.id

theorem evarless_evarLoop {cookie : VCookie} (plain : PlainCookie cookie)
    (noVars : NoVars cookie) (hit : Hit) : Evarless cookie (evarLoop hit cookie) := by
  refine @run_invariant _ _ (evarTurn hit) (Evarless cookie) (fun d i kept => ?_) cookie
    ⟨plain, noVars, rfl, rfl⟩ (List.finRange 75)
  rw [evarTurn_of_noVars kept.plain.indexed kept.noVars]
  split
  · have cleared : (Mutator.clearVar (relation i)).Plain := ⟨List.not_mem_nil, trivial⟩
    constructor
    · exact kept.plain.mutate cleared
    · intro r
      rcases elements_clearVar_or kept.plain.indexed (relation i) r with empty | same
      · exact empty
      · exact same.trans (kept.noVars r)
    · exact (profile_mutate d (.clearVar (relation i))).trans kept.profile
    · exact (id_mutate d (.clearVar (relation i))).trans kept.id
  · exact kept

/-- The setters that a hit calls on a cookie. -/
def hitCalls (hit : HitData) (isNew : Bool) (lastPurchaseNum : UInt32) : List Mutator :=
  (if isNew then
    [.setFirstHitTimeGMT hit.hitTimeGmt, .setFirstHitReferrer hit.referrer,
      .setFirstHitUrl hit.pageUrl, .setFirstHitPagename hit.pageName]
  else []) ++
    ([.setLastHitTimeGMT hit.hitTimeGmt,
      .setLastHitTimeVisitorLocal (hit.hitTimeGmt - 7 * 60 * 60),
      .setLastVisitNum hit.visitNum.toUInt32] ++
    ((if hit.purchaseTimeGmt ≠ 0 then [.setLastPurchaseTimeGMT hit.purchaseTimeGmt] else []) ++
    if hit.purchaseid = [] then []
    else [.setLastPurchaseNum (lastPurchaseNum + 1), .setPurchaseId hit.purchaseid]))

theorem applyHit_eq (hit : HitData) (cookie : VCookie) :
    applyHit hit cookie =
      evarLoop hit.toHit
        (run mutate cookie (hitCalls hit cookie.newCookie cookie.lastPurchaseNum)) := by
  have positive : hit.purchaseid.length > 0 ↔ hit.purchaseid ≠ [] := List.length_pos_iff
  rw [applyHit, setPurchase, hitCalls]
  congr 1
  cases cookie.newCookie <;> by_cases timed : hit.purchaseTimeGmt = 0 <;>
    by_cases none : hit.purchaseid = [] <;> simp [positive, timed, none] <;> rfl

/-- The strings of a hit that a worker stores. -/
def HitData.texts (hit : HitData) : List Bytes :=
  [hit.referrer, hit.pageUrl, hit.pageName, hit.purchaseid]

theorem isField_hitCalls (hit : HitData) (isNew : Bool) (lastPurchaseNum : UInt32) :
    ∀ m ∈ hitCalls hit isNew lastPurchaseNum,
      m.IsField ∧ (m.text = [] ∨ m.text ∈ hit.texts) := by
  cases isNew <;> by_cases timed : hit.purchaseTimeGmt = 0 <;>
    by_cases none : hit.purchaseid = [] <;>
    simp [hitCalls, timed, none, Mutator.IsField, Mutator.text, HitData.texts]

theorem plain_of_isField {m : Mutator} (field : m.IsField) (text : 0 ∉ m.text) : m.Plain where
  text := text
  stores := by
    cases m with
    | setVar => exact False.elim field
    | addLinearElement => exact False.elim field
    | _ => trivial

theorem plain_hitCalls {hit : HitData} (nulFree : ∀ text ∈ hit.texts, 0 ∉ text) (isNew : Bool)
    (lastPurchaseNum : UInt32) : ∀ m ∈ hitCalls hit isNew lastPurchaseNum, m.Plain := by
  intro m member
  obtain ⟨field, text⟩ := isField_hitCalls hit isNew lastPurchaseNum m member
  apply plain_of_isField field
  rcases text with none | among
  · rw [none]
    exact List.not_mem_nil
  · exact nulFree m.text among

/-- The setters leave the variables alone. -/
theorem table_run_hitCalls (hit : HitData) (isNew : Bool) (lastPurchaseNum : UInt32)
    (cookie : VCookie) :
    (run mutate cookie (hitCalls hit isNew lastPurchaseNum)).toRelVarTable =
      cookie.toRelVarTable :=
  @run_invariant_of_forall _ _ mutate (fun d => d.toRelVarTable = cookie.toRelVarTable)
    Mutator.IsField (fun d _ field same => (table_mutate_of_isField field d).trans same) cookie
    rfl _ fun m member => (isField_hitCalls hit isNew lastPurchaseNum m member).1

theorem run_hitCalls (hit : HitData) (isNew : Bool) (p : Profile) :
    run Profile.mutate p (hitCalls hit isNew p.lastPurchaseNum) = profileAfter hit isNew p := by
  cases isNew <;> by_cases timed : hit.purchaseTimeGmt = 0 <;>
    by_cases none : hit.purchaseid = [] <;> simp [hitCalls, profileAfter, timed, none] <;> rfl

/-- A hit leaves a plain cookie without variables, with the profile after the hit. -/
theorem applied_of_plain {hit : HitData} (nulFree : ∀ text ∈ hit.texts, 0 ∉ text)
    {cookie : VCookie} (plain : PlainCookie cookie) (noVars : NoVars cookie) :
    PlainCookie (applyHit hit cookie) ∧ NoVars (applyHit hit cookie) ∧
      (applyHit hit cookie).profile = profileAfter hit cookie.newCookie cookie.profile ∧
      (applyHit hit cookie).id = cookie.id := by
  rw [applyHit_eq]
  have calls := plain_hitCalls nulFree cookie.newCookie cookie.lastPurchaseNum
  have vars :
      NoVars (run mutate cookie (hitCalls hit cookie.newCookie cookie.lastPurchaseNum)) := by
    rw [NoVars, table_run_hitCalls]
    exact noVars
  have loop := evarless_evarLoop (plain.run calls) vars hit.toHit
  constructor
  · exact loop.plain
  constructor
  · exact loop.noVars
  constructor
  · rw [loop.profile, profile_run]
    exact run_hitCalls hit cookie.newCookie cookie.profile
  · rw [loop.id, id_run]

/-! ## Sizes -/

/-- The strings of a profile are shorter than `2 ^ 28`. -/
def ShortTexts (p : Profile) : Prop :=
  ∀ text ∈ p.texts, text.length < 2 ^ 28

/-- A hit whose strings can be stored. -/
structure HitData.Fits (hit : HitData) : Prop where
  nulFree : ∀ text ∈ hit.texts, 0 ∉ text
  short : ∀ text ∈ hit.texts, text.length < 2 ^ 28

/-- Every text after a hit is one of the hit or was there before. -/
theorem texts_profileAfter (hit : HitData) (isNew : Bool) (p : Profile) :
    ∀ text ∈ (profileAfter hit isNew p).texts, text ∈ hit.texts ∨ text ∈ p.texts := by
  have ids : ∀ text ∈ (profileAfter hit isNew p).purchaseIds,
      text = hit.purchaseid ∨ text ∈ p.purchaseIds := by
    intro text member
    simp only [profileAfter] at member
    split at member
    · exact Or.inr member
    · exact (Sequence.mem_use member).symm
  intro text member
  rw [Profile.texts, List.mem_append] at member
  rcases member with scalar | id
  · cases isNew <;> simp [profileAfter] at scalar <;>
      rcases scalar with rfl | rfl | rfl | rfl <;> simp [HitData.texts, Profile.texts]
  · rcases ids text id with rfl | saved
    · simp [HitData.texts]
    · right
      exact List.mem_append_right _ saved

theorem shortTexts_profileAfter {hit : HitData} (fits : hit.Fits) (isNew : Bool) {p : Profile}
    (short : ShortTexts p) : ShortTexts (profileAfter hit isNew p) := by
  intro text member
  rcases texts_profileAfter hit isNew p text member with new | old
  · exact fits.short text new
  · exact short text old

/-- A cookie without variables whose texts are short has a small record. -/
theorem small_of_noVars {cookie : VCookie} (plain : PlainCookie cookie)
    (noVars : NoVars cookie) (short : ShortTexts cookie.profile) : Small cookie := by
  refine ⟨inRange_of_unset noVars, fun saveLastHitTime => ?_⟩
  have none : cookie.countedVars = [] := by
    apply List.eq_nil_iff_forall_not_mem.mpr
    rintro ⟨relationId, var⟩ member
    obtain ⟨_, nonempty, list⟩ := plain.indexed.mem_countedVars_iff.mp member
    rw [noVars relationId] at list
    exact nonempty list.symm
  have vars : (encodeVars cookie.countedVars).length = 2 := by
    rw [none]
    rfl
  have count : cookie.profile.texts.length ≤ 9 := by
    have kept := plain.purchaseIds.length_le
    simp only [Profile.texts, VCookie.profile, numSavedPurchaseIds, List.length_append,
      List.length_cons, List.length_nil] at kept ⊢
    omega
  have texts := sizeOfTexts_le short
  have fields := length_encodeFields_le plain.purchaseIds saveLastHitTime
  have bound : cookie.profile.texts.length * 2 ^ 28 ≤ 9 * 2 ^ 28 :=
    Nat.mul_le_mul_right _ count
  rw [length_encode, vars]
  omega

/-! ## Strings of a file -/

theorem escapedLine_bounds (line : Bytes) :
    (∀ byte ∈ escapedLine line, byte = 32 ∨ byte ∈ line) ∧
      (escapedLine line).length ≤ line.length := by
  fun_induction escapedLine line with
  | case1 rest ih =>
      constructor
      · intro byte member
        rcases List.mem_cons.mp member with rfl | behind
        · exact Or.inl rfl
        · rcases ih.1 byte behind with blank | old
          · exact Or.inl blank
          · right
            simp [old]
      · simp only [List.length_cons]
        omega
  | case2 byte rest _ ih =>
      constructor
      · intro other member
        rcases List.mem_cons.mp member with rfl | behind
        · exact Or.inr List.mem_cons_self
        · exact (ih.1 other behind).imp_right (List.mem_cons_of_mem byte)
      · exact Nat.succ_le_succ ih.2
  | case3 => exact ⟨fun _ member => absurd member List.not_mem_nil, Nat.le_refl _⟩

/-- A string that can be stored. -/
def Storable (text : Bytes) : Prop :=
  0 ∉ text ∧ text.length < 2 ^ 28

/-- A file whose fields can be stored. -/
def Textual (content : Bytes) : Prop :=
  ∀ fields ∈ DwfileHitSource.records content, ∀ text ∈ fields, Storable text

/-- A file that could be stored itself has such fields. -/
theorem Storable.textual {content : Bytes} (storable : Storable content) : Textual content := by
  intro fields member
  rcases List.mem_map.mp (List.mem_of_mem_filter member) with ⟨line, among, rfl⟩
  intro text part
  have lineWithin := Sequence.sublist_of_mem_lines among
  have textWithin := Sequence.sublist_of_mem_splitOn part
  obtain ⟨bytes, length⟩ := escapedLine_bounds line
  constructor
  · intro zero
    rcases bytes 0 (textWithin.subset zero) with blank | old
    · contradiction
    · exact storable.1 (lineWithin.subset old)
  · exact Nat.lt_of_le_of_lt
      (textWithin.length_le.trans (length.trans lineWithin.length_le)) storable.2

/-- A hit of storable fields can be stored. -/
theorem fits_hitData {cast : LexicalCast} {fields : List Bytes}
    (storable : ∀ text ∈ fields, Storable text) {hit : HitData}
    (converted : hitData cast fields = some hit) : hit.Fits := by
  have some : Storable [] := ⟨List.not_mem_nil, Nat.two_pow_pos 28⟩
  have text (name : String) : Storable (field fields name) := by
    rw [field, List.getD_eq_getElem?_getD]
    cases found : fields[fieldNames.idxOf name]? with
    | none => exact some
    | some text => exact storable text (List.mem_of_getElem? found)
  have all : ∀ text ∈ hit.texts, Storable text := by
    simp only [hitData, Option.bind_eq_bind, Option.bind_eq_some_iff, Option.pure_def] at converted
    obtain ⟨_, _, _, _, _, _, _, _, converted⟩ := converted
    split at converted <;>
      simp only [Option.bind_some, Option.bind_eq_some_iff, Option.some.injEq] at converted <;>
      obtain ⟨_, _, _, _, converted⟩ := converted
    · obtain ⟨_, _, _, _, rfl⟩ := converted
      simp only [HitData.texts, List.forall_mem_cons]
      exact ⟨text _, text _, text _, text _, List.forall_mem_nil _⟩
    · obtain ⟨_, _, rfl⟩ := converted
      simp only [HitData.texts, List.forall_mem_cons]
      exact ⟨text _, text _, text _, text _, List.forall_mem_nil _⟩
  exact ⟨fun text member => (all text member).1, fun text member => (all text member).2⟩

theorem storable_of_mem_allRecords {files : List (Option Bytes)}
    (textual : ∀ content, some content ∈ files → Textual content) {fields : List Bytes}
    (member : fields ∈ allRecords files) : ∀ text ∈ fields, Storable text := by
  rcases List.mem_flatMap.mp member with ⟨file, among, own⟩
  cases file with
  | none => cases own
  | some content => exact textual content among fields own

end Elevator.Harness
