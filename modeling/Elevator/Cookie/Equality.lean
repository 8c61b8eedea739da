import Elevator.Cookie.Listing

/-!
# Cookie equality

`operator==` compares the identity, the getters and the purchase ids, and then
walks the set variables.  Both cursors of that walk advance in the left cookie,
so the right one only answers lookups of the left one's relations, and only the
counted part of a list is compared.  The comparison is observational, and with
that symmetric and transitive, except for the pairs this overlooks.
-/

namespace Elevator

open Wire Transition RelVarTable

namespace VCookie

/-! ## The operator -/

/-- The element loop; dereferencing a null pointer is undefined. -/
def compareElements (a b : RelVarTable) (av bv : Nat) : List Nat → Option Bool
  | [] => some true
  | i :: rest =>
      match a.getVarAt av i, b.getVarAt bv i with
      | some arv, some brv =>
          if arv.value ≠ brv.value ∨ arv.timestamp ≠ brv.timestamp ∨
              arv.revision ≠ brv.revision then
            some false
          else
            compareElements a b av bv rest
      | _, _ => none

/-- The loop over the relations, undefined when the fuel runs out.  The source
advances `br` in `a` as well. -/
def compareVars (a b : RelVarTable) : Nat → RelationId → RelationId → Option Bool
  | 0, _, _ => none
  | fuel + 1, ar, br =>
      if ar ≠ invalidRid then
        let ac := a.getVarElementCount ar
        let bc := b.getVarElementCount br
        if ac.1 ≠ bc.1 then
          some false
        else
          match compareElements a b ac.2 bc.2 (List.range ac.1) with
          | none => none
          | some false => some false
          | some true =>
              let ar := a.getNextSetVar ar
              let br := a.getNextSetVar br
              if ar ≠ br then some false else compareVars a b fuel ar br
      else
        some true

/-- `operator==`, with fuel for the set variables of the left cookie. -/
def operatorEq (a b : VCookie) : Option Bool :=
  if a.userid ≠ b.userid ∨ a.visidHigh ≠ b.visidHigh ∨ a.visidLow ≠ b.visidLow then
    some false
  else if a.getLastHitTimeGMT ≠ b.getLastHitTimeGMT ∨
      a.getLastHitTimeVisitorLocal ≠ b.getLastHitTimeVisitorLocal ∨
      a.getFirstHitTimeGMT ≠ b.getFirstHitTimeGMT ∨
      a.getLastVisitNum ≠ b.getLastVisitNum then
    some false
  else if a.getFirstHitReferrer ≠ b.getFirstHitReferrer ∨
      a.getFirstHitUrl ≠ b.getFirstHitUrl ∨
      a.getFirstHitPagename ≠ b.getFirstHitPagename ∨
      a.getLastPurchaseNum ≠ b.getLastPurchaseNum ∨
      a.getPurchaseIdCount ≠ b.getPurchaseIdCount then
    some false
  else if a.getMerchandising ≠ b.getMerchandising then
    some false
  else if (List.range a.getPurchaseIdCount).any fun i => a.getPurchaseId i ≠ b.getPurchaseId i then
    some false
  else
    let ar := a.getFirstSetVar
    let br := b.getFirstSetVar
    if ar ≠ br then some false
    else compareVars a.toRelVarTable b.toRelVarTable (a.relVarSort.length + 1) ar br

/-! ## What it observes -/

/-- Identity, scalar getters and purchase ids agree. -/
structure SameHeader (a b : VCookie) : Prop where
  id : a.id = b.id
  firstHitTimeGMT : a.getFirstHitTimeGMT = b.getFirstHitTimeGMT
  lastHitTimeGMT : a.getLastHitTimeGMT = b.getLastHitTimeGMT
  lastHitTimeVisitorLocal : a.getLastHitTimeVisitorLocal = b.getLastHitTimeVisitorLocal
  lastVisitNum : a.getLastVisitNum = b.getLastVisitNum
  lastPurchaseTimeGMT : a.getLastPurchaseTimeGMT = b.getLastPurchaseTimeGMT
  firstHitReferrer : a.getFirstHitReferrer = b.getFirstHitReferrer
  firstHitUrl : a.getFirstHitUrl = b.getFirstHitUrl
  firstHitPagename : a.getFirstHitPagename = b.getFirstHitPagename
  lastPurchaseNum : a.getLastPurchaseNum = b.getLastPurchaseNum
  merchandising : a.getMerchandising = b.getMerchandising
  purchaseIds : a.purchaseIds = b.purchaseIds

/-- The headers agree, the same relations are set, and each has the same
elements. -/
structure ObservablyEqual (a b : VCookie) : Prop where
  header : SameHeader a b
  relations : ∀ r, a.elements r ≠ [] ↔ b.elements r ≠ []
  elements : ∀ r, a.elements r ≠ [] → a.elements r = b.elements r

theorem observablyEqual_iff {a b : VCookie} :
    ObservablyEqual a b ↔ SameHeader a b ∧ ∀ r, a.elements r = b.elements r := by
  constructor
  · intro equal
    constructor
    · exact equal.header
    · intro r
      by_cases empty : a.elements r = []
      · have empty' : b.elements r = [] := by
          by_contra nonempty
          exact (equal.relations r).mpr nonempty empty
        rw [empty, empty']
      · exact equal.elements r empty
  · rintro ⟨header, elements⟩
    exact ⟨header, fun r => by rw [elements r], fun r _ => elements r⟩

/-! ## The comparison decides -/

theorem relVar_ne_iff {x y : RelVar} :
    x.value ≠ y.value ∨ x.timestamp ≠ y.timestamp ∨ x.revision ≠ y.revision ↔ x ≠ y := by
  cases x
  cases y
  simp only [ne_eq, RelVar.mk.injEq, not_and_or]

theorem compareElements_eq {a b : RelVarTable} {av bv : Nat} {as bs : List RelVar}
    {indices : List Nat} (left : ∀ i ∈ indices, i < as.length ∧ a.getVarAt av i = as[i]?)
    (right : ∀ i ∈ indices, i < bs.length ∧ b.getVarAt bv i = bs[i]?) :
    compareElements a b av bv indices = some (decide (∀ i ∈ indices, as[i]? = bs[i]?)) := by
  induction indices with
  | nil => simp [compareElements]
  | cons i rest ih =>
      rcases List.forall_mem_cons.mp left with ⟨⟨insideA, readA⟩, leftRest⟩
      rcases List.forall_mem_cons.mp right with ⟨⟨insideB, readB⟩, rightRest⟩
      rw [List.getElem?_eq_getElem insideA] at readA
      rw [List.getElem?_eq_getElem insideB] at readB
      simp only [compareElements, readA, readB, relVar_ne_iff, ih leftRest rightRest,
        List.forall_mem_cons, List.getElem?_eq_getElem insideA, List.getElem?_eq_getElem insideB,
        Option.some.injEq]
      by_cases same : as[i] = bs[i] <;> simp [same]

/-- The element loop decides whether the counted parts of two lists are equal. -/
theorem compareElements_count {a b : RelVarTable} (indexedA : a.Indexed) (indexedB : b.Indexed)
    {ar br : RelationId}
    (size_eq : unsignedSize (a.answer ar).length = unsignedSize (b.answer br).length) :
    compareElements a b (a.getVarElementCount ar).2 (b.getVarElementCount br).2
        (List.range (a.getVarElementCount ar).1) =
      some (decide (counted (a.answer ar) = counted (b.answer br))) := by
  have get {var : List RelVar} {i : Nat} (inside : i < unsignedSize var.length) :
      var[i]? = (counted var)[i]? := (List.getElem?_take_of_lt inside).symm
  have left : ∀ i ∈ List.range (unsignedSize (a.answer ar).length),
      i < (counted (a.answer ar)).length ∧
        a.getVarAt (a.getVarElementCount ar).2 i = (counted (a.answer ar))[i]? := by
    intro i member
    have inside := List.mem_range.mp member
    rw [length_counted, indexedA.getVarAt_count ar inside]
    exact ⟨inside, get inside⟩
  have right : ∀ i ∈ List.range (unsignedSize (a.answer ar).length),
      i < (counted (b.answer br)).length ∧
        b.getVarAt (b.getVarElementCount br).2 i = (counted (b.answer br))[i]? := by
    intro i member
    have inside : i < unsignedSize (b.answer br).length := size_eq ▸ List.mem_range.mp member
    rw [length_counted, indexedB.getVarAt_count br inside]
    exact ⟨inside, get inside⟩
  rw [indexedA.getVarElementCount_eq, compareElements_eq left right]
  congr 2
  refine propext ⟨fun same => List.ext_getElem? fun i => ?_, fun same i _ => by rw [same]⟩
  by_cases inside : i < unsignedSize (a.answer ar).length
  · exact same i (List.mem_range.mpr inside)
  · rw [List.getElem?_eq_none (by rw [length_counted]; omega),
      List.getElem?_eq_none (by rw [length_counted]; omega)]

/-- One turn of the loop compares the counted answers of both sides. -/
theorem compareVars_succ {a b : RelVarTable} (indexedA : a.Indexed) (indexedB : b.Indexed)
    (fuel : Nat) {rid : RelationId} (valid : rid ≠ invalidRid) :
    compareVars a b (fuel + 1) rid rid =
      if counted (a.answer rid) = counted (b.answer rid) then
        compareVars a b fuel (a.getNextSetVar rid) (a.getNextSetVar rid)
      else some false := by
  rw [compareVars, if_pos valid]
  simp only [ne_eq, not_true, if_false]
  by_cases size_eq : unsignedSize (a.answer rid).length = unsignedSize (b.answer rid).length
  · rw [compareElements_count indexedA indexedB size_eq, indexedA.getVarElementCount_eq,
      indexedB.getVarElementCount_eq, if_neg (not_not.mpr size_eq)]
    by_cases same : counted (a.answer rid) = counted (b.answer rid) <;> simp [same]
  · have different : ¬ counted (a.answer rid) = counted (b.answer rid) := by
      intro same
      have lengths := congrArg List.length same
      rw [length_counted, length_counted] at lengths
      exact size_eq lengths
    rw [indexedA.getVarElementCount_eq, indexedB.getVarElementCount_eq, if_pos size_eq,
      if_neg different]

/-- The loop asks `b` for every relation of the walk over `a`. -/
theorem compareVars_eq {a b : RelVarTable} (indexedA : a.Indexed) (indexedB : b.Indexed)
    {rid : RelationId} {visited : List RelVarImpl} (walk : Walk a RelVarImpl.isSet rid visited)
    {fuel : Nat} (enough : visited.length < fuel) :
    compareVars a b fuel rid rid =
      some (decide (∀ rv ∈ visited,
        counted (a.answer rv.relationId) = counted (b.answer rv.relationId))) := by
  induction walk generalizing fuel with
  | stop =>
      cases fuel with
      | zero => contradiction
      | succ fuel => simp [compareVars]
  | @visit rv rest member pass valid next ih =>
      cases fuel with
      | zero => contradiction
      | succ fuel =>
          have rest := ih (Nat.lt_of_succ_lt_succ enough)
          rw [compareVars_succ indexedA indexedB fuel valid]
          by_cases same : counted (a.answer rv.relationId) = counted (b.answer rv.relationId)
          · rw [if_pos same]
            apply rest.trans
            simp [same]
          · rw [if_neg same]
            simp [same]

/-- Equal counts and equal members are equal lists. -/
theorem purchaseIds_eq_iff {a b : VCookie} :
    a.purchaseIds = b.purchaseIds ↔
      a.getPurchaseIdCount = b.getPurchaseIdCount ∧
        ¬ (List.range a.getPurchaseIdCount).any fun i => a.getPurchaseId i ≠ b.getPurchaseId i := by
  constructor
  · intro same
    simp [getPurchaseIdCount, getPurchaseId, same]
  · rintro ⟨count, members⟩
    apply List.ext_getElem count
    intro i insideA insideB
    simp only [List.any_eq_true, List.mem_range, not_exists, not_and, decide_eq_true_eq,
      not_not] at members
    simpa [getPurchaseId, List.getD_eq_getElem?_getD, insideA, insideB] using members i insideA

/-- The tests in front of the variable loop compare the headers; the purchase
time has none, as its getter returns the last-hit time. -/
theorem sameHeader_iff {a b : VCookie} :
    SameHeader a b ↔
      ¬ (a.userid ≠ b.userid ∨ a.visidHigh ≠ b.visidHigh ∨ a.visidLow ≠ b.visidLow) ∧
      ¬ (a.getLastHitTimeGMT ≠ b.getLastHitTimeGMT ∨
        a.getLastHitTimeVisitorLocal ≠ b.getLastHitTimeVisitorLocal ∨
        a.getFirstHitTimeGMT ≠ b.getFirstHitTimeGMT ∨
        a.getLastVisitNum ≠ b.getLastVisitNum) ∧
      ¬ (a.getFirstHitReferrer ≠ b.getFirstHitReferrer ∨
        a.getFirstHitUrl ≠ b.getFirstHitUrl ∨
        a.getFirstHitPagename ≠ b.getFirstHitPagename ∨
        a.getLastPurchaseNum ≠ b.getLastPurchaseNum ∨
        a.getPurchaseIdCount ≠ b.getPurchaseIdCount) ∧
      ¬ (a.getMerchandising ≠ b.getMerchandising) ∧
      ¬ (List.range a.getPurchaseIdCount).any fun i =>
        a.getPurchaseId i ≠ b.getPurchaseId i := by
  simp only [not_or, not_not]
  constructor
  · intro header
    rcases VCookieId.mk.inj header.id with ⟨user, high, low⟩
    rcases purchaseIds_eq_iff.mp header.purchaseIds with ⟨count, members⟩
    exact ⟨⟨user, high, low⟩,
      ⟨header.lastHitTimeGMT, header.lastHitTimeVisitorLocal, header.firstHitTimeGMT,
        header.lastVisitNum⟩,
      ⟨header.firstHitReferrer, header.firstHitUrl, header.firstHitPagename,
        header.lastPurchaseNum, count⟩,
      header.merchandising, members⟩
  · rintro ⟨⟨user, high, low⟩, ⟨lastHit, visitorLocal, firstHit, visits⟩,
      ⟨referrer, url, pagename, purchaseNum, count⟩, merchandising, members⟩
    exact ⟨by simp only [VCookie.id, user, high, low], firstHit, lastHit, visitorLocal,
      visits, lastHit, referrer, url, pagename, purchaseNum, merchandising,
      purchaseIds_eq_iff.mpr ⟨count, members⟩⟩

theorem operatorEq_of_header {a b : VCookie} (header : SameHeader a b) :
    operatorEq a b =
      if a.getFirstSetVar ≠ b.getFirstSetVar then some false
      else compareVars a.toRelVarTable b.toRelVarTable (a.relVarSort.length + 1)
        a.getFirstSetVar b.getFirstSetVar := by
  rcases sameHeader_iff.mp header with ⟨ids, traffic, ecommerce, merchandising, purchaseIds⟩
  rw [operatorEq, if_neg ids, if_neg traffic, if_neg ecommerce, if_neg merchandising,
    if_neg purchaseIds]

theorem operatorEq_of_not_header {a b : VCookie} (different : ¬ SameHeader a b) :
    operatorEq a b = some false := by
  rw [sameHeader_iff] at different
  unfold operatorEq
  split
  · rfl
  split
  · rfl
  split
  · rfl
  split
  · rfl
  split
  · rfl
  exact absurd ⟨‹_›, ‹_›, ‹_›, ‹_›, ‹_›⟩ different

/-- What `operator==` accepts. -/
structure Accepted (a b : VCookie) : Prop where
  header : SameHeader a b
  first : a.getFirstSetVar = b.getFirstSetVar
  answered : ∀ r, r ≠ invalidRid → a.elements r ≠ [] →
    counted (b.answer r) = counted (a.elements r)

theorem operatorEq_eq_some_iff {a b : VCookie} (indexedA : a.toRelVarTable.Indexed)
    (indexedB : b.toRelVarTable.Indexed) :
    ∃ result, operatorEq a b = some result ∧ (result = true ↔ Accepted a b) := by
  by_cases header : SameHeader a b
  · rw [operatorEq_of_header header]
    by_cases first : a.getFirstSetVar = b.getFirstSetVar
    · have enough := Nat.lt_succ_of_le (a.length_listed_le RelVarImpl.isSet)
      have compared := compareVars_eq indexedA indexedB (indexedA.walk RelVarImpl.isSet) enough
      rw [← first, if_neg (not_not.mpr rfl)]
      refine ⟨_, compared, ?_⟩
      rw [decide_eq_true_eq]
      constructor
      · intro answered
        refine ⟨header, first, fun r valid nonempty => ?_⟩
        have member := indexedA.mem_setVars_iff.mpr ⟨valid, nonempty, rfl⟩
        rcases List.mem_map.mp member with ⟨rv, listed, equal⟩
        rcases Prod.mk.inj equal with ⟨rfl, list⟩
        have entry := indexedA.mem_entries_iff.mp (List.mem_filter.mp listed).1
        rw [← answered rv listed, indexedA.answer_of_mem entry]
        exact congrArg counted list
      · intro accepted rv listed
        have member : (rv.relationId, rv.var) ∈ a.setVars := List.mem_map.mpr ⟨rv, listed, rfl⟩
        rcases indexedA.mem_setVars_iff.mp member with ⟨valid, nonempty, list⟩
        have entry := indexedA.mem_entries_iff.mp (List.mem_filter.mp listed).1
        rw [indexedA.answer_of_mem entry, accepted.answered _ valid (list ▸ nonempty), list]
    · exact ⟨false, if_pos first,
        iff_of_false Bool.false_ne_true fun accepted => first accepted.first⟩
  · exact ⟨false, operatorEq_of_not_header header,
      iff_of_false Bool.false_ne_true fun accepted => header accepted.header⟩

/-! ## Where it is observational -/

/-- A set relation answers for itself. -/
theorem answer_eq_elements_of_set {table : RelVarTable} (indexed : table.Indexed)
    {r : RelationId} (isSet : table.elements r ≠ []) : table.answer r = table.elements r := by
  rcases exists_of_elements_ne_nil isSet with ⟨rv, member, rfl⟩
  rw [indexed.answer_of_mem member, indexed.elements_of_mem member]

theorem ObservablyEqual.accepted {a b : VCookie} (equal : ObservablyEqual a b)
    (indexedA : a.toRelVarTable.Indexed) (indexedB : b.toRelVarTable.Indexed) :
    Accepted a b := by
  rcases observablyEqual_iff.mp equal with ⟨header, elements⟩
  refine ⟨header, ?_, fun r _ isSet => ?_⟩
  · have sets := (setVars_eq_iff indexedA indexedB).mpr fun r _ => elements r
    rw [indexedA.getFirstSetVar_eq, indexedB.getFirstSetVar_eq, sets]
  · rw [elements r] at isSet ⊢
    rw [answer_eq_elements_of_set indexedB isSet]

theorem SameHeader.symm {a b : VCookie} (same : SameHeader a b) : SameHeader b a :=
  ⟨same.id.symm, same.firstHitTimeGMT.symm, same.lastHitTimeGMT.symm,
    same.lastHitTimeVisitorLocal.symm, same.lastVisitNum.symm, same.lastPurchaseTimeGMT.symm,
    same.firstHitReferrer.symm, same.firstHitUrl.symm, same.firstHitPagename.symm,
    same.lastPurchaseNum.symm, same.merchandising.symm, same.purchaseIds.symm⟩

theorem SameHeader.trans {a b c : VCookie} (first : SameHeader a b) (second : SameHeader b c) :
    SameHeader a c :=
  ⟨first.id.trans second.id, first.firstHitTimeGMT.trans second.firstHitTimeGMT,
    first.lastHitTimeGMT.trans second.lastHitTimeGMT,
    first.lastHitTimeVisitorLocal.trans second.lastHitTimeVisitorLocal,
    first.lastVisitNum.trans second.lastVisitNum,
    first.lastPurchaseTimeGMT.trans second.lastPurchaseTimeGMT,
    first.firstHitReferrer.trans second.firstHitReferrer,
    first.firstHitUrl.trans second.firstHitUrl,
    first.firstHitPagename.trans second.firstHitPagename,
    first.lastPurchaseNum.trans second.lastPurchaseNum,
    first.merchandising.trans second.merchandising, first.purchaseIds.trans second.purchaseIds⟩

theorem ObservablyEqual.symm {a b : VCookie} (equal : ObservablyEqual a b) :
    ObservablyEqual b a := by
  rw [observablyEqual_iff] at equal ⊢
  exact ⟨equal.1.symm, fun r => (equal.2 r).symm⟩

theorem ObservablyEqual.trans {a b c : VCookie} (first : ObservablyEqual a b)
    (second : ObservablyEqual b c) : ObservablyEqual a c := by
  rw [observablyEqual_iff] at first second ⊢
  exact ⟨first.1.trans second.1, fun r => (first.2 r).trans (second.2 r)⟩

/-- `r` meets this list: that of the least relation at or above it with an entry, or the
empty one above the last entry. -/
def Meets (table : RelVarTable) (r : RelationId) (var : List RelVar) : Prop :=
  (∃ s, IsLeast {s | HasEntry table s ∧ r ≤ s} s ∧ table.elements s = var) ∨
    (∀ s, HasEntry table s → s < r) ∧ var = []

theorem isLeast_entry_iff {table : RelVarTable} (indexed : table.Indexed) {r s : RelationId} :
    IsLeast {s | HasEntry table s ∧ r ≤ s} s ↔
      ∃ rv, table.designated r = some rv ∧ rv.relationId = s := by
  constructor
  · rintro ⟨⟨⟨rv, member, rfl⟩, above⟩, least⟩
    exact ⟨rv, indexed.designated_eq_some_iff.mpr ⟨member, above, fun rv' member' above' =>
      least ⟨⟨rv', member', rfl⟩, above'⟩⟩, rfl⟩
  · rintro ⟨rv, found, rfl⟩
    rcases indexed.designated_eq_some_iff.mp found with ⟨member, above, least⟩
    constructor
    · exact ⟨⟨rv, member, rfl⟩, above⟩
    · rintro s ⟨⟨rv', member', rfl⟩, above'⟩
      exact least rv' member' above'

/-- A lookup answers with the list its relation meets. -/
theorem meets_iff {table : RelVarTable} (indexed : table.Indexed) {r : RelationId}
    {var : List RelVar} : Meets table r var ↔ table.answer r = var := by
  rw [Meets, answer]
  simp only [isLeast_entry_iff indexed]
  cases found : table.designated r with
  | none =>
      have below := indexed.designated_eq_none_iff.mp found
      constructor
      · rintro (⟨_, ⟨_, contradictory, _⟩, _⟩ | ⟨_, rfl⟩)
        · contradiction
        · rfl
      · rintro rfl
        refine Or.inr ⟨?_, rfl⟩
        rintro s ⟨rv, member, rfl⟩
        exact below rv member
  | some rv =>
      rcases indexed.designated_eq_some_iff.mp found with ⟨member, above, _⟩
      have list := indexed.elements_of_mem member
      constructor
      · rintro (⟨_, ⟨_, same, rfl⟩, rfl⟩ | ⟨below, _⟩)
        · cases same
          exact list.symm
        · exact absurd (below _ ⟨rv, member, rfl⟩) (UInt16.not_lt.mpr above)
      · rintro rfl
        exact Or.inl ⟨rv.relationId, ⟨rv, rfl, rfl⟩, list⟩

/-- No entry has the invalid id. -/
def ValidRelations (table : RelVarTable) : Prop :=
  Within (fun r => r ≠ invalidRid) (fun _ => True) table

theorem ValidRelations.ne_of_set {table : RelVarTable} (valid : ValidRelations table)
    {r : RelationId} (isSet : table.elements r ≠ []) : r ≠ invalidRid := by
  rcases exists_of_elements_ne_nil isSet with ⟨rv, member, rfl⟩
  exact (valid rv member).1

/-- The relation is the least set one. -/
def LeastSet (table : RelVarTable) (r : RelationId) : Prop :=
  IsLeast {r | table.elements r ≠ []} r

theorem LeastSet.unique {table : RelVarTable} {r s : RelationId} (least : LeastSet table r)
    (least' : LeastSet table s) : r = s :=
  UInt16.le_antisymm (least.2 least'.1) (least'.2 least.1)

theorem leastSet_getFirstSetVar {table : RelVarTable} (indexed : table.Indexed)
    (valid : ValidRelations table) :
    LeastSet table table.getFirstSetVar ∨
      (∀ r, ¬ LeastSet table r) ∧ table.getFirstSetVar = invalidRid := by
  have finds := (indexed.enumerates RelVarImpl.isSet fun rv member => (valid rv member).1).first
  have passing : table.Passing RelVarImpl.isSet = fun r => table.elements r ≠ [] :=
    funext fun r => propext (indexed.passing_isSet_iff r)
  rw [passing] at finds
  rcases finds with least | ⟨unset, invalid⟩
  · exact Or.inl least
  · exact Or.inr ⟨fun r least => unset r least.1, invalid⟩

/-- Two cookies whose walks start alike have the same least set relation. -/
theorem getFirstSetVar_eq_iff {a b : RelVarTable} (indexedA : a.Indexed) (indexedB : b.Indexed)
    (validA : ValidRelations a) (validB : ValidRelations b) :
    a.getFirstSetVar = b.getFirstSetVar ↔ ∀ r, LeastSet a r ↔ LeastSet b r := by
  rcases leastSet_getFirstSetVar indexedA validA with leastA | ⟨unsetA, firstA⟩
  · rcases leastSet_getFirstSetVar indexedB validB with leastB | ⟨unsetB, firstB⟩
    · constructor
      · intro same r
        rw [same] at leastA
        exact ⟨fun least => leastA.unique least ▸ leastB, fun least => leastB.unique least ▸ leastA⟩
      · exact fun same => ((same _).mp leastA).unique leastB
    · constructor
      · exact fun same => absurd (same.trans firstB) (validA.ne_of_set leastA.1)
      · exact fun same => absurd ((same _).mp leastA) (unsetB _)
  · rcases leastSet_getFirstSetVar indexedB validB with leastB | ⟨unsetB, firstB⟩
    · constructor
      · exact fun same => absurd (same.symm.trans firstA) (validB.ne_of_set leastB.1)
      · exact fun same => absurd ((same _).mpr leastB) (unsetA _)
    · exact iff_of_true (firstA.trans firstB.symm)
        fun r => iff_of_false (unsetA r) (unsetB r)

/-- The pairs whose difference is overlooked: the headers and the least set relations
agree, each relation set in the left cookie meets in the right one a list with the same
counted part, and still some relation has different lists. -/
structure Overlooked (a b : VCookie) : Prop where
  header : SameHeader a b
  first : ∀ r, LeastSet a.toRelVarTable r ↔ LeastSet b.toRelVarTable r
  meets : ∀ r, a.elements r ≠ [] →
    ∃ var, Meets b.toRelVarTable r var ∧ counted var = counted (a.elements r)
  differs : ∃ r, a.elements r ≠ b.elements r

/-- A cookie reached by calls that name valid relations. -/
def Mutated (c : VCookie) : Prop :=
  ∃ id newCookie ms, (∀ m ∈ ms, m.StoresIn (fun r => r ≠ invalidRid) fun _ => True) ∧
    c = run mutate (fresh id newCookie) ms

theorem Mutated.indexed {c : VCookie} (mutated : Mutated c) : c.toRelVarTable.Indexed := by
  rcases mutated with ⟨id, newCookie, ms, _, rfl⟩
  exact indexed_mutators id newCookie ms

theorem Mutated.valid {c : VCookie} (mutated : Mutated c) : ValidRelations c.toRelVarTable := by
  rcases mutated with ⟨id, newCookie, ms, stores, rfl⟩
  exact within_run trivial id newCookie stores

/-- What is accepted although it differs is overlooked. -/
theorem overlooked_iff {a b : VCookie} (mutatedA : Mutated a) (mutatedB : Mutated b) :
    Overlooked a b ↔ Accepted a b ∧ ¬ ObservablyEqual a b := by
  have first := getFirstSetVar_eq_iff mutatedA.indexed mutatedB.indexed mutatedA.valid
    mutatedB.valid
  constructor
  · intro overlooked
    constructor
    · refine ⟨overlooked.header, first.mpr overlooked.first, fun r _ isSet => ?_⟩
      rcases overlooked.meets r isSet with ⟨var, meets, same⟩
      rw [(meets_iff mutatedB.indexed).mp meets, same]
    · intro equal
      rcases overlooked.differs with ⟨r, differs⟩
      exact differs ((observablyEqual_iff.mp equal).2 r)
  · rintro ⟨accepted, different⟩
    refine ⟨accepted.header, first.mp accepted.first, fun r isSet => ?_, ?_⟩
    · have valid := mutatedA.valid.ne_of_set isSet
      exact ⟨b.answer r, (meets_iff mutatedB.indexed).mpr rfl, accepted.answered r valid isSet⟩
    · by_contra same
      exact different (observablyEqual_iff.mpr
        ⟨accepted.header, fun r => not_not.mp fun differs => same ⟨r, differs⟩⟩)

/-- `operator==` compares the content of these cookies, and so is symmetric and
transitive on them. -/
structure ComparesContent (cookies : VCookie → Prop) : Prop where
  decides : ∀ a b, cookies a → cookies b →
    ∃ result, operatorEq a b = some result ∧ (result = true ↔ ObservablyEqual a b)
  symmetric : ∀ a b, cookies a → cookies b →
    operatorEq a b = some true → operatorEq b a = some true
  transitive : ∀ a b c, cookies a → cookies b → cookies c →
    operatorEq a b = some true → operatorEq b c = some true → operatorEq a c = some true

/-- The laws of an equality follow from what it observes. -/
theorem comparesContent_of_decides {cookies : VCookie → Prop}
    (decides : ∀ a b, cookies a → cookies b →
      ∃ result, operatorEq a b = some result ∧ (result = true ↔ ObservablyEqual a b)) :
    ComparesContent cookies := by
  have holds_iff {a b : VCookie} (left : cookies a) (right : cookies b) :
      operatorEq a b = some true ↔ ObservablyEqual a b := by
    rcases decides a b left right with ⟨result, compared, observes⟩
    rw [compared, Option.some.injEq, observes]
  constructor
  · exact decides
  · intro a b left right
    rw [holds_iff left right, holds_iff right left]
    exact ObservablyEqual.symm
  · intro a b c left middle right
    rw [holds_iff left middle, holds_iff middle right, holds_iff left right]
    exact ObservablyEqual.trans

/-- `operator==` is observational equality on exactly the pairs that are not overlooked,
and it compares the content of a set of cookies exactly when none of its pairs is. -/
theorem operatorEq_observational_iff {cookies : VCookie → Prop}
    (mutated : ∀ c, cookies c → Mutated c) :
    (∀ a b, cookies a → cookies b → ∃ result, operatorEq a b = some result ∧
        ((result = true ↔ ObservablyEqual a b) ↔ ¬ Overlooked a b)) ∧
      (ComparesContent cookies ↔ ∀ a b, cookies a → cookies b → ¬ Overlooked a b) := by
  have pairs : ∀ a b, cookies a → cookies b → ∃ result, operatorEq a b = some result ∧
      ((result = true ↔ ObservablyEqual a b) ↔ ¬ Overlooked a b) := by
    intro a b left right
    have indexedA := (mutated a left).indexed
    have indexedB := (mutated b right).indexed
    rcases operatorEq_eq_some_iff indexedA indexedB with ⟨result, compared, accepts⟩
    refine ⟨result, compared, ?_⟩
    rw [overlooked_iff (mutated a left) (mutated b right), accepts]
    constructor
    · rintro observational ⟨accepted, different⟩
      exact different (observational.mp accepted)
    · intro seen
      constructor
      · exact fun accepted => not_not.mp fun different => seen ⟨accepted, different⟩
      · exact fun equal => equal.accepted indexedA indexedB
  constructor
  · exact pairs
  · constructor
    · intro compares a b left right
      rcases compares.decides a b left right with ⟨_, compared, observes⟩
      rcases pairs a b left right with ⟨_, compared', observes_iff⟩
      rw [compared, Option.some.injEq] at compared'
      exact observes_iff.mp (compared' ▸ observes)
    · intro seen
      apply comparesContent_of_decides
      intro a b left right
      rcases pairs a b left right with ⟨result, compared, observes_iff⟩
      exact ⟨result, compared, observes_iff.mpr (seen a b left right)⟩

/-- Two cookies that set relation 1 to different values. -/
theorem operatorEq_observational_setOne :
    let a := run mutate (fresh ⟨7, 0, 1⟩ true) [.setVar 1 [97] 5 0 .last 0]
    let b := run mutate (fresh ⟨7, 0, 1⟩ true) [.setVar 1 [98] 5 0 .last 0]
    let cookies := fun c => c = a ∨ c = b
    ComparesContent cookies ↔ ∀ a b, cookies a → cookies b → ¬ Overlooked a b := by
  intro a b cookies
  have valid (value : UInt8) : ∀ m ∈ [Mutator.setVar 1 [value] 5 0 .last 0],
      m.StoresIn (fun r => r ≠ invalidRid) fun _ => True := by
    simp [Mutator.StoresIn, invalidRid]
  have mutated : ∀ c, cookies c → Mutated c := by
    rintro c (rfl | rfl)
    · exact ⟨⟨7, 0, 1⟩, true, _, valid 97, rfl⟩
    · exact ⟨⟨7, 0, 1⟩, true, _, valid 98, rfl⟩
  exact (operatorEq_observational_iff mutated).2

/-- A cookie with relation 1 equals one with relations 1 and 2, but not the
other way round. -/
theorem operatorEq_prefix :
    let a := run mutate (fresh ⟨7, 0, 1⟩ true) [.setVar 1 [97] 5 0 .last 0]
    let b := run mutate (fresh ⟨7, 0, 1⟩ true)
      [.setVar 1 [97] 5 0 .last 0, .setVar 2 [98] 5 0 .last 0]
    operatorEq a b = some true ∧ operatorEq b a = some false ∧ ¬ ObservablyEqual a b := by
  intro a b
  constructor
  · decide
  constructor
  · decide
  · intro equal
    have set : b.elements 2 ≠ [] := by decide
    exact (equal.relations 2).mpr set (by decide)

end VCookie

end Elevator
