import Elevator.Codec.Trace

/-!
# Reachable cookies and the variable map

A cookie is reached from its constructor by mutators, `Reset` and `Deserialize`
of arbitrary buffers.  Every reachable table is well indexed.  On top of the
index the table should be a finite map from relations to element lists; a lookup
or a clear of a relation answers for the entry `FindRelationId` designates, which
is the relation's own exactly when that entry is its own or empty, and a count is
cast to 32 bits.
-/

namespace Elevator

open Wire Transition RelVarTable

/-- Everything that writes to a cookie. -/
inductive CookieOp
  | mutate (m : Mutator)
  | reset (id : VCookieId)
  | deserialize (junk : UInt8) (buffer : Bytes)
  deriving DecidableEq, Repr

namespace VCookie

def applyOp (c : VCookie) : CookieOp → VCookie
  | .mutate m => c.mutate m
  | .reset id => c.reset id
  | .deserialize junk buffer => (VCookieStore.deserialize junk c buffer).1

theorem indexed_applyOp {c : VCookie} (indexed : c.toRelVarTable.Indexed) (op : CookieOp) :
    (applyOp c op).toRelVarTable.Indexed := by
  cases op with
  | mutate m => exact indexed_mutate indexed m
  | reset id => exact indexed_reset c id
  | deserialize junk buffer =>
      rw [applyOp, VCookieStore.deserialize_eq_replay indexed]
      exact VCookieStore.indexed_replay indexed _

theorem indexed_run (id : VCookieId) (newCookie : Bool) (ops : List CookieOp) :
    (run applyOp (fresh id newCookie) ops).toRelVarTable.Indexed :=
  @run_invariant _ _ applyOp (fun c => c.toRelVarTable.Indexed)
    (fun _ op kept => indexed_applyOp kept op) _ (indexed_fresh id newCookie) ops

theorem run_mutators (c : VCookie) (ms : List Mutator) :
    run applyOp c (ms.map .mutate) = run mutate c ms :=
  List.foldl_map

theorem purchaseIdsKept_applyOp {c : VCookie} (indexed : c.toRelVarTable.Indexed)
    (kept : PurchaseIdsKept c.purchaseIds) (op : CookieOp) :
    PurchaseIdsKept (applyOp c op).purchaseIds := by
  cases op with
  | mutate m =>
      have ids : (c.mutate m).purchaseIds = (c.profile.mutate m).purchaseIds :=
        congrArg Profile.purchaseIds (profile_mutate c m)
      rw [applyOp, ids]
      exact Profile.purchaseIdsKept_mutate kept m
  | reset id => exact ⟨Nat.zero_le _, List.nodup_nil⟩
  | deserialize junk buffer =>
      rw [applyOp, VCookieStore.deserialize_eq_replay indexed]
      exact VCookieStore.purchaseIdsKept_replay kept _

/-- What every reachable cookie keeps: the index and the purchase ids. -/
structure Kept (c : VCookie) : Prop where
  indexed : c.toRelVarTable.Indexed
  purchaseIds : PurchaseIdsKept c.purchaseIds

theorem kept_applyOp {c : VCookie} (kept : Kept c) (op : CookieOp) : Kept (applyOp c op) where
  indexed := indexed_applyOp kept.indexed op
  purchaseIds := purchaseIdsKept_applyOp kept.indexed kept.purchaseIds op

theorem kept_fresh (id : VCookieId) (newCookie : Bool) : Kept (fresh id newCookie) where
  indexed := indexed_fresh id newCookie
  purchaseIds := ⟨Nat.zero_le _, List.nodup_nil⟩

/-- The two vectors of every reachable cookie, hostile buffers included. -/
theorem index_representation (id : VCookieId) (newCookie : Bool) (ops : List CookieOp) :
    let c := run applyOp (fresh id newCookie) ops
    c.relVarSort.length = c.relVar.length ∧
      c.relVarSort.Perm (List.range c.relVar.length) ∧
      (c.relVarSort.map fun vid => (c.relVarAt vid).relationId).Pairwise (· < ·) ∧
      (c.relVar.map RelVarImpl.relationId).Nodup ∧
      (∀ vid ∈ c.relVarSort, vid < c.relVar.length) ∧
      c.relVar.length ≤ 65536 := by
  intro c
  have indexed : c.toRelVarTable.Indexed := indexed_run id newCookie ops
  refine ⟨indexed.length_eq, indexed.perm, ?_, indexed.nodup_relationId,
    fun _ member => indexed.lt_of_mem member, indexed.length_le⟩
  have ascending := List.pairwise_map.mp indexed.ascending
  exact List.pairwise_map.mpr (ascending.imp fun less => UInt16.lt_iff_toNat_lt.mpr less)

/-- Two cookies hold the same, whatever their flags: the identity, the scalars, the
purchase ids and the elements of every relation. -/
structure SameContent (a b : VCookie) : Prop where
  id : a.id = b.id
  profile : a.profile = b.profile
  elements : ∀ r, a.elements r = b.elements r

theorem SameContent.refl (c : VCookie) : SameContent c c :=
  ⟨rfl, rfl, fun _ => rfl⟩

/-! ## Relations as keys of a map -/

/-- Relation `r` behaves as a key of a finite map: lookups return its own list,
clearing empties it, and nothing done to it touches another relation. -/
structure KeySemantics (c : VCookie) (r : RelationId) : Prop where
  count : (c.getVarElementCount r).1 = (c.elements r).length
  element : ∀ index, c.getVar r index = (c.elements r)[index]?
  cleared : ∀ r', (c.clearVar r).elements r' = if r' = r then [] else c.elements r'
  setEmpty : ∀ timestamp revision maxLinear r',
    (c.setVar r [] timestamp revision .last maxLinear).1.elements r' =
      if r' = r then [] else c.elements r'
  setFrame : ∀ val timestamp revision allocType maxLinear r', r' ≠ r →
    (c.setVar r val timestamp revision allocType maxLinear).1.elements r' = c.elements r'

/-- The entry of the least relation id at or above `r`, if there is one, is the
entry of `r` or has no elements. -/
def OwnOrEmpty (table : RelVarTable) (r : RelationId) : Prop :=
  ∀ rv ∈ table.relVar, r ≤ rv.relationId →
    (∀ rv' ∈ table.relVar, r ≤ rv'.relationId → rv.relationId ≤ rv'.relationId) →
    rv.relationId = r ∨ rv.var = []

theorem ownOrEmpty_iff {table : RelVarTable} (indexed : table.Indexed) {r : RelationId} :
    OwnOrEmpty table r ↔
      ∀ rv, table.designated r = some rv → rv.relationId = r ∨ rv.var = [] := by
  constructor
  · intro own rv found
    rcases indexed.designated_eq_some_iff.mp found with ⟨member, above, least⟩
    exact own rv member above least
  · intro own rv member above least
    exact own rv (indexed.designated_eq_some_iff.mpr ⟨member, above, least⟩)

/-- What `r` designates then has the elements of `r`. -/
theorem answer_eq_elements {table : RelVarTable} (indexed : table.Indexed) {r : RelationId}
    (own : OwnOrEmpty table r) : table.answer r = table.elements r := by
  rw [ownOrEmpty_iff indexed] at own
  by_cases present : ∃ rv ∈ table.relVar, rv.relationId = r
  · rcases present with ⟨rv, member, rfl⟩
    rw [indexed.answer_of_mem member, indexed.elements_of_mem member]
  · have absent : ∀ rv ∈ table.relVar, rv.relationId ≠ r :=
      fun rv member same => present ⟨rv, member, same⟩
    rw [elements_of_absent absent, answer]
    cases found : table.designated r with
    | none => rfl
    | some rv =>
        rcases own rv found with same | empty
        · exact absurd same (absent rv (indexed.designated_eq_some_iff.mp found).1)
        · exact empty

/-- Clearing `r` then empties `r` and nothing else. -/
theorem elements_clearVar_own {c : VCookie} (indexed : c.toRelVarTable.Indexed) {r : RelationId}
    (own : OwnOrEmpty c.toRelVarTable r) (r' : RelationId) :
    (c.clearVar r).elements r' = if r' = r then [] else c.elements r' := by
  have list := answer_eq_elements indexed own
  rw [ownOrEmpty_iff indexed] at own
  rw [elements_clearVar indexed]
  cases found : c.designated r with
  | none =>
      have list : [] = c.elements r := by simpa [answer, found] using list
      by_cases same : r' = r <;> simp [same, ← list]
  | some rv =>
      have list : rv.var = c.elements r := by simpa [answer, found] using list
      rcases own rv found with same | empty
      · simp only [Option.map_some, same, Option.some.injEq, eq_comm]
      · have member := (indexed.designated_eq_some_iff.mp found).1
        have emptied : c.elements rv.relationId = [] := by
          rw [indexed.elements_of_mem member, empty]
        rw [empty] at list
        by_cases same : r' = r
        · by_cases designated : rv.relationId = r' <;> simp [same, ← list]
        · by_cases designated : rv.relationId = r'
          · simp [← designated, emptied]
          · simp [same, designated]

/-- `SetVar` never touches another relation, unless it clears. -/
theorem elements_setVar_of_ne {c : VCookie} (indexed : c.toRelVarTable.Indexed) {r : RelationId}
    (own : OwnOrEmpty c.toRelVarTable r) (val : Bytes) (timestamp : TimeT) (revision : UInt8)
    (allocType : AllocationType) (maxLinear : UInt32) {r' : RelationId} (other : r' ≠ r) :
    (c.setVar r val timestamp revision allocType maxLinear).1.elements r' = c.elements r' := by
  by_cases empty : val = []
  · rw [empty, setVar_nil]
    by_cases last : allocType = .last
    · rw [if_pos last, elements_clearVar_own indexed own, if_neg other]
    · rw [if_neg last]
  · rw [elements_setVar indexed r empty, if_neg other]

/-- The table answers for relation `r` as a map does exactly when the least
entry at or above `r` is its own or empty and its list has fewer than 2^32
elements. -/
theorem keySemantics_iff (id : VCookieId) (newCookie : Bool) (ops : List CookieOp)
    (r : RelationId) :
    let c := run applyOp (fresh id newCookie) ops
    KeySemantics c r ↔ OwnOrEmpty c.toRelVarTable r ∧ (c.elements r).length < 2 ^ 32 := by
  intro c
  have indexed : c.toRelVarTable.Indexed := indexed_run id newCookie ops
  constructor
  · intro semantics
    have list : c.answer r = c.elements r := by
      apply List.ext_getElem?
      intro index
      rw [← indexed.getVar_eq, semantics.element]
    constructor
    · rw [ownOrEmpty_iff indexed]
      intro rv found
      by_cases same : rv.relationId = r
      · exact Or.inl same
      · right
        have foreign : c.elements r = [] := by
          by_contra nonempty
          rcases exists_of_elements_ne_nil nonempty with ⟨rv', member, rfl⟩
          rw [indexed.designated_of_mem member] at found
          exact same (congrArg RelVarImpl.relationId (Option.some.inj found)).symm
        rw [foreign, answer, found] at list
        exact list
    · have count := semantics.count
      rw [indexed.getVarElementCount_eq, list] at count
      exact count ▸ unsignedSize_lt _
  · rintro ⟨own, small⟩
    have list := answer_eq_elements indexed own
    constructor
    · rw [indexed.getVarElementCount_eq, list, unsignedSize_of_lt small]
    · intro index
      rw [indexed.getVar_eq, list]
    · exact elements_clearVar_own indexed own
    · intro timestamp revision maxLinear r'
      rw [setVar_nil, if_pos rfl]
      exact elements_clearVar_own indexed own r'
    · intro val timestamp revision allocType maxLinear r' other
      exact elements_setVar_of_ne indexed own val timestamp revision allocType maxLinear other

/-- With relation 5 set, the count of relation 3, never set, is that of 5. -/
theorem not_keySemantics_below :
    let c := run applyOp (fresh ⟨1, 2, 3⟩ true) [.mutate (.setVar 5 [97] 10 1 .last 0)]
    (∀ rv ∈ c.relVar, rv.relationId ≠ 3) ∧ c.elements 3 = [] ∧
      (c.getVarElementCount 3).1 = 1 ∧ ¬ KeySemantics c 3 := by
  intro c
  have count : (c.getVarElementCount 3).1 = 1 := by decide
  have absent : c.elements 3 = [] := by decide
  constructor
  · decide
  constructor
  · exact absent
  constructor
  · exact count
  · intro semantics
    have equal := semantics.count
    rw [count, absent] at equal
    contradiction

end VCookie

end Elevator
