import Elevator.Codec.Deserialize
import Elevator.Codec.Encoding
import Elevator.Ordered.SearchTree

/-!
# The in-memory store

`VCStoreInMemory` keeps its records in a search tree driven by
`VCookieId::operator<`, which holds as soon as any one of the three components
is smaller.  Its strict part is the componentwise order, so the tree is a map, however
it is balanced, as long as no id is saved that is incomparable with a live one.  In a
tree that is left as it is, a save that breaks this loses its own record.
-/

namespace Elevator

open Wire Transition Ordered VCookieStore

namespace VCookieId

/-- `operator<`. -/
def lt (a b : VCookieId) : Bool :=
  a.userid < b.userid || a.visidHigh < b.visidHigh || a.visidLow < b.visidLow

/-- Every component of `a` is at most that of `b`. -/
def AtMost (a b : VCookieId) : Prop :=
  a.userid ≤ b.userid ∧ a.visidHigh ≤ b.visidHigh ∧ a.visidLow ≤ b.visidLow

theorem lt_eq_false_iff {a b : VCookieId} : lt a b = false ↔ b.AtMost a := by
  simp [lt, AtMost, and_assoc]

theorem lt_eq_true_iff {a b : VCookieId} : lt a b = true ↔ ¬ b.AtMost a := by
  rw [← lt_eq_false_iff, Bool.not_eq_false]

theorem AtMost.refl (a : VCookieId) : a.AtMost a :=
  ⟨UInt32.le_refl _, UInt64.le_refl _, UInt64.le_refl _⟩

theorem AtMost.trans {a b c : VCookieId} (ab : a.AtMost b) (bc : b.AtMost c) : a.AtMost c :=
  ⟨UInt32.le_trans ab.1 bc.1, UInt64.le_trans ab.2.1 bc.2.1, UInt64.le_trans ab.2.2 bc.2.2⟩

theorem AtMost.antisymm {a b : VCookieId} (ab : a.AtMost b) (ba : b.AtMost a) : a = b := by
  cases a
  cases b
  congr
  · exact UInt32.le_antisymm ab.1 ba.1
  · exact UInt64.le_antisymm ab.2.1 ba.2.1
  · exact UInt64.le_antisymm ab.2.2 ba.2.2

theorem below_iff {a b : VCookieId} : Below lt a b ↔ a.AtMost b ∧ ¬ b.AtMost a := by
  rw [Below, lt_eq_false_iff, lt_eq_true_iff, and_comm]

theorem comparable_iff {a b : VCookieId} : Comparable lt a b ↔ a.AtMost b ∨ b.AtMost a := by
  rw [Comparable, lt_eq_true_iff, lt_eq_true_iff, not_and_or, not_not, not_not, or_comm]

theorem comparison_lt : Comparison lt where
  irrefl a := lt_eq_false_iff.mpr (AtMost.refl a)
  eq_of_not_lt ab ba := (lt_eq_false_iff.mp ba).antisymm (lt_eq_false_iff.mp ab)
  below_trans ab bc := by
    rw [lt_eq_true_iff] at bc ⊢
    exact fun ca => bc (ca.trans (below_iff.mp ab).1)
  trans_below ab bc := by
    rw [lt_eq_true_iff] at ab ⊢
    exact fun ca => ab ((below_iff.mp bc).1.trans ca)

/-! ### The other operators -/

/-- `operator>=`. -/
def ge (a b : VCookieId) : Bool :=
  !lt a b

/-- `operator<=`. -/
def le (a b : VCookieId) : Bool :=
  a.userid ≤ b.userid || a.visidHigh ≤ b.visidHigh || a.visidLow ≤ b.visidLow

/-- `operator>`. -/
def gt (a b : VCookieId) : Bool :=
  !le a b

/-- The laws of a total order at three ids, with the four operators in agreement. -/
structure OrderLaws (a b c : VCookieId) : Prop where
  irrefl : lt a a = false
  asymm : lt a b = true → lt b a = false
  trans : lt a b = true → lt b c = true → lt a c = true
  trichotomy : (lt a b = true ∧ lt b a = false ∧ a ≠ b) ∨
    (lt a b = false ∧ lt b a = true ∧ a ≠ b) ∨ (lt a b = false ∧ lt b a = false ∧ a = b)
  le_iff : le a b = true ↔ lt a b = true ∨ a = b
  gt_iff : gt a b = true ↔ lt b a = true
  ge_iff : ge a b = true ↔ ¬ lt a b = true

/-- Every component of `a` is below that of `b`. -/
def Under (a b : VCookieId) : Prop :=
  a.userid < b.userid ∧ a.visidHigh < b.visidHigh ∧ a.visidLow < b.visidLow

theorem le_eq_false_iff {a b : VCookieId} : le a b = false ↔ b.Under a := by
  simp [le, Under, and_assoc]

theorem Under.atMost {a b : VCookieId} (under : a.Under b) : a.AtMost b :=
  ⟨UInt32.le_of_lt under.1, UInt64.le_of_lt under.2.1, UInt64.le_of_lt under.2.2⟩

theorem Under.not_atMost {a b : VCookieId} (under : a.Under b) : ¬ b.AtMost a :=
  fun above => UInt32.not_le.mpr under.1 above.1

theorem AtMost.lt_iff_ne {a b : VCookieId} (atMost : a.AtMost b) : lt a b = true ↔ a ≠ b := by
  rw [lt_eq_true_iff]
  constructor
  · rintro notAtMost rfl
    exact notAtMost atMost
  · exact fun different above => different (atMost.antisymm above)

theorem AtMost.orderLaws {a b : VCookieId} (atMost : a.AtMost b) (c : VCookieId) :
    OrderLaws a b c := by
  have notAbove : lt b a = false := lt_eq_false_iff.mpr atMost
  have le : le a b = true := by
    rw [← Bool.not_eq_false, le_eq_false_iff]
    exact fun under => under.not_atMost atMost
  constructor
  · exact comparison_lt.irrefl a
  · exact fun _ => notAbove
  · intro _ below
    rw [lt_eq_true_iff] at below ⊢
    exact fun above => below (above.trans atMost)
  · by_cases same : a = b
    · right
      right
      exact ⟨by simpa [same] using comparison_lt.irrefl b, notAbove, same⟩
    · exact Or.inl ⟨atMost.lt_iff_ne.mpr same, notAbove, same⟩
  · rw [atMost.lt_iff_ne]
    exact iff_of_true le (ne_or_eq a b)
  · simp [gt, le, notAbove]
  · simp [ge]

theorem Under.orderLaws {a b : VCookieId} (under : b.Under a) (c : VCookieId) :
    OrderLaws a b c := by
  have notBelow : lt a b = false := lt_eq_false_iff.mpr under.atMost
  have above : lt b a = true := lt_eq_true_iff.mpr under.not_atMost
  have notLe : le a b = false := le_eq_false_iff.mpr under
  have different : a ≠ b := by
    rintro rfl
    exact under.not_atMost (AtMost.refl a)
  constructor
  · exact comparison_lt.irrefl a
  · simp [notBelow]
  · simp [notBelow]
  · exact Or.inr (Or.inl ⟨notBelow, above, different⟩)
  · simp [notBelow, notLe, different]
  · simp [gt, notLe, above]
  · simp [ge]

/-- The laws leave no other pair of ids. -/
theorem OrderLaws.ordered {a b c : VCookieId} (laws : OrderLaws a b c) :
    a.AtMost b ∨ b.Under a := by
  by_cases atMost : a.AtMost b
  · exact Or.inl atMost
  · right
    have above : lt b a = true := lt_eq_true_iff.mpr atMost
    have notBelow : ¬ lt a b = true := by
      intro below
      rw [laws.asymm below] at above
      contradiction
    have different : a ≠ b := fun same => atMost (same ▸ AtMost.refl a)
    rw [← le_eq_false_iff, ← Bool.not_eq_true, laws.le_iff]
    exact not_or.mpr ⟨notBelow, different⟩

/-- The laws hold at ids of which the first is at most the second in every component, or
above it in every component. -/
theorem orderLaws_iff (a b c : VCookieId) : OrderLaws a b c ↔ a.AtMost b ∨ b.Under a := by
  constructor
  · exact OrderLaws.ordered
  · rintro (atMost | under)
    · exact atMost.orderLaws c
    · exact under.orderLaws c

/-- Two ids that are below each other. -/
theorem lt_not_asymm :
    lt ⟨1, 2, 1⟩ ⟨1, 1, 2⟩ = true ∧ lt ⟨1, 1, 2⟩ ⟨1, 2, 1⟩ = true ∧
      ¬ ∀ a b c, OrderLaws a b c := by
  have first : lt ⟨1, 2, 1⟩ ⟨1, 1, 2⟩ = true := by decide
  have second : lt ⟨1, 1, 2⟩ ⟨1, 2, 1⟩ = true := by decide
  constructor
  · exact first
  constructor
  · exact second
  · intro laws
    have asymm := (laws ⟨1, 2, 1⟩ ⟨1, 1, 2⟩ ⟨1, 1, 2⟩).asymm first
    rw [second] at asymm
    contradiction

end VCookieId

namespace VCStoreInMemory

/-- The last-hit time and the blob of a record. -/
abbrev ValuePair : Type :=
  TimeT × Bytes

abbrev StoreMap : Type :=
  SearchTree VCookieId ValuePair

def saveVCookie (store : StoreMap) (vcookie : IndexedCookie) : StoreMap × Bool :=
  let vid := vcookie.1.id
  let t := vcookie.1.getLastHitTimeGMT
  let r := store.insert VCookieId.lt vid (t, [])
  (r.1.assign r.2 (t, serialized vcookie false), true)

def loadVCookie (store : StoreMap) (junk : UInt8) (vcookie : VCookie) : VCookie × Bool :=
  loadRecord junk (store.lookup VCookieId.lt vcookie.id) vcookie

def deleteVCookie (store : StoreMap) (vcookie : VCookie) : StoreMap × Bool :=
  let s := store.erase VCookieId.lt vcookie.id
  (s.1, s.2 > 0)

/-- The walk from an iterator to the end. -/
def deleteOldLoop (t : TimeT) (store : StoreMap) (v deleted : Nat) : StoreMap × Nat :=
  match _here : store.inorder[v]? with
  | none => (store, deleted)
  | some entry =>
      if entry.2.1 < t then
        deleteOldLoop t (store.eraseAt v) v (deleted + 1)
      else
        deleteOldLoop t store (v + 1) deleted
termination_by store.size - v
decreasing_by
  · have bound : v < store.size := by simpa using (List.getElem?_eq_some_iff.mp _here).1
    rw [store.size_eraseAt bound]
    omega
  · have bound : v < store.size := by simpa using (List.getElem?_eq_some_iff.mp _here).1
    omega

def deleteOldVCookies (store : StoreMap) (t : TimeT) : StoreMap × Nat :=
  deleteOldLoop t store 0 0

def getVCookieCount (store : StoreMap) : Nat :=
  store.size

/-! ## The walk -/

/-- The walk keeps what is before its iterator and the young records behind it. -/
theorem deleteOldLoop_spec (t : TimeT) (store : StoreMap) (v deleted : Nat) :
    (deleteOldLoop t store v deleted).1.inorder =
        store.inorder.take v ++
          (store.inorder.drop v).filter (fun entry => !decide (entry.2.1 < t)) ∧
      (deleteOldLoop t store v deleted).2 + (deleteOldLoop t store v deleted).1.size =
        deleted + store.size := by
  fun_induction deleteOldLoop t store v deleted with
  | case1 store v deleted here =>
      have outside : store.inorder.length ≤ v := List.getElem?_eq_none_iff.mp here
      rw [List.take_of_length_le outside, List.drop_eq_nil_of_le outside]
      simp
  | case2 store v deleted entry here old ih =>
      rcases List.getElem?_eq_some_iff.mp here with ⟨inside, found⟩
      have bound : v < store.size := by simpa using inside
      have drop : store.inorder.drop v = entry :: store.inorder.drop (v + 1) := by
        rw [List.drop_eq_getElem_cons inside, found]
      have drop' : (store.inorder.eraseIdx v).drop v = store.inorder.drop (v + 1) := by
        rw [List.eraseIdx_eq_take_drop_succ, List.drop_left' (by simpa using inside.le)]
      have take' : (store.inorder.eraseIdx v).take v = store.inorder.take v := by
        rw [List.eraseIdx_eq_take_drop_succ, List.take_left' (by simpa using inside.le)]
      rw [ih.1, ih.2, store.size_eraseAt bound, SearchTree.inorder_eraseAt, drop, drop', take']
      refine ⟨by simp [old], by omega⟩
  | case3 store v deleted entry here young ih =>
      rcases List.getElem?_eq_some_iff.mp here with ⟨inside, found⟩
      have drop : store.inorder.drop v = entry :: store.inorder.drop (v + 1) := by
        rw [List.drop_eq_getElem_cons inside, found]
      rw [ih.1, ih.2, drop, List.take_succ_eq_append_getElem inside, found]
      exact ⟨by simp [young], rfl⟩

/-! ## Histories -/

/-- The calls that write. -/
inductive StoreOp
  | save (vcookie : IndexedCookie)
  | delete (vcookie : VCookie)
  | deleteOld (t : TimeT)

/-- The store beside the map that its history of calls describes. -/
structure Recorded where
  store : StoreMap
  live : VCookieId → Option ValuePair

def Recorded.empty : Recorded where
  store := .nil
  live := fun _ => none

/-- The record that saving a cookie leaves. -/
def record (vcookie : IndexedCookie) : ValuePair :=
  (vcookie.1.getLastHitTimeGMT, serialized vcookie false)

def Recorded.step (s : Recorded) : StoreOp → Recorded
  | .save vcookie =>
      { store := (saveVCookie s.store vcookie).1
        live := Function.update s.live vcookie.1.id (some (record vcookie)) }
  | .delete vcookie =>
      { store := (deleteVCookie s.store vcookie).1
        live := Function.update s.live vcookie.id none }
  | .deleteOld t =>
      { store := (deleteOldVCookies s.store t).1
        live := fun id => (s.live id).filter fun value => !decide (value.1 < t) }

/-- The call is a save that leaves this record of the id. -/
def StoreOp.Saves (id : VCookieId) (value : ValuePair) : StoreOp → Prop
  | .save vcookie => vcookie.1.id = id ∧ record vcookie = value
  | _ => False

/-- The call replaces, deletes or purges this record of the id. -/
def StoreOp.Ends (id : VCookieId) (value : ValuePair) : StoreOp → Prop
  | .save vcookie => vcookie.1.id = id
  | .delete vcookie => vcookie.id = id
  | .deleteOld t => value.1 < t

/-- A record is live from the save that leaves it to the call that ends it. -/
theorem live_run_eq_some_iff (ops : List StoreOp) (id : VCookieId) (value : ValuePair) :
    (run Recorded.step .empty ops).live id = some value ↔
      Standing (StoreOp.Saves id value) (StoreOp.Ends id value) ops := by
  induction ops using List.reverseRecOn with
  | nil =>
      constructor
      · intro live
        simp [Recorded.empty] at live
      · intro standing
        exact absurd standing not_standing_nil
  | append_singleton ops op ih =>
      rw [run_concat, standing_concat_iff, ← ih]
      cases op with
      | save vcookie =>
          by_cases same : vcookie.1.id = id
          · subst same
            simp [Recorded.step, StoreOp.Saves, StoreOp.Ends]
          · have other : id ≠ vcookie.1.id := fun equal => same equal.symm
            simp [Recorded.step, StoreOp.Saves, StoreOp.Ends, same, Function.update_of_ne other]
      | delete vcookie =>
          by_cases same : vcookie.id = id
          · subst same
            simp [Recorded.step, StoreOp.Saves, StoreOp.Ends]
          · have other : id ≠ vcookie.id := fun equal => same equal.symm
            simp [Recorded.step, StoreOp.Saves, StoreOp.Ends, same, Function.update_of_ne other]
      | deleteOld t =>
          simp [Recorded.step, StoreOp.Saves, StoreOp.Ends, Option.filter_eq_some_iff]

/-! ## The exact condition -/

/-- Every call answers as the map of live records does. -/
structure MapLike (s : Recorded) : Prop where
  lookup : ∀ id, s.store.lookup VCookieId.lt id = s.live id
  load : ∀ junk vcookie,
    loadVCookie s.store junk vcookie = loadRecord junk (s.live vcookie.id) vcookie
  delete : ∀ vcookie, (deleteVCookie s.store vcookie).2 = (s.live vcookie.id).isSome
  deleteOld : ∀ t, (deleteOldVCookies s.store t).2 =
    {id | ((s.live id).filter fun value => decide (value.1 < t)).isSome}.ncard
  count : getVCookieCount s.store = {id | (s.live id).isSome}.ncard

/-- The tree represents the map of live records. -/
def Recorded.Faithful (s : Recorded) : Prop :=
  Represents VCookieId.lt s.store s.live

/-- The call saves no id that is incomparable with a live one. -/
def Recorded.Admits (s : Recorded) : StoreOp → Prop
  | .save vcookie =>
      ∀ id, (s.live id).isSome → vcookie.1.id.AtMost id ∨ id.AtMost vcookie.1.id
  | _ => True

theorem represents_deleteOld {store : StoreMap} {live : VCookieId → Option ValuePair}
    (represents : Represents VCookieId.lt store live) (t : TimeT) :
    Represents VCookieId.lt (deleteOldVCookies store t).1
        (fun id => (live id).filter fun value => !decide (value.1 < t)) ∧
      (deleteOldVCookies store t).2 =
        {id | ((live id).filter fun value => decide (value.1 < t)).isSome}.ncard := by
  have walk := deleteOldLoop_spec t store 0 0
  have kept : (deleteOldVCookies store t).1.inorder =
      store.inorder.filter fun entry => !decide (entry.2.1 < t) := by
    rw [deleteOldVCookies, walk.1]
    simp
  obtain ⟨filtered, removed⟩ := represents.filter VCookieId.comparison_lt
    (fun value => !decide (value.1 < t)) kept
  constructor
  · exact filtered
  · have total : (deleteOldVCookies store t).2 + (deleteOldVCookies store t).1.size =
        0 + store.size := walk.2
    simp only [Bool.not_not] at removed
    omega

theorem Recorded.Faithful.mapLike {s : Recorded} (faithful : s.Faithful) : MapLike s where
  lookup := faithful.lookup_eq VCookieId.comparison_lt
  load junk vcookie := by
    rw [loadVCookie, faithful.lookup_eq VCookieId.comparison_lt]
  delete vcookie := by
    rw [deleteVCookie]
    dsimp only
    rw [(faithful.erase VCookieId.comparison_lt vcookie.id).2]
    cases s.live vcookie.id <;> simp
  deleteOld t := (represents_deleteOld faithful t).2
  count := faithful.size_eq VCookieId.comparison_lt

/-- Calls that the guard admits keep the tree faithful. -/
theorem Recorded.Faithful.step {s : Recorded} (faithful : s.Faithful) {op : StoreOp}
    (admitted : s.Admits op) : (s.step op).Faithful := by
  cases op with
  | save vcookie =>
      exact faithful.assign_insert VCookieId.comparison_lt
        (fun id live => VCookieId.comparable_iff.mpr (admitted id live)) _ _
  | delete vcookie => exact (faithful.erase VCookieId.comparison_lt vcookie.id).1
  | deleteOld t => exact (represents_deleteOld faithful t).1

/-- A save that the guard refuses loses its record. -/
theorem Recorded.Faithful.lookup_eq_none {s : Recorded} (faithful : s.Faithful)
    {vcookie : IndexedCookie} (refused : ¬ s.Admits (.save vcookie)) :
    (saveVCookie s.store vcookie).1.lookup VCookieId.lt vcookie.1.id = none := by
  simp only [Admits, not_forall] at refused
  rcases refused with ⟨id, live, incomparable⟩
  rw [← VCookieId.comparable_iff] at incomparable
  rcases Option.isSome_iff_exists.mp live with ⟨value, held⟩
  have absent : ∀ w, (vcookie.1.id, w) ∉ s.store.inorder := by
    intro w member
    have saved := Option.isSome_iff_exists.mpr ⟨w, (faithful.mem_iff _ _).mp member⟩
    exact incomparable (faithful.comparable VCookieId.comparison_lt saved live)
  exact SearchTree.lookup_assign_insert_eq_none VCookieId.comparison_lt faithful.chain absent
    ((faithful.mem_iff id value).mpr held) incomparable _ _

/-- A call, and what the map does to balance its tree behind it. -/
abbrev BalancedOp : Type :=
  StoreOp × Rebalancing VCookieId ValuePair

def Recorded.turn (s : Recorded) (op : BalancedOp) : Recorded :=
  let called := s.step op.1
  { called with store := op.2.shape called.store }

/-- Balancing changes nothing in what the guard admits. -/
theorem everyStep_turn {s s' : Recorded} (same : s.live = s'.live) {ops : List BalancedOp}
    (admitted : EveryStep Recorded.step Recorded.Admits s' (ops.map Prod.fst)) :
    EveryStep Recorded.turn (fun s op => s.Admits op.1) s ops := by
  induction ops generalizing s s' with
  | nil => exact everyStep_nil
  | cons op ops ih =>
      rcases everyStep_cons_iff.mp admitted with ⟨first, rest⟩
      have next : (s.turn op).live = (s'.step op.1).live := by
        change (s.step op.1).live = _
        cases op.1 <;> simp only [Recorded.step, same]
      rw [everyStep_cons_iff]
      constructor
      · cases call : op.1 with
        | save vcookie =>
            rw [call] at first
            exact fun id live => first id (same ▸ live)
        | delete vcookie => trivial
        | deleteOld t => trivial
      · exact ih next rest

/-- However the map balances its tree, the store is a map along a run, exactly when no
save brings an id that is incomparable with a live one. -/
theorem mapLike_iff_comparable (ops : List StoreOp) :
    (∀ balanced : List BalancedOp, balanced.map Prod.fst = ops →
        Always Recorded.turn MapLike .empty balanced) ↔
      EveryStep Recorded.step Recorded.Admits .empty ops := by
  constructor
  · intro always
    have unbalanced := always (ops.map fun op => (op, .idle)) (by simp [Function.comp_def])
    rw [← always_comp_iff] at unbalanced
    refine (@always_iff_everyStep _ _ Recorded.step MapLike Recorded.Faithful Recorded.Admits
      (fun s faithful => faithful.mapLike) (fun s op faithful admitted => faithful.step admitted)
      (fun s op faithful refused mapLike => ?_) .empty (represents_nil _) ops).mp unbalanced
    cases op with
    | save vcookie =>
        have lost := mapLike.lookup vcookie.1.id
        simp [Recorded.step, faithful.lookup_eq_none refused] at lost
    | delete vcookie => exact refused trivial
    | deleteOld t => exact refused trivial
  · rintro admitted balanced rfl
    exact @always_of_everyStep _ _ Recorded.turn MapLike Recorded.Faithful _
      (fun s faithful => faithful.mapLike)
      (fun s op faithful admitted => (faithful.step admitted).shape op.2) .empty
      (represents_nil _) balanced (everyStep_turn rfl admitted)

/-- Of two visitors of one user the one saved second is not found. -/
theorem saved_not_found :
    let first : IndexedCookie := ⟨VCookie.fresh ⟨1, 1, 2⟩ true, VCookie.indexed_fresh _ _⟩
    let second : IndexedCookie := ⟨VCookie.fresh ⟨1, 2, 1⟩ true, VCookie.indexed_fresh _ _⟩
    let s := run Recorded.step .empty [.save first, .save second]
    s.live ⟨1, 2, 1⟩ = some (record second) ∧
      (loadVCookie s.store 0 (VCookie.fresh ⟨1, 2, 1⟩ false)).2 = false ∧ ¬ MapLike s := by
  intro first second s
  have live : s.live ⟨1, 2, 1⟩ = some (record second) := rfl
  have lost : s.store.lookup VCookieId.lt ⟨1, 2, 1⟩ = none := by decide +kernel
  refine ⟨live, ?_, fun mapLike => ?_⟩
  · exact congrArg (fun found => (loadRecord 0 found (VCookie.fresh ⟨1, 2, 1⟩ false)).2) lost
  · have same := mapLike.lookup ⟨1, 2, 1⟩
    rw [live, lost] at same
    contradiction

end VCStoreInMemory

end Elevator
