import Elevator.Store.Couchbase
import Elevator.Store.InMemory
import Elevator.Store.Site

/-!
# The storage engines

The in-memory engine keeps a cookie for each visitor, as long as the visitors saved
are comparable, and Couchbase one for each user.  So along every run of cookies over
either engine a visitor finds what was saved last, in one case by himself and in the
other by any visitor of his user.
-/

namespace Elevator

open Wire Transition Ordered RelVarTable VCookie VCookieStore

/-! ## In memory -/

namespace VCStoreInMemory

def engine : StorageEngine StoreMap where
  saveVCookie := saveVCookie
  loadVCookie := loadVCookie
  deleteVCookie := deleteVCookie
  deleteOldVCookies := deleteOldVCookies
  indexed store junk c indexed := by
    rw [loadVCookie]
    rcases store.lookup VCookieId.lt c.id with _ | ⟨lastHitTimeGMT, buffer⟩
    · exact indexed
    · exact indexed_deserialize (c := c.setLastHitTimeGMT lastHitTimeGMT) indexed junk buffer

/-- The cookies kept, as the records they are saved as. -/
def recordsOf (kept : VCookieId → Option IndexedCookie) (id : VCookieId) : Option ValuePair :=
  (kept id).map record

theorem recordsOf_update (kept : VCookieId → Option IndexedCookie) (id : VCookieId)
    (saved : Option IndexedCookie) :
    recordsOf (Function.update kept id saved) =
      Function.update (recordsOf kept) id (saved.map record) := by
  funext other
  by_cases same : other = id
  · subst same
    simp only [recordsOf, Function.update_self]
  · simp only [recordsOf, Function.update_of_ne same]

theorem recordsOf_filter (kept : VCookieId → Option IndexedCookie) (t : TimeT) :
    recordsOf (fun id => (kept id).filter fun c => !decide (c.1.lastHitTimeGMT < t)) =
      fun id => (recordsOf kept id).filter fun value => !decide (value.1 < t) := by
  funext id
  cases kept : kept id with
  | none => simp [recordsOf, kept]
  | some c =>
      by_cases old : c.1.lastHitTimeGMT < t <;>
        simp [recordsOf, kept, record, getLastHitTimeGMT, old, Option.filter]

/-- A slot for each visitor.  A visitor is admitted if he is comparable with those
that are kept. -/
def keeping : Keeping engine VCookieId where
  slot id := id
  Holds store kept := Represents VCookieId.lt store (recordsOf kept)
  Admits kept id := ∀ other, (kept other).isSome → id.AtMost other ∨ other.AtMost id
  purges t c := decide (c.lastHitTimeGMT < t)
  save := by
    intro store kept holds c admitted
    rw [recordsOf_update]
    apply holds.assign_insert VCookieId.comparison_lt
    intro other live
    rw [recordsOf, Option.isSome_map] at live
    exact VCookieId.comparable_iff.mpr (admitted other live)
  delete := by
    intro store kept holds c
    rw [recordsOf_update]
    exact (holds.erase VCookieId.comparison_lt c.id).1
  deleteOld := by
    intro store kept holds t
    rw [recordsOf_filter]
    exact (represents_deleteOld holds t).1
  load_none := by
    intro store kept holds junk c missing
    have absent : store.lookup VCookieId.lt c.id = none := by
      rw [holds.lookup_eq VCookieId.comparison_lt, recordsOf, missing, Option.map_none]
    simp only [engine, loadVCookie, absent, loadRecord]
  load_some := by
    intro store kept holds junk id saved here plainCookie small
    have found : store.lookup VCookieId.lt (fresh id false).id = some (record saved) := by
      rw [holds.lookup_eq VCookieId.comparison_lt]
      exact congrArg (Option.map record) here
    have loads := deserialize_saved plainCookie small.inRange (small.record false) id false junk
    rw [← serialized_eq saved false] at loads
    simp only [engine, loadVCookie, found]
    exact loads

/-- A site without cookies over an empty store. -/
def emptySite (ν : Type) : Kept StoreMap ν VCookieId where
  store := .nil
  cookies _ := none
  kept _ := none

theorem consistent_emptySite (ν : Type) : (emptySite ν).Consistent keeping where
  represents := ⟨represents_nil VCookieId.lt, fun _ _ kept => by cases kept⟩
  cookies _ _ named := by cases named

/-- Along every run of cookies over the in-memory engine, with plain changes, small
records and comparable visitors, a visitor who is not taken for new finds the cookie
that was saved last for him and is neither deleted nor purged, and a blank one if there
is none. -/
theorem finds_inMemory {ν : Type} [DecidableEq ν] (ops : List (SiteOp ν))
    (admitted : EveryStep (Kept.step keeping) (Kept.Admits keeping) (emptySite ν) ops) :
    Always (Kept.step keeping) (fun s => ∀ id newVisitor junk,
      Finds (if newVisitor then none else s.kept id) id
        (VCookie.construct id newVisitor (loadVCookie s.store junk))) (emptySite ν) ops :=
  Kept.finds_run (consistent_emptySite ν) admitted

/-- A visitor whose first cookie is changed and destroyed. -/
theorem finds_inMemory_one :
    Always (Kept.step keeping) (fun s => ∀ id newVisitor junk,
      Finds (if newVisitor then none else s.kept id) id
        (VCookie.construct id newVisitor (loadVCookie s.store junk))) (emptySite Unit)
      [.construct () ⟨1, 2, 3⟩ false 0, .mutate () (.setFirstHitUrl [47, 97]), .destroy ()] := by
  apply finds_inMemory
  simp only [everyStep_cons_iff, everyStep_nil, and_true]
  refine ⟨⟨by simp, by simp [Site.saved]⟩, ⟨?_, by simp [Site.saved]⟩, by simp, ?_⟩
  · rintro _ _ ⟨⟩
    exact ⟨by decide, trivial⟩
  · rintro c ⟨⟩
    constructor
    · refine ⟨inRange_of_unset fun _ => rfl, fun saveLastHitTime => ?_⟩
      cases saveLastHitTime <;> decide +kernel
    · intro other live
      cases live

end VCStoreInMemory

/-! ## Couchbase -/

namespace VCCouchbaseStore

variable {σ : Type} (lcb : Lcb σ)

/-- `DeleteOldVCookies` does nothing. -/
def deleteOldVCookies (bucket : σ) (_t : TimeT) : σ × Nat :=
  (bucket, 0)

def engine : StorageEngine σ where
  saveVCookie := saveVCookie lcb
  loadVCookie := loadVCookie lcb
  deleteVCookie := deleteVCookie lcb
  deleteOldVCookies := deleteOldVCookies
  indexed bucket junk c indexed := by
    unfold loadVCookie
    split
    · exact indexed_deserialize indexed _ _
    · exact indexed

variable {lcb} {empty : σ} (faithful : Faithful lcb empty)

include faithful in
theorem fetch_saveVCookie (bucket : σ) (c : IndexedCookie) (id : VCookieId) :
    fetch lcb (saveVCookie lcb bucket c).1 id =
      if c.1.id.userid = id.userid then some (serialized c true) else fetch lcb bucket id := by
  have fetched := fetch_step faithful bucket (.save c) id
  by_cases same : c.1.id.userid = id.userid
  · rw [if_pos same]
    exact fetched.trans (if_pos (decide_eq_true same))
  · rw [if_neg same]
    exact fetched.trans (if_neg (by simp [StoreOp.id, same]))

include faithful in
theorem fetch_deleteVCookie (bucket : σ) (c : VCookie) (id : VCookieId) :
    fetch lcb (deleteVCookie lcb bucket c).1 id =
      if c.id.userid = id.userid then none else fetch lcb bucket id := by
  have fetched := fetch_step faithful bucket (.delete c) id
  by_cases same : c.id.userid = id.userid
  · rw [if_pos same]
    exact fetched.trans (if_pos (decide_eq_true same))
  · rw [if_neg same]
    exact fetched.trans (if_neg (by simp [StoreOp.id, same]))

/-- A slot for each user, and every visitor is admitted. -/
def keeping : Keeping (engine lcb) UInt32 where
  slot id := id.userid
  Holds bucket kept := ∀ id : VCookieId,
    fetch lcb bucket id = (kept id.userid).map fun c => serialized c true
  Admits _ _ := True
  purges _ _ := false
  save := by
    intro bucket kept holds c _ id
    refine (fetch_saveVCookie faithful bucket c id).trans ?_
    by_cases same : c.1.id.userid = id.userid
    · rw [if_pos same, ← same, Function.update_self, Option.map_some]
    · rw [if_neg same, Function.update_of_ne (Ne.symm same), holds]
  delete := by
    intro bucket kept holds c id
    refine (fetch_deleteVCookie faithful bucket c id).trans ?_
    by_cases same : c.id.userid = id.userid
    · rw [if_pos same, ← same, Function.update_self, Option.map_none]
    · rw [if_neg same, Function.update_of_ne (Ne.symm same), holds]
  deleteOld := by
    intro bucket kept holds t id
    have all : (kept id.userid).filter (fun _ => !false) = kept id.userid := by
      cases kept id.userid <;> rfl
    exact (holds id).trans (congrArg _ all.symm)
  load_none := by
    intro bucket kept holds junk c missing
    have fetched := holds c.id
    rw [missing, Option.map_none] at fetched
    simp only [engine, loadVCookie_eq, fetched]
  load_some := by
    intro bucket kept holds junk id saved here plainCookie small
    have fetched := holds id
    rw [here, Option.map_some, serialized_eq] at fetched
    obtain ⟨found, accepted, rest⟩ :=
      deserialize_saved plainCookie small.inRange (small.record true) id false junk
    refine ⟨found, ?_, rest⟩
    have target : fetch lcb bucket (fresh id false).id = some (encode saved.1 true) := fetched
    simp only [engine, loadVCookie_eq, target]
    exact congrArg (fun result => (Prod.fst result, true)) accepted

/-- A site without cookies over an empty bucket. -/
def emptySite (empty : σ) (ν : Type) : Kept σ ν UInt32 where
  store := empty
  cookies _ := none
  kept _ := none

theorem consistent_emptySite (ν : Type) :
    (emptySite empty ν).Consistent (keeping faithful) where
  represents := ⟨fun id => by rw [fetch, emptySite, faithful.get_empty]; rfl,
    fun _ _ kept => by cases kept⟩
  cookies _ _ named := by cases named

/-- Along every run of cookies over a bucket, with plain changes and small records, a
visitor who is not taken for new finds the cookie that was saved or deleted last for his
user, whoever's it was. -/
theorem finds_couchbase {ν : Type} [DecidableEq ν] (ops : List (SiteOp ν))
    (admitted : EveryStep (Kept.step (keeping faithful)) (Kept.Admits (keeping faithful))
      (emptySite empty ν) ops) :
    Always (Kept.step (keeping faithful)) (fun s => ∀ id newVisitor junk,
      Finds (if newVisitor then none else s.kept id.userid) id
        (VCookie.construct id newVisitor (loadVCookie lcb s.store junk)))
      (emptySite empty ν) ops :=
  Kept.finds_run (consistent_emptySite faithful ν) admitted

theorem finds_couchbase_one :
    Always (Kept.step (keeping faithful_mapLcb)) (fun s => ∀ id newVisitor junk,
      Finds (if newVisitor then none else s.kept id.userid) id
        (VCookie.construct id newVisitor (loadVCookie mapLcb s.store junk)))
      (emptySite (fun _ => none) Unit)
      [.construct () ⟨1, 2, 3⟩ false 0, .mutate () (.setFirstHitUrl [47, 97]), .destroy ()] := by
  apply finds_couchbase
  simp only [everyStep_cons_iff, everyStep_nil, and_true]
  refine ⟨⟨by simp, by simp [Site.saved]⟩, ⟨?_, by simp [Site.saved]⟩, by simp, ?_⟩
  · rintro _ _ ⟨⟩
    exact ⟨by decide, trivial⟩
  · rintro c ⟨⟩
    constructor
    · refine ⟨inRange_of_unset fun _ => rfl, fun saveLastHitTime => ?_⟩
      cases saveLastHitTime <;> decide +kernel
    · trivial

end VCCouchbaseStore

end Elevator
