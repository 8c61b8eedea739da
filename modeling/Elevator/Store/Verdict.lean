import Elevator.Codec.Bounds
import Elevator.Cookie.Lifecycle
import Elevator.Store.Batch
import Elevator.Store.InMemory

/-!
# What a load reports

Whether `Deserialize` accepts a record depends on its bytes alone.  The in-memory
store hands on that verdict, and the constructor reports what its load returned.
The Couchbase store reports every record that it finds as loaded, so its reports
are right exactly when every record found is accepted.
-/

namespace Elevator

open Wire Transition VCookieStore

namespace VCookieStore

/-- The verdict of `Deserialize` on a record. -/
def accepts (buffer : Bytes) : Bool :=
  (scan buffer).2

/-- The verdict is the same for every cookie. -/
theorem snd_deserialize (junk : UInt8) (c : VCookie) (buffer : Bytes) :
    (deserialize junk c buffer).2 = accepts buffer := by
  have watched := Watched.erases_watchDecode cookieSetters buffer 0 c
  have traced := Watched.erases_watchDecode traceSetters buffer 0 []
  have same := congrArg Option.isSome (watched.symm.trans traced)
  rw [Option.isSome_map, Option.isSome_map] at same
  have decoded : (deserialize junk c buffer).2 =
      (decode cookieSetters 0 c buffer).toOption.isSome := by
    rw [deserialize, decode_junk cookieSetters junk 0]
    cases decode cookieSetters 0 c buffer <;> rfl
  have scanned : accepts buffer = (decode traceSetters 0 [] buffer).toOption.isSome := by
    rw [accepts, scan]
    cases decode traceSetters 0 [] buffer <;> rfl
  rw [decoded, scanned, same]

/-- There is a record, and it is accepted. -/
def Loadable (record : Option Bytes) : Prop :=
  ∃ buffer, record = some buffer ∧ accepts buffer = true

/-- A record, if there is one, is accepted. -/
def Intact (record : Option Bytes) : Prop :=
  ∀ buffer, record = some buffer → accepts buffer = true

/-- A load of the record reports success exactly when it is loadable. -/
def ReportsVerdict (load : VCookie → VCookie × Bool) (record : Option Bytes) (c : VCookie) :
    Prop :=
  (load c).2 = true ↔ Loadable record

/-- A constructor that may find a record reports a new cookie exactly when it is
not loadable. -/
def ConstructsByVerdict (load : VCookie → VCookie × Bool) (record : Option Bytes)
    (id : VCookieId) : Prop :=
  (VCookie.construct id false load).newCookie = false ↔ Loadable record

/-- A constructor reports what its load does. -/
theorem constructsByVerdict_iff (load : VCookie → VCookie × Bool) (record : Option Bytes)
    (id : VCookieId) :
    ConstructsByVerdict load record id ↔ ReportsVerdict load record (VCookie.fresh id false) := by
  have reported : (VCookie.construct id false load).newCookie =
      !(load (VCookie.fresh id false)).2 := rfl
  rw [ConstructsByVerdict, ReportsVerdict, reported, Bool.not_eq_false']

/-- To report every record found is right exactly when it is intact. -/
theorem isSome_iff_loadable_iff (record : Option Bytes) :
    (record.isSome = true ↔ Loadable record) ↔ Intact record := by
  cases record with
  | none => simp [Loadable, Intact]
  | some buffer => simp [Loadable, Intact]

end VCookieStore

namespace VCStoreInMemory

/-- The blob that a load hands to `Deserialize`, if it finds a record. -/
def fetch (store : StoreMap) (id : VCookieId) : Option Bytes :=
  (store.lookup VCookieId.lt id).map Prod.snd

theorem reportsVerdict (store : StoreMap) (junk : UInt8) (c : VCookie) :
    ReportsVerdict (loadVCookie store junk) (fetch store c.id) c := by
  rw [ReportsVerdict, loadVCookie, fetch, Loadable]
  cases store.lookup VCookieId.lt c.id with
  | none => simp [loadRecord]
  | some record => simp [loadRecord, snd_deserialize]

end VCStoreInMemory

namespace VCCouchbaseStore

variable {σ ι : Type} [DecidableEq ι] (lcb : Lcb σ) (bucket : σ) (junk : UInt8)

/-- In whatever order the responses come, the callback is told of success exactly
where the record is loadable. -/
def BatchReportsVerdict (mem : ι → VCookie) (cookies : List ι) : Prop :=
  ∀ responses, Delivered lcb bucket mem cookies responses →
    ∃ s, loadVCookies junk true mem cookies responses = some s ∧
      ∀ call ∈ s.callbacks, call.1 = true ↔ Loadable (fetch lcb bucket (mem call.2).id)

theorem isSome_fetch (id : VCookieId) :
    (fetch lcb bucket id).isSome = (lcb.get bucket (key id)).isOk := by
  rw [fetch]
  cases lcb.get bucket (key id) <;> rfl

theorem reportsVerdict_iff (c : VCookie) :
    ReportsVerdict (loadVCookie lcb bucket junk) (fetch lcb bucket c.id) c ↔
      Intact (fetch lcb bucket c.id) := by
  rw [ReportsVerdict, snd_loadVCookie, ← isSome_fetch]
  exact isSome_iff_loadable_iff _

/-- The flag of a call is whether a record of its cookie was found. -/
theorem batchReportsVerdict_iff (mem : ι → VCookie) (cookies : List ι) :
    BatchReportsVerdict lcb bucket junk mem cookies ↔
      ∀ cookie ∈ cookies, Intact (fetch lcb bucket (mem cookie).id) := by
  constructor
  · intro reports cookie member
    have delivered : Delivered lcb bucket mem cookies _ := List.Perm.refl _
    rcases reports _ delivered with ⟨s, result, right⟩
    rw [loadVCookies_eq_loop delivered] at result
    cases result
    rcases objects_keyOf mem member with ⟨last, among, found, sameKey⟩
    have receives : last ∈ receivers mem cookies (cookies.map (response lcb bucket mem)) :=
      List.mem_filterMap.mpr ⟨_, List.mem_map_of_mem member, found⟩
    rw [callbacks_loop, if_pos rfl, List.forall_mem_map] at right
    have flagged := right last receives
    rw [keyOf, ← isSome_fetch, isSome_iff_loadable_iff] at flagged
    have sameRecord : fetch lcb bucket (mem cookie).id = fetch lcb bucket (mem last).id := by
      rw [fetch, fetch]
      exact congrArg (fun key => (lcb.get bucket key).toOption) sameKey.symm
    rwa [sameRecord]
  · intro intact responses delivered
    refine ⟨_, loadVCookies_eq_loop delivered, ?_⟩
    rw [callbacks_loop, if_pos rfl, List.forall_mem_map]
    intro last receives
    have among := (receivers_perm delivered).subset receives
    rcases List.mem_filterMap.mp among with ⟨cookie, member, found⟩
    rcases objects_keyOf mem member with ⟨last', member', found', -⟩
    cases found.symm.trans found'
    rw [keyOf, ← isSome_fetch]
    exact (isSome_iff_loadable_iff _).mpr (intact last member')

/-- The in-memory store and a constructor over it always report the verdict; the
Couchbase store, a constructor over it and its batches report it exactly when the
records found are intact. -/
theorem loads_reportVerdict_iff (store : VCStoreInMemory.StoreMap) (c : VCookie) (id : VCookieId)
    (mem : ι → VCookie) (cookies : List ι) :
    ReportsVerdict (VCStoreInMemory.loadVCookie store junk) (VCStoreInMemory.fetch store c.id) c ∧
    ConstructsByVerdict (VCStoreInMemory.loadVCookie store junk) (VCStoreInMemory.fetch store id)
      id ∧
    (ReportsVerdict (loadVCookie lcb bucket junk) (fetch lcb bucket c.id) c ↔
      Intact (fetch lcb bucket c.id)) ∧
    (ConstructsByVerdict (loadVCookie lcb bucket junk) (fetch lcb bucket id) id ↔
      Intact (fetch lcb bucket id)) ∧
    (BatchReportsVerdict lcb bucket junk mem cookies ↔
      ∀ cookie ∈ cookies, Intact (fetch lcb bucket (mem cookie).id)) := by
  constructor
  · exact VCStoreInMemory.reportsVerdict store junk c
  constructor
  · rw [constructsByVerdict_iff]
    exact VCStoreInMemory.reportsVerdict store junk (VCookie.fresh id false)
  constructor
  · exact reportsVerdict_iff lcb bucket junk c
  constructor
  · rw [constructsByVerdict_iff]
    exact reportsVerdict_iff lcb bucket junk (VCookie.fresh id false)
  · exact batchReportsVerdict_iff lcb bucket junk mem cookies

omit [DecidableEq ι] in
/-- A record of no bytes is rejected and reported as loaded. -/
theorem empty_record_reported :
    let bucket : String → Option Bytes := Function.update (fun _ => none) "1" (some [])
    let c := VCookie.fresh ⟨1, 2, 3⟩ false
    let mem (_ : Unit) := c
    let batch := loadVCookies 0 true mem [()] [response mapLcb bucket mem ()]
    fetch mapLcb bucket c.id = some [] ∧ (deserialize 0 c []).2 = false ∧
      (loadVCookie mapLcb bucket 0 c).2 = true ∧
      (VCookie.construct ⟨1, 2, 3⟩ false (loadVCookie mapLcb bucket 0)).newCookie = false ∧
      batch.map Heap.callbacks = some [(true, ())] ∧
      ¬ ReportsVerdict (loadVCookie mapLcb bucket 0) (fetch mapLcb bucket c.id) c ∧
      ¬ ConstructsByVerdict (loadVCookie mapLcb bucket 0) (fetch mapLcb bucket c.id) c.id ∧
      ¬ BatchReportsVerdict mapLcb bucket 0 mem [()] := by
  intro bucket c mem batch
  have stored : fetch mapLcb bucket c.id = some [] := by decide +kernel
  have rejected : accepts [] = false := by decide +kernel
  have broken : ¬ Intact (fetch mapLcb bucket c.id) := by
    intro intact
    have accepted := intact [] stored
    rw [rejected] at accepted
    contradiction
  refine ⟨stored, by decide +kernel, by decide +kernel, by decide +kernel, by decide +kernel, ?_,
    ?_, ?_⟩
  · exact (reportsVerdict_iff mapLcb bucket 0 c).not.mpr broken
  · rw [constructsByVerdict_iff]
    exact (reportsVerdict_iff mapLcb bucket 0 c).not.mpr broken
  · rw [batchReportsVerdict_iff]
    exact fun intact => broken (intact () (List.mem_singleton_self ()))

end VCCouchbaseStore

end Elevator
