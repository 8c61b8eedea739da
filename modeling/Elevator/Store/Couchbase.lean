import Elevator.Codec.Deserialize
import Elevator.Codec.Encoding

/-!
# The Couchbase store

`VCCouchbaseStore` keeps every record under the decimal user id alone.  The
client library is a parameter, of which only set, get and remove by key are
used.  What a load fetches is the last write among all visitors of the user, so a
load is right as long as that write was the visitor's own or left the same behind.
-/

namespace Elevator

open Wire Transition VCookieStore

namespace VCCouchbaseStore

/-- The error codes that the store tells apart. -/
inductive LcbError
  | success
  | keyEnoent
  | other
  deriving DecidableEq, Repr

/-- The calls of libcouchbase, each with the first error of the call and its
response. -/
structure Lcb (σ : Type) where
  store : σ → String → Bytes → σ × LcbError
  get : σ → String → Except LcbError Bytes
  remove : σ → String → σ × LcbError

/-- A bucket that starts empty and keeps what is set until it is removed. -/
structure Faithful {σ : Type} (lcb : Lcb σ) (empty : σ) : Prop where
  get_empty : ∀ key, lcb.get empty key = .error .keyEnoent
  get_store : ∀ bucket key buffer key',
    lcb.get (lcb.store bucket key buffer).1 key' =
      if key' = key then .ok buffer else lcb.get bucket key'
  get_remove : ∀ bucket key key',
    lcb.get (lcb.remove bucket key).1 key' =
      if key' = key then .error .keyEnoent else lcb.get bucket key'

variable {σ : Type} (lcb : Lcb σ)

/-- `ss << vcookie.GetUser()`. -/
def key (id : VCookieId) : String :=
  id.userid.toNat.repr

def saveVCookie (bucket : σ) (vcookie : IndexedCookie) : σ × Bool :=
  let stored := lcb.store bucket (key vcookie.1.id) (serialized vcookie true)
  (stored.1, stored.2 = .success)

/-- What `Deserialize` returns is ignored. -/
def loadVCookie (bucket : σ) (junk : UInt8) (vcookie : VCookie) : VCookie × Bool :=
  match lcb.get bucket (key vcookie.id) with
  | .ok buffer => ((deserialize junk vcookie buffer).1, true)
  | .error _ => (vcookie, false)

def deleteVCookie (bucket : σ) (vcookie : VCookie) : σ × Bool :=
  let removed := lcb.remove bucket (key vcookie.id)
  (removed.1, removed.2 = .success)

theorem key_inj {id id' : VCookieId} : key id = key id' ↔ id.userid = id'.userid := by
  constructor
  · intro same
    have digits : Nat.toDigits 10 id.userid.toNat = Nat.toDigits 10 id'.userid.toNat := by
      simpa [key, Nat.repr] using congrArg String.toList same
    have number := congrArg (Nat.ofDigitChars 10 · 0) digits
    simp only [Nat.ofDigitChars_ten_toDigits] at number
    exact UInt32.toNat_inj.mp number
  · intro same
    rw [key, key, same]

/-- The bytes that a load hands to `Deserialize`, if it finds a record. -/
def fetch (bucket : σ) (id : VCookieId) : Option Bytes :=
  (lcb.get bucket (key id)).toOption

theorem loadVCookie_eq (bucket : σ) (junk : UInt8) (vcookie : VCookie) :
    loadVCookie lcb bucket junk vcookie =
      match fetch lcb bucket vcookie.id with
      | some buffer => ((deserialize junk vcookie buffer).1, true)
      | none => (vcookie, false) := by
  unfold loadVCookie fetch
  cases lcb.get bucket (key vcookie.id) <;> rfl

/-! ## Histories -/

inductive StoreOp
  | save (vcookie : IndexedCookie)
  | delete (vcookie : VCookie)
  | load (vcookie : VCookie)

/-- The visitor that the call is about. -/
def StoreOp.id : StoreOp → VCookieId
  | .save vcookie => vcookie.1.id
  | .delete vcookie => vcookie.id
  | .load vcookie => vcookie.id

def StoreOp.isWrite : StoreOp → Bool
  | .load _ => false
  | _ => true

/-- What the call leaves to be loaded. -/
def StoreOp.left : StoreOp → Option Bytes
  | .save vcookie => some (serialized vcookie true)
  | _ => none

def step (bucket : σ) : StoreOp → σ
  | .save vcookie => (saveVCookie lcb bucket vcookie).1
  | .delete vcookie => (deleteVCookie lcb bucket vcookie).1
  | .load _ => bucket

/-- The last save or delete of a visitor that passes the test. -/
def lastWrite (visitor : VCookieId → Bool) (ops : List StoreOp) : Option StoreOp :=
  (ops.filter fun op => op.isWrite && visitor op.id).getLast?

/-- The bytes of the most recent save of the id, unless it was deleted since. -/
def live (ops : List StoreOp) (id : VCookieId) : Option Bytes :=
  (lastWrite (· = id) ops).bind StoreOp.left

theorem lastWrite_concat (visitor : VCookieId → Bool) (ops : List StoreOp) (last : StoreOp) :
    lastWrite visitor (ops ++ [last]) =
      if last.isWrite && visitor last.id then some last else lastWrite visitor ops := by
  rw [lastWrite, List.filter_append, List.filter_singleton]
  cases last.isWrite && visitor last.id <;> simp [lastWrite]

variable {lcb} {empty : σ} (faithful : Faithful lcb empty)

include faithful

/-- A write replaces what every visitor of its user loads. -/
theorem fetch_step (bucket : σ) (op : StoreOp) (id : VCookieId) :
    fetch lcb (step lcb bucket op) id =
      if op.isWrite && decide (op.id.userid = id.userid) then op.left
      else fetch lcb bucket id := by
  cases op with
  | load vcookie => rfl
  | save vcookie =>
      by_cases same : vcookie.1.id.userid = id.userid
      · simp [fetch, step, saveVCookie, faithful.get_store, key_inj.mpr same.symm, StoreOp.isWrite,
          StoreOp.id, StoreOp.left, same, Except.toOption]
      · have other : key id ≠ key vcookie.1.id := fun equal => same (key_inj.mp equal).symm
        simp [fetch, step, saveVCookie, faithful.get_store, other, StoreOp.id, same]
  | delete vcookie =>
      by_cases same : vcookie.id.userid = id.userid
      · simp [fetch, step, deleteVCookie, faithful.get_remove, key_inj.mpr same.symm,
          StoreOp.isWrite, StoreOp.id, StoreOp.left, same, Except.toOption]
      · have other : key id ≠ key vcookie.id := fun equal => same (key_inj.mp equal).symm
        simp [fetch, step, deleteVCookie, faithful.get_remove, other, StoreOp.id, same]

/-- A load fetches what the last write of its user left. -/
theorem fetch_run (ops : List StoreOp) (id : VCookieId) :
    fetch lcb (run (step lcb) empty ops) id =
      (lastWrite (·.userid = id.userid) ops).bind StoreOp.left := by
  induction ops using List.reverseRecOn with
  | nil => simp [fetch, faithful.get_empty, lastWrite, Except.toOption]
  | append_singleton ops op ih =>
      rw [run_concat, fetch_step faithful, lastWrite_concat, ih]
      split <;> rfl

omit faithful in
/-- If the last write of the user is about the visitor, it is the visitor's last. -/
theorem lastWrite_eq_of_own {ops : List StoreOp} {id : VCookieId}
    (own : ∀ op, lastWrite (·.userid = id.userid) ops = some op → op.id = id) :
    lastWrite (· = id) ops = lastWrite (·.userid = id.userid) ops := by
  induction ops using List.reverseRecOn with
  | nil => rfl
  | append_singleton ops final ih =>
      rw [lastWrite_concat] at own ⊢
      rw [lastWrite_concat]
      by_cases write : final.isWrite = true ∧ final.id.userid = id.userid
      · have same : final.id = id := own final (by simp [write])
        simp [write, same]
      · have other : ¬ (final.isWrite = true ∧ final.id = id) :=
          fun both => write ⟨both.1, congrArg VCookieId.userid both.2⟩
        simp only [Bool.and_eq_true, decide_eq_true_eq, write, other, if_false] at own ⊢
        exact ih own

/-! ## The exact conditions -/

variable (lcb empty)

omit faithful

/-- Every load of the run fetches the record of its own id. -/
def LoadsOwn (ops : List StoreOp) : Prop :=
  ∀ done vcookie, done ++ [.load vcookie] <+: ops →
    fetch lcb (run (step lcb) empty done) vcookie.id = live done vcookie.id

/-- No call of the run changes what is loaded for another id. -/
def Undisturbed (ops : List StoreOp) : Prop :=
  ∀ done next, done ++ [next] <+: ops → ∀ id, id ≠ next.id →
    fetch lcb (run (step lcb) empty (done ++ [next])) id =
      fetch lcb (run (step lcb) empty done) id

/-- The last write of the loaded visitor's user is the visitor's own, or it left
what the visitor's own left. -/
def OwnWriteLast (done : List StoreOp) (id : VCookieId) : Prop :=
  ∀ op, lastWrite (·.userid = id.userid) done = some op → op.id = id ∨ op.left = live done id

variable {lcb empty}

include faithful

theorem fetch_eq_live_iff (done : List StoreOp) (id : VCookieId) :
    fetch lcb (run (step lcb) empty done) id = live done id ↔ OwnWriteLast done id := by
  rw [fetch_run faithful]
  constructor
  · intro right op last
    rw [last] at right
    exact Or.inr right
  · intro condition
    cases last : lastWrite (·.userid = id.userid) done with
    | none =>
        rw [live, lastWrite_eq_of_own (by simp [last]), last]
    | some op =>
        rcases condition op last with own | same
        · rw [live, lastWrite_eq_of_own (by simp [last, own]), last]
        · exact same

/-- Without a save nothing is ever fetched. -/
theorem fetch_eq_none {done : List StoreOp} (noSave : ∀ op ∈ done, op.left = none)
    (id : VCookieId) : fetch lcb (run (step lcb) empty done) id = none := by
  rw [fetch_run faithful, Option.bind_eq_none_iff]
  intro op last
  exact noSave op (List.mem_of_mem_filter (List.mem_of_getLast? last))

theorem undisturbed_iff (ops : List StoreOp) :
    Undisturbed lcb empty ops ↔ ∀ op ∈ ops, op.left = none := by
  constructor
  · intro undisturbed
    induction ops using List.reverseRecOn with
    | nil => simp
    | append_singleton ops op ih =>
        have noSave := ih fun done next isPrefix =>
          undisturbed done next (isPrefix.trans (List.prefix_append _ _))
        refine List.forall_mem_append.mpr ⟨noSave, List.forall_mem_singleton.mpr ?_⟩
        cases op with
        | save vcookie =>
            let other : VCookieId := { vcookie.1.id with visidHigh := vcookie.1.id.visidHigh + 1 }
            have different : other ≠ vcookie.1.id := fun same => by
              have next : vcookie.1.id.visidHigh + 1 = vcookie.1.id.visidHigh :=
                congrArg VCookieId.visidHigh same
              simp at next
            have same := undisturbed ops (.save vcookie) (List.prefix_refl _) other different
            rw [run_concat, fetch_step faithful, fetch_eq_none faithful noSave] at same
            simp [StoreOp.isWrite, StoreOp.id, StoreOp.left, other] at same
        | delete vcookie => rfl
        | load vcookie => rfl
  · intro noSave done next isPrefix id _
    have before : ∀ op ∈ done ++ [next], op.left = none :=
      fun op member => noSave op (isPrefix.subset member)
    rw [fetch_eq_none faithful before,
      fetch_eq_none faithful fun op member => before op (List.mem_append_left _ member)]

/-- Loads of a run are right exactly when the last write of the user before each
is its visitor's own or left the same, and no other visitor is disturbed exactly
when nothing is ever saved. -/
theorem loadsOwn_undisturbed_iff (ops : List StoreOp) :
    (LoadsOwn lcb empty ops ↔
      ∀ done vcookie, done ++ [.load vcookie] <+: ops → OwnWriteLast done vcookie.id) ∧
    (Undisturbed lcb empty ops ↔ ∀ op ∈ ops, op.left = none) := by
  refine ⟨?_, undisturbed_iff faithful ops⟩
  simp only [LoadsOwn, fetch_eq_live_iff faithful]

omit faithful

/-- A bucket in memory. -/
def mapLcb : Lcb (String → Option Bytes) where
  store bucket key buffer := (Function.update bucket key (some buffer), .success)
  get bucket key :=
    match bucket key with
    | some buffer => .ok buffer
    | none => .error .keyEnoent
  remove bucket key :=
    (Function.update bucket key none, if (bucket key).isSome then .success else .keyEnoent)

theorem faithful_mapLcb : Faithful mapLcb fun _ => none where
  get_empty key := rfl
  get_store bucket key buffer key' := by
    by_cases same : key' = key
    · simp [mapLcb, same]
    · simp [mapLcb, same]
  get_remove bucket key key' := by
    by_cases same : key' = key
    · simp [mapLcb, same]
    · simp [mapLcb, same]

/-- One visitor saved and loaded again. -/
theorem loadsOwn_undisturbed_one :
    let vcookie : IndexedCookie := ⟨VCookie.fresh ⟨1, 2, 3⟩ true, VCookie.indexed_fresh _ _⟩
    let ops : List StoreOp := [.save vcookie, .load vcookie.1]
    (LoadsOwn mapLcb (fun _ => none) ops ↔
      ∀ done vcookie, done ++ [.load vcookie] <+: ops → OwnWriteLast done vcookie.id) ∧
    (Undisturbed mapLcb (fun _ => none) ops ↔ ∀ op ∈ ops, op.left = none) :=
  loadsOwn_undisturbed_iff faithful_mapLcb _

/-- A visitor of the same user who was never saved is given the other's record. -/
theorem load_fetches_other :
    let saved : IndexedCookie := ⟨VCookie.fresh ⟨1, 2, 3⟩ true, VCookie.indexed_fresh _ _⟩
    let stranger := VCookie.fresh ⟨1, 4, 5⟩ false
    let ops : List StoreOp := [.save saved, .load stranger]
    live [.save saved] stranger.id = none ∧
      fetch mapLcb (run (step mapLcb) (fun _ => none) [.save saved]) stranger.id =
        some (serialized saved true) ∧
      ¬ LoadsOwn mapLcb (fun _ => none) ops ∧ ¬ Undisturbed mapLcb (fun _ => none) ops := by
  intro saved stranger ops
  have dead : live [.save saved] stranger.id = none := rfl
  have fetched : fetch mapLcb (run (step mapLcb) (fun _ => none) [.save saved]) stranger.id =
      some (serialized saved true) := by
    rw [fetch_run faithful_mapLcb]
    rfl
  refine ⟨dead, fetched, fun loadsOwn => ?_, fun undisturbed => ?_⟩
  · have right := loadsOwn [.save saved] stranger (List.prefix_refl _)
    rw [fetched, dead] at right
    contradiction
  · have same := undisturbed [] (.save saved) ⟨[.load stranger], rfl⟩ stranger.id (by decide)
    rw [List.nil_append, fetched] at same
    contradiction

end VCCouchbaseStore

end Elevator
