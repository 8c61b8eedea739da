import Elevator.Codec.Calls
import Elevator.Store.Couchbase
import Elevator.Transition.Cells

/-!
# Batches

The base class loads and saves a batch one cookie after the other.
`VCCouchbaseStore` submits all commands and waits for their responses, which may
come in any order.  A response to a get finds its cookie through a map from keys,
so it goes to the last cookie of the user in the batch; the handler of a store
knows nothing of the batch, and its callback is never called.
-/

namespace Elevator

open Wire Transition VCookieStore

variable {σ ι : Type}

/-- The cookies that the pointers of a batch lead to, and the calls of the
callback. -/
structure Heap (ι : Type) where
  mem : ι → VCookie
  callbacks : List (Bool × ι)

namespace VCookieStore

section Loop

variable [DecidableEq ι]

/-- One turn of `LoadVCookies`; `callback` tells whether there is one. -/
def loadTurn (load : VCookie → VCookie × Bool) (callback : Bool) (s : Heap ι) (cookie : ι) :
    Heap ι :=
  let success := load (s.mem cookie)
  { mem := Function.update s.mem cookie success.1
    callbacks := if callback then s.callbacks ++ [(success.2, cookie)] else s.callbacks }

/-- `LoadVCookies` of the base class. -/
def loadVCookies (load : VCookie → VCookie × Bool) (callback : Bool) (mem : ι → VCookie)
    (cookies : List ι) : Heap ι :=
  run (loadTurn load callback) ⟨mem, []⟩ cookies

end Loop

/-- One turn of `SaveVCookies`. -/
def saveTurn (save : σ → IndexedCookie → σ × Bool) (callback : Bool) (mem : ι → IndexedCookie)
    (s : σ × List (Bool × ι)) (cookie : ι) : σ × List (Bool × ι) :=
  let success := save s.1 (mem cookie)
  (success.1, if callback then s.2 ++ [(success.2, cookie)] else s.2)

/-- `SaveVCookies` of the base class. -/
def saveVCookies (save : σ → IndexedCookie → σ × Bool) (callback : Bool) (mem : ι → IndexedCookie)
    (store : σ) (cookies : List ι) : σ × List (Bool × ι) :=
  run (saveTurn save callback mem) (store, []) cookies

/-- `Deserialize` keeps the identity. -/
theorem id_deserialize (junk : UInt8) (c : VCookie) (buffer : Bytes) :
    (deserialize junk c buffer).1.id = c.id := by
  have kept : KeptBy cookieSetters fun d => d.id = c.id :=
    ⟨fun _ same => (VCookie.id_mutate _ _).trans same,
      fun _ _ same => (VCookie.ignoresVars_id.setVar _ ..).trans same,
      fun same => (VCookie.ignoresVars_id.addLinearElement _ ..).trans same⟩
  have left := keeps_decode kept junk buffer rfl
  unfold deserialize
  cases result : decode cookieSetters junk c buffer <;> rwa [result] at left

end VCookieStore

namespace VCCouchbaseStore

variable (lcb : Lcb σ) (bucket : σ) (junk : UInt8) (callback : Bool)

/-! ## Loading -/

/-- `cookie->GetUser()`, printed. -/
def keyOf (mem : ι → VCookie) (cookie : ι) : String :=
  key (mem cookie).id

/-- `bc.objects` after the loop over the batch. -/
def objects (mem : ι → VCookie) (cookies : List ι) : String → Option ι :=
  run (assign (keyOf mem)) (fun _ => none) cookies

/-- The response to the command for a cookie. -/
def response (mem : ι → VCookie) (cookie : ι) : String × Except LcbError Bytes :=
  (keyOf mem cookie, lcb.get bucket (keyOf mem cookie))

/-- One response for each command, in any order. -/
def Delivered (mem : ι → VCookie) (cookies : List ι)
    (responses : List (String × Except LcbError Bytes)) : Prop :=
  responses.Perm (cookies.map (response lcb bucket mem))

/-- The cookies of the batch that the responses go to. -/
def receivers (mem : ι → VCookie) (cookies : List ι)
    (responses : List (String × Except LcbError Bytes)) : List ι :=
  responses.filterMap fun resp => objects mem cookies resp.1

section Receivers

variable {lcb bucket} {cookies : List ι}

/-- Each command's key leads to a cookie of the same user. -/
theorem objects_keyOf (mem : ι → VCookie) {cookie : ι} (member : cookie ∈ cookies) :
    ∃ last ∈ cookies, objects mem cookies (keyOf mem cookie) = some last ∧
      keyOf mem last = keyOf mem cookie :=
  run_assign_isSome (keyOf mem) member

theorem receivers_perm {mem : ι → VCookie} {responses : List (String × Except LcbError Bytes)}
    (delivered : Delivered lcb bucket mem cookies responses) :
    (receivers mem cookies responses).Perm
      (cookies.filterMap fun cookie => objects mem cookies (keyOf mem cookie)) := by
  have order := delivered.filterMap fun resp => objects mem cookies resp.1
  rwa [List.filterMap_map] at order

end Receivers

section Loading

variable [DecidableEq ι]

/-- `bulk_get_handler`; without a result its assertion fails. -/
def bulkGetHandler (objects : String → Option ι) (s : Heap ι)
    (resp : String × Except LcbError Bytes) : Option (Heap ι) :=
  match objects resp.1 with
  | none => none
  | some obj =>
      let mem :=
        match resp.2 with
        | .ok buffer => Function.update s.mem obj (deserialize junk (s.mem obj) buffer).1
        | .error _ => s.mem
      some
        { mem := mem
          callbacks := if callback then s.callbacks ++ [(resp.2.isOk, obj)] else s.callbacks }

/-- `LoadVCookies`, given the responses in the order of their delivery. -/
def loadVCookies (mem : ι → VCookie) (cookies : List ι)
    (responses : List (String × Except LcbError Bytes)) : Option (Heap ι) :=
  responses.foldlM (bulkGetHandler junk callback (objects mem cookies)) ⟨mem, []⟩

/-- With or without a callback and in whatever order the responses come, the batch
does what the loop of the base class does. -/
def LoadsAsLoop (mem : ι → VCookie) (cookies : List ι) : Prop :=
  ∀ callback responses, Delivered lcb bucket mem cookies responses →
    let loop := VCookieStore.loadVCookies (loadVCookie lcb bucket junk) callback mem cookies
    ∃ s, loadVCookies junk callback mem cookies responses = some s ∧ s.mem = loop.mem ∧
      s.callbacks.Perm loop.callbacks

variable {lcb bucket junk callback} {mem : ι → VCookie} {cookies : List ι}

theorem id_loadVCookie (c : VCookie) : (loadVCookie lcb bucket junk c).1.id = c.id := by
  rw [loadVCookie_eq]
  split
  · exact id_deserialize junk c _
  · rfl

theorem snd_loadVCookie (c : VCookie) :
    (loadVCookie lcb bucket junk c).2 = (lcb.get bucket (key c.id)).isOk := by
  unfold loadVCookie
  cases lcb.get bucket (key c.id) <;> rfl

/-- Cookies are changed, but not whose they are. -/
def SameIds (mem : ι → VCookie) (s : Heap ι) : Prop :=
  ∀ cookie, (s.mem cookie).id = (mem cookie).id

theorem sameIds_loadTurn {s : Heap ι} (same : SameIds mem s) (cookie : ι) :
    SameIds mem (loadTurn (loadVCookie lcb bucket junk) callback s cookie) := by
  intro other
  by_cases at' : other = cookie
  · subst at'
    simp only [loadTurn, Function.update_self, id_loadVCookie]
    exact same other
  · simp only [loadTurn, Function.update_of_ne at']
    exact same other

/-- A response does to its receiver what a load does. -/
theorem bulkGetHandler_response {objects : String → Option ι} {s : Heap ι}
    (same : SameIds mem s) {cookie last : ι}
    (receiver : objects (keyOf mem cookie) = some last)
    (sameKey : keyOf mem last = keyOf mem cookie) :
    bulkGetHandler junk callback objects s (response lcb bucket mem cookie) =
      some (loadTurn (loadVCookie lcb bucket junk) callback s last) := by
  have own : key (s.mem last).id = keyOf mem cookie := by
    rw [same last]
    exact sameKey
  simp only [bulkGetHandler, response, receiver, loadTurn, loadVCookie, own]
  cases lcb.get bucket (keyOf mem cookie) with
  | ok buffer => rfl
  | error error => simp only [Function.update_eq_self, Except.isOk, Except.toBool]

/-- Delivering responses is the loop of the base class over their receivers. -/
theorem foldlM_bulkGetHandler {s : Heap ι} (same : SameIds mem s)
    {responses : List (String × Except LcbError Bytes)}
    (each : ∀ resp ∈ responses, ∃ cookie ∈ cookies, response lcb bucket mem cookie = resp) :
    responses.foldlM (bulkGetHandler junk callback (objects mem cookies)) s =
      some (run (loadTurn (loadVCookie lcb bucket junk) callback) s
        (receivers mem cookies responses)) := by
  induction responses generalizing s with
  | nil => rfl
  | cons resp responses ih =>
      rcases List.forall_mem_cons.mp each with ⟨⟨cookie, member, rfl⟩, rest⟩
      rcases objects_keyOf mem member with ⟨last, among, receiver, sameKey⟩
      have first : receivers mem cookies (response lcb bucket mem cookie :: responses) =
          last :: receivers mem cookies responses :=
        List.filterMap_cons_some receiver
      rw [List.foldlM_cons, bulkGetHandler_response same receiver sameKey, first, run_cons]
      exact ih (sameIds_loadTurn same last) rest

/-- A batch load is the loop of the base class over the receivers. -/
theorem loadVCookies_eq_loop {responses : List (String × Except LcbError Bytes)}
    (delivered : Delivered lcb bucket mem cookies responses) :
    loadVCookies junk callback mem cookies responses =
      some (VCookieStore.loadVCookies (loadVCookie lcb bucket junk) callback mem
        (receivers mem cookies responses)) := by
  have each : ∀ resp ∈ responses, ∃ cookie ∈ cookies, response lcb bucket mem cookie = resp :=
    fun resp member => List.mem_map.mp (delivered.subset member)
  have start : SameIds mem ⟨mem, []⟩ := fun _ => rfl
  rw [loadVCookies, foldlM_bulkGetHandler start each]
  rfl

theorem mem_loop (callback : Bool) (load : VCookie → VCookie × Bool) (mem : ι → VCookie)
    (labels : List ι) :
    (VCookieStore.loadVCookies load callback mem labels).mem =
      run (onCell fun _ c => (load c).1) mem labels :=
  run_map (fun _ _ => rfl) (⟨mem, []⟩ : Heap ι) labels

/-- The callback of the loop is called once for each cookie. -/
theorem callbacks_loop (labels : List ι) :
    (VCookieStore.loadVCookies (loadVCookie lcb bucket junk) callback mem labels).callbacks =
      if callback then
        labels.map fun cookie => ((lcb.get bucket (keyOf mem cookie)).isOk, cookie)
      else [] := by
  have general : ∀ labels (s : Heap ι), SameIds mem s →
      (run (loadTurn (loadVCookie lcb bucket junk) callback) s labels).callbacks =
        s.callbacks ++ if callback then
          labels.map fun cookie => ((lcb.get bucket (keyOf mem cookie)).isOk, cookie)
        else [] := by
    intro labels
    induction labels with
    | nil =>
        intro s same
        cases callback <;> simp
    | cons label labels ih =>
        intro s same
        rw [run_cons, ih _ (sameIds_loadTurn same label)]
        simp only [loadTurn, snd_loadVCookie, same label]
        cases callback <;> simp [keyOf]
  exact general labels ⟨mem, []⟩ fun _ => rfl

/-- A batch load does what loading one by one does exactly when no two cookies of
the batch have the same user. -/
theorem loadsAsLoop_iff (lcb : Lcb σ) (bucket : σ) (junk : UInt8) (mem : ι → VCookie)
    (cookies : List ι) :
    LoadsAsLoop lcb bucket junk mem cookies ↔
      ∀ cookie ∈ cookies, ∀ other ∈ cookies,
        (mem cookie).id.userid = (mem other).id.userid → cookie = other := by
  constructor
  · intro agrees cookie member other otherMember sameUser
    have delivered : Delivered lcb bucket mem cookies _ := List.Perm.refl _
    rcases agrees true _ delivered with ⟨s, result, -, callbacks⟩
    rw [loadVCookies_eq_loop delivered] at result
    cases result
    rw [callbacks_loop, callbacks_loop, if_pos rfl, if_pos rfl] at callbacks
    have received := callbacks.map Prod.snd
    simp only [List.map_map, Function.comp_def, List.map_id'] at received
    have own {cookie : ι} (member : cookie ∈ cookies) :
        objects mem cookies (keyOf mem cookie) = some cookie := by
      have receives := (receivers_perm delivered).subset (received.symm.subset member)
      rcases List.mem_filterMap.mp receives with ⟨sender, sends, receiver⟩
      rcases objects_keyOf mem sends with ⟨last, -, found, sameKey⟩
      cases found.symm.trans receiver
      rwa [sameKey]
    have sameKey : keyOf mem cookie = keyOf mem other := key_inj.mpr sameUser
    exact Option.some.inj ((own member).symm.trans (sameKey ▸ own otherMember))
  · intro distinct callback responses delivered
    have own : ∀ cookie ∈ cookies, objects mem cookies (keyOf mem cookie) = some cookie := by
      intro cookie member
      rcases objects_keyOf mem member with ⟨last, among, receiver, sameKey⟩
      rw [receiver, distinct last among cookie member (key_inj.mp sameKey)]
    have order : (receivers mem cookies responses).Perm cookies := by
      have perm := receivers_perm delivered
      rwa [List.filterMap_congr own, List.filterMap_some] at perm
    refine ⟨_, loadVCookies_eq_loop delivered, ?_, ?_⟩
    · rw [mem_loop, mem_loop, run_onCell_perm order]
    · rw [callbacks_loop, callbacks_loop]
      cases callback
      · rfl
      · exact order.map _

end Loading

/-- Two visitors of one user, of whom the first is neither loaded nor reported. -/
theorem firstOfUser_not_loaded :
    let mem (cookie : Bool) := VCookie.fresh ⟨1, 0, if cookie then 1 else 0⟩ false
    let visited := VCookie.mutate (VCookie.fresh ⟨1, 0, 0⟩ true) (.setLastVisitNum 3)
    let saved : IndexedCookie := ⟨visited, VCookie.indexed_fresh ⟨1, 0, 0⟩ true⟩
    let bucket := (mapLcb.store (fun _ => none) "1" (serialized saved true)).1
    let loop := VCookieStore.loadVCookies (loadVCookie mapLcb bucket 0) true mem [false, true]
    let batch := loadVCookies 0 true mem [false, true]
      ([false, true].map (response mapLcb bucket mem))
    (loop.mem false).lastVisitNum = 3 ∧ loop.callbacks = [(true, false), (true, true)] ∧
      batch.map (fun s => (s.mem false).lastVisitNum) = some 0 ∧
      batch.map Heap.callbacks = some [(true, true), (true, true)] ∧
      ¬ LoadsAsLoop mapLcb bucket 0 mem [false, true] := by
  intro mem visited saved bucket loop batch
  have sequential : (loop.mem false).lastVisitNum = 3 := by decide +kernel
  have reported : loop.callbacks = [(true, false), (true, true)] := by decide +kernel
  have unloaded : batch.map (fun s => (s.mem false).lastVisitNum) = some 0 := by decide +kernel
  have unreported : batch.map Heap.callbacks = some [(true, true), (true, true)] := by
    decide +kernel
  constructor
  · exact sequential
  constructor
  · exact reported
  constructor
  · exact unloaded
  constructor
  · exact unreported
  · intro agrees
    rcases agrees true _ (List.Perm.refl _) with ⟨s, result, same, -⟩
    change batch = some s at result
    rw [result, Option.map_some, same] at unloaded
    exact absurd (sequential.symm.trans (Option.some.inj unloaded)) (by decide)

/-! ## Saving -/

/-- `bulk_cookie`. -/
structure BulkCookie (ι : Type) where
  objects : String → Option ι
  callback : Bool

/-- A batch that is being saved: the errors of the commands submitted so far, the
`retval` that each command points to, and the calls of the callback. -/
structure Saving (σ ι : Type) where
  bucket : σ
  bc : BulkCookie ι
  errors : List LcbError
  retval : Nat → Option Bool
  callbacks : List (Bool × ι)

/-- One turn of the loop of `SaveVCookies`. -/
def submitTurn (mem : ι → IndexedCookie) (s : Saving σ ι) (cookie : ι) : Saving σ ι :=
  let key := key (mem cookie).1.id
  let stored := lcb.store s.bucket key (serialized (mem cookie) true)
  { s with
    bucket := stored.1
    bc := { s.bc with objects := Function.update s.bc.objects key (some cookie) }
    errors := s.errors ++ [stored.2] }

/-- All commands of a batch, submitted in its order. -/
def submit (mem : ι → IndexedCookie) (cookies : List ι) : Saving σ ι :=
  run (submitTurn lcb mem)
    { bucket := bucket
      bc := ⟨fun _ => none, callback⟩
      errors := []
      retval := fun _ => none
      callbacks := [] }
    cookies

/-- `bulk_store_handler` for the command of a number. -/
def bulkStoreHandler (s : Saving σ ι) (resp : LcbError × Nat) : Saving σ ι :=
  { s with retval := Function.update s.retval resp.2 (some (resp.1 = .success)) }

/-- `SaveVCookies`, given the commands in the order that the handler is told. -/
def saveVCookies (mem : ι → IndexedCookie) (cookies : List ι)
    (responses : List (LcbError × Nat)) : Saving σ ι :=
  run bulkStoreHandler (submit lcb bucket callback mem cookies) responses

/-- In whatever order the handler is called, the batch does what the loop of the
base class does. -/
def SavesAsLoop (mem : ι → IndexedCookie) (cookies : List ι) : Prop :=
  ∀ responses, responses.Perm (submit lcb bucket callback mem cookies).errors.zipIdx →
    let s := saveVCookies lcb bucket callback mem cookies responses
    let loop := VCookieStore.saveVCookies (saveVCookie lcb) callback mem bucket cookies
    s.bucket = loop.1 ∧ s.callbacks.Perm loop.2

section Saving

variable {lcb bucket callback} {mem : ι → IndexedCookie} {cookies : List ι}

/-- The handler touches nothing that is looked at afterwards. -/
theorem saveVCookies_eq_submit (responses : List (LcbError × Nat)) :
    let s := saveVCookies lcb bucket callback mem cookies responses
    let sent := submit lcb bucket callback mem cookies
    s.bucket = sent.bucket ∧ s.callbacks = sent.callbacks :=
  @run_invariant _ _ bulkStoreHandler
    (fun s => s.bucket = (submit lcb bucket callback mem cookies).bucket ∧
      s.callbacks = (submit lcb bucket callback mem cookies).callbacks)
    (fun _ _ same => same) _ ⟨rfl, rfl⟩ responses

theorem callbacks_submit : (submit lcb bucket callback mem cookies).callbacks = [] :=
  @run_invariant _ _ (submitTurn lcb mem) (fun s => s.callbacks = []) (fun _ _ none => none) _ rfl
    cookies

/-- The commands leave in the bucket what saving one by one leaves. -/
theorem bucket_submit :
    (submit lcb bucket callback mem cookies).bucket =
      (VCookieStore.saveVCookies (saveVCookie lcb) callback mem bucket cookies).1 := by
  let turn (bucket : σ) (cookie : ι) : σ := (saveVCookie lcb bucket (mem cookie)).1
  have sent : (submit lcb bucket callback mem cookies).bucket = run turn bucket cookies :=
    @run_map _ _ _ (submitTurn lcb mem) turn Saving.bucket (fun _ _ => rfl) _ cookies
  have looped : (VCookieStore.saveVCookies (saveVCookie lcb) callback mem bucket cookies).1 =
      run turn bucket cookies :=
    @run_map _ _ _ (saveTurn (saveVCookie lcb) callback mem) turn Prod.fst (fun _ _ => rfl)
      (bucket, []) cookies
  rw [sent, looped]

/-- The loop calls its callback once for each cookie. -/
theorem callbacks_saveLoop (save : σ → IndexedCookie → σ × Bool) (callback : Bool)
    (mem : ι → IndexedCookie) (store : σ) (cookies : List ι) :
    (VCookieStore.saveVCookies save callback mem store cookies).2.map Prod.snd =
      if callback then cookies else [] := by
  induction cookies using List.reverseRecOn with
  | nil => cases callback <;> rfl
  | append_singleton cookies last ih =>
      rw [VCookieStore.saveVCookies] at ih ⊢
      rw [run_concat, saveTurn]
      cases callback
      · exact ih
      · simpa using ih

/-- A batch save does what saving one by one does exactly when there is nobody to
call or nothing to save. -/
theorem savesAsLoop_iff (lcb : Lcb σ) (bucket : σ) (callback : Bool) (mem : ι → IndexedCookie)
    (cookies : List ι) :
    SavesAsLoop lcb bucket callback mem cookies ↔ callback = false ∨ cookies = [] := by
  have reported := callbacks_saveLoop (saveVCookie lcb) callback mem bucket cookies
  constructor
  · intro agrees
    have silent := (agrees _ (List.Perm.refl _)).2
    rw [(saveVCookies_eq_submit _).2, callbacks_submit] at silent
    rw [silent.nil_eq.symm, List.map_nil] at reported
    cases callback
    · exact Or.inl rfl
    · exact Or.inr reported.symm
  · intro quiet responses _
    have silent : (if callback then cookies else []) = [] := by
      rcases quiet with rfl | rfl
      · rfl
      · exact ite_self _
    rw [silent] at reported
    constructor
    · rw [(saveVCookies_eq_submit _).1, bucket_submit]
    · rw [(saveVCookies_eq_submit _).2, callbacks_submit, List.map_eq_nil_iff.mp reported]

/-- A save that the server refuses, and nobody is told. -/
theorem refused_save_unreported :
    let refusing : Lcb (String → Option Bytes) :=
      { mapLcb with store := fun bucket _ _ => (bucket, .other) }
    let mem (_ : Unit) : IndexedCookie :=
      ⟨VCookie.fresh ⟨1, 2, 3⟩ true, VCookie.indexed_fresh ⟨1, 2, 3⟩ true⟩
    let sent := submit refusing (fun _ => none) true mem [()]
    let batch := saveVCookies refusing (fun _ => none) true mem [()] sent.errors.zipIdx
    let loop := VCookieStore.saveVCookies (saveVCookie refusing) true mem (fun _ => none) [()]
    loop.2 = [(false, ())] ∧ batch.retval 0 = some false ∧ batch.callbacks = [] ∧
      ¬ SavesAsLoop refusing (fun _ => none) true mem [()] := by
  intro refusing mem sent batch loop
  constructor
  · exact rfl
  constructor
  · exact rfl
  constructor
  · exact rfl
  · intro agrees
    have silent := (agrees _ (List.Perm.refl _)).2.length_eq
    exact absurd silent (by decide)

end Saving

end VCCouchbaseStore

end Elevator
