import Elevator.Codec.Decoding
import Elevator.Codec.DirtyFlag
import Elevator.Codec.Calls
import Elevator.Store.InMemory

/-!
# Retrieval by index

`VCStoreInMemory::GetVCookie` resets the caller's cookie and decodes a record into
it.  Every record is written without its last-hit time, so decoding leaves the time
that is kept beside the blob, and no flag that the cookie comes with matters.  The
walk to the record compares the index with a counter that it never advances, so it
ends for the first record only.
-/

namespace Elevator

open Wire Transition Ordered RelVarTable VCookie

namespace VCookieStore

/-! ## The last-hit time beside the blob -/

/-- Field 2 does not follow the first field of a record saved without it. -/
theorem opensAbove_serializeFields (c : VCookie) :
    ∃ rest, serializeFields c false ++ u8.put 0 = timeField 1 c.getFirstHitTimeGMT ++ rest ∧
      ∀ after, OpensAbove 2 (rest ++ after) := by
  refine ⟨_, by rw [serializeFields, List.append_assoc], fun after => ?_⟩
  simp only [Bool.false_eq_true, if_false, List.nil_append, List.append_assoc]
  apply opensAbove_addField i64 0 _ (by decide)
  apply opensAbove_addField u32 0 _ (by decide)
  apply opensAbove_addField i64 0 _ (by decide)
  apply opensAbove_addField text [] _ (by decide)
  apply opensAbove_addField text [] _ (by decide)
  apply opensAbove_addField text [] _ (by decide)
  apply opensAbove_addField u32 0 _ (by decide)
  apply opensAbove_addField text [] _ (by decide)
  apply opensAbove_purchaseField c
  exact ⟨0, after, rfl, Or.inl rfl⟩

/-- Reading the first field of such a record leaves a byte other than 2 ahead. -/
theorem next_ne_two {c : VCookie} {next : UInt8} {b : Nat}
    (read : u8.read (encode c false) 7 = some (next, b)) {s : Cursor (List Call)}
    (first : readField traceSetters (encode c false) i64 1 .setFirstHitTimeGMT ⟨[], b, next⟩ =
      .ok s) : s.next ≠ 2 := by
  obtain ⟨rest, fields, opens⟩ := opensAbove_serializeFields c
  have above := opens (encodeVars c.countedVars)
  have stands : (encode c false).drop 7 =
      timeField 1 c.getFirstHitTimeGMT ++ (rest ++ encodeVars c.countedVars) := by
    rw [encode, encodeFields, fields, List.append_assoc]
    exact (List.drop_left' (by simp [length_u32_put])).trans (List.append_assoc ..)
  have reader : Consumes (encode c false)
      (readField traceSetters (encode c false) i64 1 .setFirstHitTimeGMT) 0 1
      (timeField 1 c.getFirstHitTimeGMT) _ :=
    consumes_readField trivial _ (by decide) (by decide) _
  have above' : OpensAbove 1 (rest ++ encodeVars c.countedVars) := above.mono (by decide)
  obtain ⟨next', behind, opensAt, _⟩ := reader.opens _ above'
  obtain ⟨read', stands'⟩ := u8_read_of_drop (stands.trans opensAt)
  rw [read] at read'
  cases read'
  obtain ⟨s', result, standsNext, _⟩ :=
    reader.reads ⟨[], 8, next⟩ _ above' ((congrArg (next :: ·) stands').trans opensAt.symm)
  rw [first] at result
  cases result
  obtain ⟨following, _, opensNext, behindField⟩ := above
  obtain ⟨rfl, _⟩ := List.cons.inj (standsNext.trans opensNext)
  rcases behindField with zero | greater
  · rw [zero]
    decide
  · exact (UInt8.ne_of_lt greater).symm

/-- The call is not the setter of the last-hit time. -/
def Call.KeepsLastHitTime (call : Call) : Prop :=
  ∀ t, call ≠ .mutate (.setLastHitTimeGMT t)

/-- The calls that decode such a record keep the last-hit time. -/
theorem keepsLastHitTime_of_mem_scan (c : VCookie) :
    ∀ call ∈ (scan (encode c false)).1, call.KeepsLastHitTime := by
  have concat {calls : List Call} {last : Call} (all : ∀ call ∈ calls, call.KeepsLastHitTime)
      (keeps : last.KeepsLastHitTime) : ∀ call ∈ calls ++ [last], call.KeepsLastHitTime :=
    List.forall_mem_append.mpr ⟨all, List.forall_mem_singleton.mpr keeps⟩
  have vars : KeptByVars traceSetters fun calls => ∀ call ∈ calls, call.KeepsLastHitTime :=
    ⟨fun _ _ all => concat all (by simp [Call.KeepsLastHitTime]),
      fun all => concat all (by simp [Call.KeepsLastHitTime])⟩
  have fields (next : UInt8) (b : Nat) (read : u8.read (encode c false) 7 = some (next, b)) :
      ∀ call ∈ leftBy Cursor.cookie (readFields traceSetters (encode c false) ⟨[], b, next⟩),
        call.KeepsLastHitTime := by
    apply @keeps_readFields _ traceSetters fun calls => ∀ call ∈ calls, call.KeepsLastHitTime
    · intro calls m _ other all
      exact concat all fun t same => other t (Call.mutate.inj same)
    · exact List.forall_mem_nil _
    · exact fun s first second => absurd second (next_ne_two read first)
  have left := keeps_decode_of_fields vars 0 (encode c false) (List.forall_mem_nil _) fields
  unfold scan
  cases result : decode traceSetters 0 [] (encode c false) <;> rwa [result] at left

theorem lastHitTimeGMT_replay (c : VCookie) {calls : List Call}
    (keep : ∀ call ∈ calls, call.KeepsLastHitTime) :
    (replay c calls).lastHitTimeGMT = c.lastHitTimeGMT := by
  refine @run_invariant_of_forall _ _ applyCall (fun d => d.lastHitTimeGMT = c.lastHitTimeGMT)
    Call.KeepsLastHitTime (fun d call keeps same => ?_) c rfl calls keep
  have step := congrArg Profile.lastHitTimeGMT (profile_applyCall d call)
  refine Eq.trans (step.trans ?_) same
  cases call with
  | mutate m =>
      cases m with
      | setLastHitTimeGMT t => exact absurd rfl (keeps t)
      | _ => rfl
  | setVar rid rv allocType maxLinear => rfl
  | append rid rv => rfl

/-! ## Flags under replay -/

theorem lowered_applyCall (c : VCookie) (call : Call) :
    (applyCall c call).lowered = (applyCall c.lowered call).lowered := by
  cases call with
  | mutate m => exact lowered_mutate c m
  | setVar rid rv allocType maxLinear => exact lowered_setVar c ..
  | append rid rv => exact lowered_addLinearElement c ..

/-- Cookies alike but for their flags stay so. -/
theorem lowered_replay {c c' : VCookie} (alike : c.lowered = c'.lowered) (calls : List Call) :
    (replay c calls).lowered = (replay c' calls).lowered := by
  have step (c : VCookie) : (replay c calls).lowered =
      run (fun d call => (applyCall d call).lowered) c.lowered calls :=
    run_map lowered_applyCall c calls
  rw [step c, step c', alike]

end VCookieStore

namespace VCStoreInMemory

open VCookieStore

/-! ## The walk -/

/-- The loop of `GetVCookie`, which advances the iterator `v` but not `i`. -/
def walk (index i : Nat) : Nat → Nat → Option Nat
  | 0, _ => none
  | fuel + 1, v => if i < index then walk index i fuel (v + 1) else some v

/-- `GetVCookie` with fuel for its loop. -/
def getVCookie (fuel : Nat) (store : StoreMap) (junk : UInt8) (vcookie : VCookie) (index : Nat) :
    Option (VCookie × Bool) :=
  if index ≥ store.size then
    some (vcookie, false)
  else
    (walk index 0 fuel 0).bind fun v =>
      store.inorder[v]?.map fun entry => loadRecord junk (some entry.2) (vcookie.reset entry.1)

/-- No fuel takes the walk to an index other than zero. -/
theorem walk_eq_none {index : Nat} (positive : 0 < index) (fuel v : Nat) :
    walk index 0 fuel v = none := by
  induction fuel generalizing v with
  | zero => rfl
  | succ fuel ih => rw [walk, if_pos positive, ih]

/-- A call for an index behind the first record never ends. -/
theorem getVCookie_eq_none {store : StoreMap} {index : Nat} (positive : 0 < index)
    (inside : index < getVCookieCount store) (fuel : Nat) (junk : UInt8) (vcookie : VCookie) :
    getVCookie fuel store junk vcookie index = none := by
  have below : ¬ index ≥ store.size := Nat.not_le.mpr inside
  rw [getVCookie, if_neg below, walk_eq_none positive, Option.bind_none]

/-- A call for the first record loads it. -/
theorem getVCookie_zero {store : StoreMap} {entry : VCookieId × ValuePair}
    (first : store.inorder[0]? = some entry) (junk : UInt8) (vcookie : VCookie) :
    getVCookie 1 store junk vcookie 0 =
      some (loadRecord junk (some entry.2) (vcookie.reset entry.1)) := by
  have inside := (List.getElem?_eq_some_iff.mp first).1
  rw [SearchTree.length_inorder] at inside
  have below : ¬ 0 ≥ store.size := Nat.not_le.mpr inside
  rw [getVCookie, if_neg below, walk, if_neg (Nat.lt_irrefl 0), Option.bind_some, first,
    Option.map_some]

/-! ## Records -/

/-- The record of a saved cookie is in the store. -/
def Written (entry : VCookieId × ValuePair) : Prop :=
  ∃ vcookie, entry.2 = record vcookie

/-- Every record of a store is one that some save left. -/
theorem written_run (ops : List StoreOp) :
    ∀ entry ∈ (run Recorded.step .empty ops).store.inorder, Written entry := by
  refine @run_invariant _ _ Recorded.step (fun s => ∀ entry ∈ s.store.inorder, Written entry)
    (fun s op written entry member => ?_) .empty (List.forall_mem_nil _) ops
  cases op with
  | save vcookie =>
      rcases SearchTree.mem_inorder_assign_insert member with old | new
      · exact written entry old
      · exact ⟨vcookie, new⟩
  | delete vcookie =>
      apply written
      change entry ∈ (s.store.erase VCookieId.lt vcookie.id).1.inorder at member
      rw [SearchTree.erase] at member
      split at member
      · exact member
      · rw [SearchTree.inorder_eraseAt] at member
        exact List.mem_of_mem_eraseIdx member
  | deleteOld t =>
      apply written
      have kept := (deleteOldLoop_spec t s.store 0 0).1
      change entry ∈ (deleteOldLoop t s.store 0 0).1.inorder at member
      rw [kept] at member
      simp only [List.take_zero, List.nil_append, List.drop_zero] at member
      exact List.mem_of_mem_filter member

/-- The result holds the id, the time and the decoded content of the record, whatever
flags the cookie came with. -/
structure HoldsRecord (junk : UInt8) (entry : VCookieId × ValuePair) (result : VCookie × Bool) :
    Prop where
  id : result.1.id = entry.1
  lastHitTimeGMT : result.1.getLastHitTimeGMT = entry.2.1
  content : result.1.lowered =
    (loadRecord junk (some entry.2) (VCookie.fresh entry.1 false)).1.lowered
  verdict : result.2 = (loadRecord junk (some entry.2) (VCookie.fresh entry.1 false)).2

/-- A record that was written is decoded alike into every cookie that is reset. -/
theorem holdsRecord_reset {entry : VCookieId × ValuePair} (written : Written entry) (junk : UInt8)
    (vcookie : VCookie) :
    HoldsRecord junk entry (loadRecord junk (some entry.2) (vcookie.reset entry.1)) := by
  obtain ⟨id, lastHitTimeGMT, buffer⟩ := entry
  obtain ⟨saved, written⟩ := written
  obtain ⟨rfl, rfl⟩ := Prod.mk.inj written
  have blob : serialized saved false = encode saved.1 false := by
    simp only [serialized, serialize_eq saved.2, Option.get_some]
  have load (c : VCookie) (empty : c.toRelVarTable = ⟨[], []⟩) :
      loadRecord junk (some (record saved)) c =
        (replay (c.setLastHitTimeGMT saved.1.getLastHitTimeGMT) (scan (encode saved.1 false)).1,
          (scan (encode saved.1 false)).2) := by
    have indexed : (c.setLastHitTimeGMT saved.1.getLastHitTimeGMT).toRelVarTable.Indexed := by
      change c.toRelVarTable.Indexed
      rw [empty]
      exact indexed_empty
    rw [record, loadRecord, blob, deserialize_eq_replay indexed]
  have intoReset := load (vcookie.reset id) rfl
  have intoFresh := load (VCookie.fresh id false) rfl
  change HoldsRecord junk (id, record saved) (loadRecord junk (some (record saved)) _)
  rw [intoReset]
  constructor
  · exact id_replay _ _
  · exact lastHitTimeGMT_replay _ (keepsLastHitTime_of_mem_scan saved.1)
  · have alike : ((vcookie.reset id).setLastHitTimeGMT saved.1.getLastHitTimeGMT).lowered =
        ((VCookie.fresh id false).setLastHitTimeGMT saved.1.getLastHitTimeGMT).lowered := rfl
    rw [intoFresh]
    exact lowered_replay alike _
  · rw [intoFresh]

/-- A call for the index ends; below the count it leaves the record at the index in the
cookie, and from the count on it leaves the cookie alone. -/
def Retrieves (store : StoreMap) (index : Nat) : Prop :=
  ∀ junk vcookie, ∃ fuel result, getVCookie fuel store junk vcookie index = some result ∧
    (∀ entry, store.inorder[index]? = some entry → HoldsRecord junk entry result) ∧
    (getVCookieCount store ≤ index → result = (vcookie, false))

/-- A store is retrieved from exactly at its first record and from its end on. -/
theorem retrieves_iff (ops : List StoreOp) (index : Nat) :
    let store := (run Recorded.step .empty ops).store
    Retrieves store index ↔ index = 0 ∨ getVCookieCount store ≤ index := by
  intro store
  constructor
  · intro retrieves
    obtain ⟨fuel, result, returned, _⟩ := retrieves 0 (VCookie.fresh ⟨0, 0, 0⟩ false)
    by_contra neither
    obtain ⟨notFirst, inside⟩ := not_or.mp neither
    rw [getVCookie_eq_none (Nat.pos_of_ne_zero notFirst) (Nat.lt_of_not_le inside)] at returned
    cases returned
  · intro either junk vcookie
    by_cases behind : getVCookieCount store ≤ index
    · have none : store.inorder[index]? = none := by
        rw [List.getElem?_eq_none_iff, SearchTree.length_inorder]
        exact behind
      exact ⟨0, (vcookie, false), if_pos behind, by simp [none], fun _ => rfl⟩
    · obtain rfl := either.resolve_right behind
      have inside : 0 < store.inorder.length := by
        rw [SearchTree.length_inorder]
        exact Nat.lt_of_not_le behind
      have first : store.inorder[0]? = some store.inorder[0] := List.getElem?_eq_getElem inside
      have holds := holdsRecord_reset (written_run ops _ (List.getElem_mem inside)) junk vcookie
      refine ⟨1, _, getVCookie_zero first junk vcookie, ?_, fun outside => absurd outside behind⟩
      intro entry here
      cases first.symm.trans here
      exact holds

/-- The second of two records is never retrieved. -/
theorem second_not_retrieved :
    let first : IndexedCookie := ⟨VCookie.fresh ⟨1, 1, 1⟩ true, VCookie.indexed_fresh _ _⟩
    let second : IndexedCookie := ⟨VCookie.fresh ⟨2, 1, 1⟩ true, VCookie.indexed_fresh _ _⟩
    let store := (run Recorded.step .empty [.save first, .save second]).store
    getVCookieCount store = 2 ∧
      (∀ fuel junk vcookie, getVCookie fuel store junk vcookie 1 = none) ∧ ¬ Retrieves store 1 := by
  intro first second store
  have count : getVCookieCount store = 2 := by decide +kernel
  have inside : 1 < getVCookieCount store := by rw [count]; decide
  have endless := @getVCookie_eq_none store 1 Nat.one_pos inside
  constructor
  · exact count
  constructor
  · exact endless
  · intro retrieves
    obtain ⟨fuel, result, returned, _⟩ := retrieves 0 (VCookie.fresh ⟨0, 0, 0⟩ false)
    rw [endless] at returned
    cases returned

end VCStoreInMemory

end Elevator
