import Elevator.Codec.Deserialize
import Elevator.Cookie.Profile

/-!
# The decoder as a parser

The control flow of the decoder never depends on the cookie it writes to.
Driving it with setters that only record their calls turns it into a parser,
`scan`, from a buffer to a list of calls and a verdict.  On a well-indexed cookie
`Deserialize` is the replay of that list, so what holds of every call holds of
the decoder on every buffer, accepted or not.
-/

namespace Elevator

open Wire Transition RelVarTable

namespace VCookieStore

/-- A call made by the decoder.  An append names the relation whose handle it
passes. -/
inductive Call
  | mutate (m : Mutator)
  | setVar (rid : RelationId) (rv : RelVar) (allocType : AllocationType) (maxLinear : UInt32)
  | append (rid : RelationId) (rv : RelVar)
  deriving DecidableEq, Repr

/-- Record the calls; the handle of a linear variable is its relation id. -/
def traceSetters : Setters (List Call) where
  mutate calls m := calls ++ [.mutate m]
  setVar calls rid rv allocType maxLinear :=
    (calls ++ [.setVar rid rv allocType maxLinear],
      if allocType = .linear ∧ rv.value ≠ [] then rid.toNat else varNotSet)
  addLinearElement calls vid rv := calls ++ [.append (UInt16.ofNat vid) rv]

/-- The calls a buffer makes, and whether it is accepted. -/
def scan (buffer : Bytes) : List Call × Bool :=
  match decode traceSetters 0 [] buffer with
  | .error calls => (calls, false)
  | .ok calls => (calls, true)

def applyCall (c : VCookie) : Call → VCookie
  | .mutate m => c.mutate m
  | .setVar rid rv allocType maxLinear =>
      (c.setVar rid rv.value rv.timestamp rv.revision allocType maxLinear).1
  | .append rid rv =>
      c.addLinearElement (c.findRelationId rid) rv.value rv.timestamp rv.revision

def replay (c : VCookie) (calls : List Call) : VCookie :=
  run applyCall c calls

theorem replay_concat (c : VCookie) (calls : List Call) (last : Call) :
    replay c (calls ++ [last]) = applyCall (replay c calls) last :=
  run_concat applyCall c calls last

theorem replay_append (c : VCookie) (first second : List Call) :
    replay c (first ++ second) = replay (replay c first) second :=
  run_append applyCall c first second

theorem indexed_applyCall {c : VCookie} (indexed : c.toRelVarTable.Indexed) (call : Call) :
    (applyCall c call).toRelVarTable.Indexed := by
  cases call with
  | mutate m => exact VCookie.indexed_mutate indexed m
  | setVar rid rv allocType maxLinear => exact VCookie.indexed_setVar indexed ..
  | append rid rv => exact VCookie.indexed_addLinearElement indexed ..

theorem indexed_replay {c : VCookie} (indexed : c.toRelVarTable.Indexed) (calls : List Call) :
    (replay c calls).toRelVarTable.Indexed :=
  @run_invariant _ _ applyCall (fun c => c.toRelVarTable.Indexed)
    (fun _ call kept => indexed_applyCall kept call) c indexed calls

/-! ## The profile under replay -/

/-- The effect of a call on the profile. -/
def profileCall (p : Profile) : Call → Profile
  | .mutate m => p.mutate m
  | .setVar .. => p
  | .append .. => p

theorem profile_applyCall (c : VCookie) (call : Call) :
    (applyCall c call).profile = profileCall c.profile call := by
  cases call with
  | mutate m => exact VCookie.profile_mutate c m
  | setVar rid rv allocType maxLinear => exact VCookie.ignoresVars_profile.setVar c ..
  | append rid rv => exact VCookie.ignoresVars_profile.addLinearElement c ..

theorem profile_replay (c : VCookie) (calls : List Call) :
    (replay c calls).profile = run profileCall c.profile calls :=
  run_map profile_applyCall c calls

theorem id_replay (c : VCookie) (calls : List Call) : (replay c calls).id = c.id := by
  refine @run_invariant _ _ applyCall (fun d => d.id = c.id) (fun d call same => ?_) c rfl calls
  refine Eq.trans ?_ same
  cases call with
  | mutate m => exact VCookie.id_mutate d m
  | setVar rid rv allocType maxLinear => exact VCookie.ignoresVars_id.setVar d ..
  | append rid rv => exact VCookie.ignoresVars_id.addLinearElement d ..

theorem purchaseIdsKept_replay {c : VCookie} (kept : VCookie.PurchaseIdsKept c.purchaseIds)
    (calls : List Call) : VCookie.PurchaseIdsKept (replay c calls).purchaseIds := by
  refine @run_invariant _ _ applyCall (fun d => VCookie.PurchaseIdsKept d.purchaseIds)
    (fun d call kept => ?_) c kept calls
  have ids : (applyCall d call).purchaseIds = (profileCall d.profile call).purchaseIds :=
    congrArg Profile.purchaseIds (profile_applyCall d call)
  rw [ids]
  cases call with
  | mutate m => exact Profile.purchaseIdsKept_mutate kept m
  | setVar rid rv allocType maxLinear => exact kept
  | append rid rv => exact kept

/-! ## Decoding under a change of setters -/

section Map

variable {σ τ α β : Type}

/-- Map the cookie of a failed decode by `f` and a result by `g`. -/
def mapDecode (f : τ → σ) (g : α → β) : Except τ α → Except σ β
  | .error cookie => .error (f cookie)
  | .ok result => .ok (g result)

/-- Map the cookie under a cursor. -/
def Cursor.map (f : τ → σ) (s : Cursor τ) : Cursor σ :=
  ⟨f s.cookie, s.b, s.next⟩

theorem bind_mapDecode {α' β' : Type} {f : τ → σ} {g : α → β} {g' : α' → β'}
    {x : Except τ α} {y : Except σ β} {k : α → Except τ α'} {k' : β → Except σ β'}
    (first : y = mapDecode f g x) (rest : ∀ a, k' (g a) = mapDecode f g' (k a)) :
    (y >>= k') = mapDecode f g' (x >>= k) := by
  subst first
  cases x with
  | error cookie => rfl
  | ok a => exact rest a

variable {setters : Setters σ} {setters' : Setters τ} {f : τ → σ}
  (commutes : ∀ cookie m, setters.mutate (f cookie) m = f (setters'.mutate cookie m))

include commutes

theorem readField_map (buffer : Bytes) (item : Item α) (field : UInt8) (set : α → Mutator)
    (s : Cursor τ) :
    readField setters buffer item field set (s.map f) =
      mapDecode f (Cursor.map f) (readField setters' buffer item field set s) := by
  by_cases present : s.next = field
  · simp only [readField, Cursor.map, present, if_true]
    cases item.read buffer s.b with
    | none => rfl
    | some result =>
        dsimp only
        rw [commutes]
        cases u8.read buffer result.2 <;> rfl
  · simp only [readField, Cursor.map, present, if_false]
    rfl

theorem readPurchaseLoop_map (buffer : Bytes) (count : Nat) (cookie : τ) (b : Nat) :
    readPurchaseLoop setters buffer count (f cookie) b =
      mapDecode f (Prod.map f id) (readPurchaseLoop setters' buffer count cookie b) := by
  induction count generalizing cookie b with
  | zero => rfl
  | succ count ih =>
      rw [readPurchaseLoop, readPurchaseLoop]
      cases text.read buffer b with
      | none => rfl
      | some result =>
          dsimp only
          rw [commutes, ih]

theorem readPurchaseIds_map (buffer : Bytes) (s : Cursor τ) :
    readPurchaseIds setters buffer (s.map f) =
      mapDecode f (Cursor.map f) (readPurchaseIds setters' buffer s) := by
  by_cases present : s.next = 11
  · simp only [readPurchaseIds, Cursor.map, present, if_true]
    cases u8.read buffer s.b with
    | none => rfl
    | some result =>
        dsimp only
        rw [readPurchaseLoop_map commutes]
        cases readPurchaseLoop setters' buffer result.1.toNat s.cookie result.2 with
        | error cookie => rfl
        | ok result =>
            simp only [mapDecode, Prod.map, id_eq]
            cases u8.read buffer result.2 <;> rfl
  · simp only [readPurchaseIds, Cursor.map, present, if_false]
    rfl

theorem readFields_map (buffer : Bytes) (s : Cursor τ) :
    readFields setters buffer (s.map f) =
      mapDecode f (Cursor.map f) (readFields setters' buffer s) := by
  unfold readFields
  apply bind_mapDecode (readField_map commutes ..)
  intro s
  apply bind_mapDecode (readField_map commutes ..)
  intro s
  apply bind_mapDecode (readField_map commutes ..)
  intro s
  apply bind_mapDecode (readField_map commutes ..)
  intro s
  apply bind_mapDecode (readField_map commutes ..)
  intro s
  apply bind_mapDecode (readField_map commutes ..)
  intro s
  apply bind_mapDecode (readField_map commutes ..)
  intro s
  apply bind_mapDecode (readField_map commutes ..)
  intro s
  apply bind_mapDecode (readField_map commutes ..)
  intro s
  apply bind_mapDecode (readField_map commutes ..)
  intro s
  exact readPurchaseIds_map commutes buffer s

end Map

/-! ## Handles -/

/-- `vid` is the handle of a relation that has an entry. -/
def Handle (table : RelVarTable) (rid : RelationId) (vid : Nat) : Prop :=
  vid = table.findRelationId rid ∧ vid < table.relVar.length ∧ vid ≠ varNotSet ∧
    (table.relVarAt vid).relationId = rid

theorem handle_of_mem {table : RelVarTable} (indexed : table.Indexed) {rv : RelVarImpl}
    (member : rv ∈ table.relVar) :
    Handle table rv.relationId (table.findRelationId rv.relationId) := by
  rcases indexed.findRelationId_of_mem member with ⟨inside, entry⟩
  refine ⟨rfl, inside, ?_, by rw [entry]⟩
  have small := indexed.length_le
  unfold varNotSet
  omega

/-- An index below the size of the table is the handle of its own relation. -/
theorem handle_of_lt {table : RelVarTable} (indexed : table.Indexed) {vid : Nat}
    (inside : vid < table.relVar.length) :
    Handle table (table.relVarAt vid).relationId vid := by
  have handle := handle_of_mem indexed (relVarAt_mem table inside)
  have entry := (indexed.findRelationId_of_mem (relVarAt_mem table inside)).2
  have same := indexed.index_inj handle.2.1 inside (congrArg RelVarImpl.relationId entry)
  rw [same] at handle
  exact handle

/-- An index is the handle of its relation also after an element was stored there. -/
theorem handle_storeVar {c : VCookie} {vid : Nat} (inside : vid < c.relVar.length)
    {element : RelVar} {allocType : AllocationType} {maxLinear : UInt32}
    (indexed : (c.storeVar vid element allocType maxLinear).1.toRelVarTable.Indexed) :
    Handle (c.storeVar vid element allocType maxLinear).1.toRelVarTable
      (c.toRelVarTable.relVarAt vid).relationId vid := by
  have stored : vid < (c.storeVar vid element allocType maxLinear).1.relVar.length := by
    rw [VCookie.storeVar, List.length_modify]
    exact inside
  have handle := handle_of_lt indexed stored
  rw [VCookie.storeVar_table, relVarAt_modifyEntry _ _ _ inside, if_pos rfl] at handle
  exact handle

/-- A linear `SetVar` returns the handle of its relation. -/
theorem handle_setVar {c : VCookie} (indexed : c.toRelVarTable.Indexed) (rid : RelationId)
    {val : Bytes} (nonempty : val ≠ []) (timestamp : TimeT) (revision : UInt8)
    (maxLinear : UInt32) :
    Handle (c.setVar rid val timestamp revision .linear maxLinear).1.toRelVarTable rid
      (c.setVar rid val timestamp revision .linear maxLinear).2 := by
  have indexed' := VCookie.indexed_setVar indexed rid val timestamp revision .linear maxLinear
  by_cases present : ∃ rv ∈ c.relVar, rv.relationId = rid
  · rcases present with ⟨rv, member, rfl⟩
    rcases indexed.findRelationId_of_mem member with ⟨inside, entry⟩
    rw [VCookie.setVar_of_mem indexed member nonempty, if_neg (by simp)] at indexed' ⊢
    have handle := handle_storeVar inside indexed'
    rw [entry] at handle
    exact handle
  · have absent : ∀ rv ∈ c.relVar, rv.relationId ≠ rid :=
      fun rv member same => present ⟨rv, member, same⟩
    rw [VCookie.setVar_of_absent indexed absent nonempty] at indexed' ⊢
    have inside : c.relVar.length <
        (c.insertRelation rid (c.findRelationPos rid)).relVar.length := by
      simp [VCookie.insertRelation]
    have newEntry : (c.insertRelation rid (c.findRelationPos rid)).relVarAt c.relVar.length =
        ⟨rid, false, []⟩ :=
      relVarAt_insertEntry_self c.toRelVarTable _ _
    have handle := handle_storeVar inside indexed'
    rw [newEntry] at handle
    exact handle

/-- Any other `SetVar` returns no handle. -/
theorem setVar_handle_of_not_linear {c : VCookie} (indexed : c.toRelVarTable.Indexed)
    {rid : RelationId} {val : Bytes} {timestamp : TimeT} {revision : UInt8}
    {allocType : AllocationType} {maxLinear : UInt32}
    (notLinear : ¬ (allocType = .linear ∧ val ≠ [])) :
    (c.setVar rid val timestamp revision allocType maxLinear).2 = varNotSet := by
  by_cases empty : val = []
  · rw [empty, VCookie.setVar_nil]
  · have other : allocType ≠ .linear := fun linear => notLinear ⟨linear, empty⟩
    by_cases present : ∃ rv ∈ c.relVar, rv.relationId = rid
    · rcases present with ⟨rv, member, rfl⟩
      rw [VCookie.setVar_of_mem indexed member empty]
      split
      · rfl
      · simp [VCookie.storeVar, other]
    · have absent : ∀ rv ∈ c.relVar, rv.relationId ≠ rid :=
        fun rv member same => present ⟨rv, member, same⟩
      rw [VCookie.setVar_of_absent indexed absent empty]
      simp [VCookie.storeVar, other]

/-- Appending through a handle keeps it valid. -/
theorem handle_addLinearElement {c : VCookie} (indexed : c.toRelVarTable.Indexed)
    {rid : RelationId} {vid : Nat} (handle : Handle c.toRelVarTable rid vid) (rv : RelVar) :
    Handle (c.addLinearElement vid rv.value rv.timestamp rv.revision).toRelVarTable rid vid := by
  rcases handle with ⟨_, inside, _, relation⟩
  have indexed' := VCookie.indexed_addLinearElement indexed vid rv.value rv.timestamp rv.revision
  have table := VCookie.addLinearElement_of_lt inside rv.value rv.timestamp rv.revision
  have inside' : vid <
      (c.addLinearElement vid rv.value rv.timestamp rv.revision).relVar.length := by
    rw [table]
    simpa [modifyEntry] using inside
  have handle' := handle_of_lt indexed' inside'
  rw [table, relVarAt_modifyEntry _ _ _ inside, if_pos rfl] at handle'
  rw [table, ← relation]
  exact handle'

/-! ## Replay -/

theorem replay_mutate (c : VCookie) (calls : List Call) (m : Mutator) :
    cookieSetters.mutate (replay c calls) m = replay c (traceSetters.mutate calls m) :=
  (replay_concat c calls (.mutate m)).symm

/-- The two handles of one relation in a decode and in its trace. -/
def HandlesAgree (table : RelVarTable) (rid : RelationId) (vid traced : Nat) : Prop :=
  (vid = varNotSet ∧ traced = varNotSet) ∨ (Handle table rid vid ∧ traced = rid.toNat)

theorem toNat_ne_varNotSet (rid : RelationId) : rid.toNat ≠ varNotSet := by
  have bound := rid.toNat_lt
  unfold varNotSet
  omega

theorem readElements_replay {c : VCookie} (indexed : c.toRelVarTable.Indexed) (buffer : Bytes)
    (rid : RelationId) (cnt : UInt32) (remaining : Nat) (calls : List Call) (vid traced b : Nat)
    (agree : HandlesAgree (replay c calls).toRelVarTable rid vid traced) :
    readElements cookieSetters buffer rid cnt remaining (replay c calls) vid b =
      mapDecode (replay c) (Prod.map (replay c) id)
        (readElements traceSetters buffer rid cnt remaining calls traced b) := by
  induction remaining generalizing calls vid traced b with
  | zero => rfl
  | succ remaining ih =>
      rw [readElements, readElements]
      cases readElement buffer b with
      | none => rfl
      | some result =>
          rcases result with ⟨rv, b'⟩
          have indexed' := indexed_replay indexed calls
          dsimp only
          rcases agree with ⟨rfl, rfl⟩ | ⟨handle, rfl⟩
          · rw [if_pos rfl, if_pos rfl]
            -- the handle returned is valid exactly when the trace records one
            generalize (if cnt > 1 then AllocationType.linear else AllocationType.last) = allocType
            have step : (cookieSetters.setVar (replay c calls) rid rv allocType cnt).1 =
                replay c (traceSetters.setVar calls rid rv allocType cnt).1 :=
              (replay_concat c calls (.setVar rid rv allocType cnt)).symm
            rw [step]
            apply ih
            rw [← step]
            by_cases linear : allocType = .linear ∧ rv.value ≠ []
            · right
              rcases linear with ⟨rfl, nonempty⟩
              constructor
              · exact handle_setVar indexed' rid nonempty _ _ _
              · simp [traceSetters, nonempty]
            · left
              refine ⟨?_, by simp only [traceSetters, linear, if_false]⟩
              exact setVar_handle_of_not_linear indexed' linear
          · rw [if_neg handle.2.2.1, if_neg (toNat_ne_varNotSet rid)]
            have step : cookieSetters.addLinearElement (replay c calls) vid rv =
                replay c (traceSetters.addLinearElement calls rid.toNat rv) := by
              simp only [traceSetters, UInt16.ofNat_toNat, replay_concat, applyCall]
              rw [← handle.1]
              rfl
            rw [step]
            apply ih
            rw [← step]
            exact Or.inr ⟨handle_addLinearElement indexed' handle rv, rfl⟩

theorem readVars_replay {c : VCookie} (indexed : c.toRelVarTable.Indexed) (buffer : Bytes)
    (calls : List Call) (rid : RelationId) (b : Nat) :
    readVars cookieSetters buffer (replay c calls) rid b =
      mapDecode (replay c) (replay c) (readVars traceSetters buffer calls rid b) := by
  have elements_replay (calls : List Call) (rid : RelationId) (cnt : UInt32) (b : Nat) :=
    readElements_replay indexed buffer rid cnt cnt.toNat calls varNotSet varNotSet b
      (Or.inl ⟨rfl, rfl⟩)
  fun_induction readVars traceSetters buffer calls rid b with
  | case1 calls b =>
      rw [readVars_eq, if_pos rfl]
      rfl
  | case2 calls rid b valid count =>
      rw [readVars_eq, if_neg valid, count]
      rfl
  | case3 calls rid b valid cnt b₁ count stopped elements =>
      rw [readVars_eq, if_neg valid]
      simp only [count, elements_replay, elements]
      rfl
  | case4 calls rid b valid cnt b₁ count calls' b₂ elements again =>
      rw [readVars_eq, if_neg valid]
      simp only [count, elements_replay, elements, mapDecode, Prod.map, id_eq, again]
  | case5 calls rid b valid cnt b₁ count calls' b₂ elements rid' b₃ again ih =>
      rw [readVars_eq, if_neg valid]
      simp only [count, elements_replay, elements, mapDecode, Prod.map, id_eq, again]
      exact ih

theorem decode_replay {c : VCookie} (indexed : c.toRelVarTable.Indexed) (junk : UInt8)
    (buffer : Bytes) :
    decode cookieSetters junk c buffer =
      mapDecode (replay c) (replay c) (decode traceSetters junk [] buffer) := by
  have start : c = replay c [] := rfl
  unfold decode
  dsimp only
  split
  · rfl
  · split
    · rfl
    · split
      · rfl
      · rename_i next b _
        have fields := readFields_map (replay_mutate c) buffer ⟨[], b, next⟩
        have cursor : Cursor.map (replay c) ⟨[], b, next⟩ = ⟨c, b, next⟩ := rfl
        rw [cursor] at fields
        rw [fields]
        cases readFields traceSetters buffer ⟨[], b, next⟩ with
        | error calls => rfl
        | ok s =>
            simp only [mapDecode, Cursor.map]
            split
            · rfl
            · split
              · rfl
              · exact readVars_replay indexed buffer s.cookie ..

/-- What an unread header byte holds makes no difference: too short a buffer is
rejected whatever the version, and a longer one has the three bytes. -/
theorem decode_junk {σ : Type} (setters : Setters σ) (junk junk' : UInt8) (cookie : σ)
    (buffer : Bytes) :
    decode setters junk cookie buffer = decode setters junk' cookie buffer := by
  rcases Nat.lt_or_ge buffer.length 3 with short | long
  · have rejected (junk : UInt8) : decode setters junk cookie buffer = .error cookie := by
      have early (b : Nat) : u32.read buffer b = none := u32_read_of_lt (by omega)
      simp [decode, early]
    rw [rejected, rejected]
  · have header (junk : UInt8) (b : Nat) (inside : b < buffer.length) :
        readHeaderByte buffer junk b = (buffer[b], b + 1) := by
      rw [readHeaderByte, u8_read_of_lt inside, Option.getD_some]
    simp only [decode, header _ 0 (by omega), header _ 1 (by omega), header _ 2 (by omega)]

/-- On a well-indexed cookie `Deserialize` replays the calls of the scan. -/
theorem deserialize_eq_replay {c : VCookie} (indexed : c.toRelVarTable.Indexed) (junk : UInt8)
    (buffer : Bytes) :
    deserialize junk c buffer = (replay c (scan buffer).1, (scan buffer).2) := by
  unfold deserialize scan
  rw [decode_replay indexed, decode_junk traceSetters junk 0]
  cases decode traceSetters 0 [] buffer <;> rfl

end VCookieStore

end Elevator
