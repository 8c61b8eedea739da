import Elevator.Codec.Encoding
import Elevator.Cookie.Lifecycle
import Elevator.Cookie.Semantics
import Mathlib.Data.List.Flatten

/-!
# The modified flag and the encoding

A cookie that is not modified is not saved, so a mutator that leaves `modified`
alone should leave the encoding alone.  Two do not: `SetPurchaseId` moves a saved
id to the end, and `ClearVar`, also behind an empty `SetVar`, empties a variable,
both without setting the flag.  Along a run the flag is sound exactly when no
such step is taken on an unmodified cookie.
-/

namespace Elevator

open Wire Transition RelVarTable VCookie

namespace VCookieStore

/-! ## Saved cookies -/

/-- A cookie at its construction or right after a `Store` that saved it.  Loading
is any sequence of operations on the cookie. -/
inductive Saved : VCookie → Prop
  | constructed (id : VCookieId) (newVisitor : Bool) (loadOps : List CookieOp) (loaded : Bool) :
      Saved (construct id newVisitor fun c => (run applyOp c loadOps, loaded))
  | stored {start : VCookie} (saved : Saved start) (ms : List Mutator) :
      Saved ((run mutate start ms).store (.returned true)).1

theorem kept_mutators {c : VCookie} (kept : Kept c) (ms : List Mutator) : Kept (run mutate c ms) :=
  @run_invariant _ _ mutate Kept (fun _ m kept => kept_applyOp kept (.mutate m)) c kept ms

theorem Saved.kept {c : VCookie} (saved : Saved c) : Kept c := by
  induction saved with
  | constructed id newVisitor loadOps loaded =>
      have loadedKept : Kept (run applyOp (fresh id newVisitor) loadOps) :=
        @run_invariant _ _ applyOp Kept (fun _ op kept => kept_applyOp kept op) _
          (kept_fresh id newVisitor) loadOps
      cases newVisitor with
      | true => exact ⟨indexed_empty, (kept_fresh id true).purchaseIds⟩
      | false => exact ⟨loadedKept.indexed, loadedKept.purchaseIds⟩
  | stored _ ms ih =>
      have kept := kept_mutators ih ms
      exact ⟨kept.indexed, kept.purchaseIds⟩

theorem Saved.modified {c : VCookie} (saved : Saved c) : c.modified = false := by
  cases saved <;> rfl

/-! ## Steps that change the encoding silently -/

/-- `FindRelationId` leads to an entry that is encoded, with elements to count. -/
def ClearsSet (table : RelVarTable) (relationId : RelationId) : Prop :=
  ∃ rv, table.designated relationId = some rv ∧ unsignedSize rv.var.length ≠ 0 ∧
    rv.relationId ≠ invalidRid

/-- The mutators that change the encoding and leave `modified` alone: a saved
purchase id is moved so that the concatenated ids change, or an encoded variable is
cleared. -/
def Silent (c : VCookie) : Mutator → Prop
  | .setPurchaseId purchaseId =>
      purchaseId ∈ c.purchaseIds ∧
        (c.purchaseIds.erase purchaseId ++ [purchaseId]).flatMap text.put ≠
          c.purchaseIds.flatMap text.put
  | .clearVar relationId => ClearsSet c.toRelVarTable relationId
  | .setVar relationId val _ _ allocType _ =>
      val = [] ∧ allocType = .last ∧ ClearsSet c.toRelVarTable relationId
  | _ => False

/-! ## Moving a purchase id -/

/-- The fields in front of the purchase ids. -/
def scalarFields (c : VCookie) : Bytes :=
  timeField 1 c.getFirstHitTimeGMT ++
    (timeField 2 c.getLastHitTimeGMT ++
      (timeField 3 c.getLastHitTimeVisitorLocal ++
        (numberField 4 c.getLastVisitNum ++
          (timeField 5 c.getLastPurchaseTimeGMT ++
            (textField 6 c.getFirstHitReferrer ++
              (textField 7 c.getFirstHitUrl ++
                (textField 8 c.getFirstHitPagename ++
                  (numberField 9 c.getLastPurchaseNum ++ textField 10 c.getMerchandising))))))))

theorem serializeFields_eq (c : VCookie) :
    serializeFields c true = scalarFields c ++ purchaseField c := by
  simp [serializeFields, scalarFields]

/-- Encodings that differ in equally long purchase ids only. -/
theorem encode_eq_iff_purchaseField {c c' : VCookie} (scalars : scalarFields c' = scalarFields c)
    (sets : c'.countedVars = c.countedVars)
    (length_eq : (purchaseField c').length = (purchaseField c).length) :
    encode c' true = encode c true ↔ purchaseField c' = purchaseField c := by
  have size : (encodeFields c' true).length = (encodeFields c true).length := by
    simp only [encodeFields, serializeFields_eq, scalars, List.length_append, length_eq]
  constructor
  · intro same
    simp only [encode, size, sets] at same
    have fields := List.append_cancel_left (List.append_cancel_right same)
    simp only [encodeFields, serializeFields_eq, scalars] at fields
    exact List.append_cancel_left (List.append_cancel_right fields)
  · intro same
    simp only [encode, sets, encodeFields, serializeFields_eq, scalars, same]

/-- Reordering the purchase ids changes the encoding with their concatenation. -/
theorem encode_reorder {c c' : VCookie} (scalars : scalarFields c' = scalarFields c)
    (sets : c'.countedVars = c.countedVars) (kept : PurchaseIdsKept c.purchaseIds)
    (kept' : PurchaseIdsKept c'.purchaseIds) (perm : c'.purchaseIds.Perm c.purchaseIds)
    (nonempty : c.purchaseIds ≠ []) :
    encode c' true = encode c true ↔
      c'.purchaseIds.flatMap text.put = c.purchaseIds.flatMap text.put := by
  have nonempty' : c'.purchaseIds ≠ [] := fun empty =>
    nonempty (List.nil_perm.mp (empty ▸ perm))
  have field := purchaseField_eq kept
  have field' := purchaseField_eq kept'
  rw [if_neg nonempty] at field
  rw [if_neg nonempty', perm.length_eq] at field'
  have length_eq : (purchaseField c').length = (purchaseField c).length := by
    rw [field, field', List.length_append, List.length_append,
      (perm.flatMap_right text.put).length_eq]
  rw [encode_eq_iff_purchaseField scalars sets length_eq, field, field']
  exact List.append_right_inj _

/-- Using a saved id again. -/
theorem encode_setPurchaseId {c : VCookie} (kept : Kept c) {purchaseId : Bytes}
    (saved : purchaseId ∈ c.purchaseIds) :
    encode (c.setPurchaseId purchaseId).1 true = encode c true ↔
      (c.purchaseIds.erase purchaseId ++ [purchaseId]).flatMap text.put =
        c.purchaseIds.flatMap text.put := by
  have moved : usePurchaseId c.purchaseIds purchaseId =
      c.purchaseIds.erase purchaseId ++ [purchaseId] := by
    rw [usePurchaseId_eq, if_pos saved]
  have movedKept := purchaseIdsKept_use kept.purchaseIds purchaseId
  have perm : (c.purchaseIds.erase purchaseId ++ [purchaseId]).Perm c.purchaseIds :=
    (List.perm_append_singleton _ _).trans (List.perm_cons_erase saved).symm
  rw [setPurchaseId_of_mem saved, moved]
  rw [moved] at movedKept
  exact encode_reorder rfl rfl kept.purchaseIds movedKept perm (List.ne_nil_of_mem saved)

/-! ## Clearing a variable -/

theorem sameHeader_clearVar (c : VCookie) (relationId : RelationId) :
    SameHeader (c.clearVar relationId) c :=
  sameHeader_of_profile (ignoresVars_id.clearVar c relationId)
    (ignoresVars_profile.clearVar c relationId)

/-- Clearing what is not encoded keeps the encoding. -/
theorem encode_clearVar_of_not_set {c : VCookie} (indexed : c.toRelVarTable.Indexed)
    {relationId : RelationId} (quiet : ¬ ClearsSet c.toRelVarTable relationId) :
    encode (c.clearVar relationId) true = encode c true := by
  refine encode_congr (sameHeader_clearVar c relationId) ?_ true
  rw [countedVars_eq_iff (indexed_clearVar indexed relationId) indexed]
  intro r valid
  rw [elements_clearVar indexed]
  split
  · rename_i designated
    rcases Option.map_eq_some_iff.mp designated with ⟨rv, found, rfl⟩
    have member := (indexed.designated_eq_some_iff.mp found).1
    rw [indexed.elements_of_mem member, counted_nil, eq_comm, counted_eq_nil_iff]
    by_contra nonempty
    exact quiet ⟨rv, found, nonempty, valid⟩
  · rfl

/-- Removing a non-empty part makes a concatenation shorter. -/
theorem length_flatMap_filter_lt {α : Type} {f : α → Bytes} {k : α → Bool} {l : List α} {x : α}
    (member : x ∈ l) (dropped : k x = false) (nonempty : f x ≠ []) :
    ((l.filter k).flatMap f).length < (l.flatMap f).length := by
  have shorter (l : List α) : ((l.filter k).flatMap f).length ≤ (l.flatMap f).length :=
    (List.filter_sublist.flatMap f).length_le
  rcases List.append_of_mem member with ⟨before, after, rfl⟩
  have left := shorter before
  have right := shorter after
  have positive := List.length_pos_iff.mpr nonempty
  rw [List.filter_append, List.filter_cons_of_neg (by simp [dropped])]
  simp only [List.flatMap_append, List.flatMap_cons, List.length_append]
  omega

/-- Clearing an encoded variable makes the encoding shorter. -/
theorem encode_clearVar_of_set {c : VCookie} (indexed : c.toRelVarTable.Indexed)
    {relationId : RelationId} (clears : ClearsSet c.toRelVarTable relationId) :
    encode (c.clearVar relationId) true ≠ encode c true := by
  rcases clears with ⟨rv, found, nonempty, valid⟩
  have member := (indexed.designated_eq_some_iff.mp found).1
  have indexed' := indexed_clearVar indexed relationId
  have sets : (c.clearVar relationId).countedVars =
      c.countedVars.filter fun set => set.1 ≠ rv.relationId := by
    apply indexed'.ascending_countedVars.ext
      (indexed.ascending_countedVars.sublist List.filter_sublist)
    rintro ⟨r, var⟩
    rw [indexed'.mem_countedVars_iff, List.mem_filter, indexed.mem_countedVars_iff,
      elements_clearVar indexed, found]
    by_cases same : rv.relationId = r
    · simp [same]
    · simp [same, Ne.symm same]
  have listed : (rv.relationId, counted rv.var) ∈ c.countedVars := by
    apply indexed.mem_countedVars_iff.mpr
    rw [indexed.elements_of_mem member]
    exact ⟨valid, mt counted_eq_nil_iff.mp nonempty, rfl⟩
  have written : encodeVar (rv.relationId, counted rv.var) ≠ [] := by
    have elements := length_flatMap_serializeElement (counted rv.var)
    have positive := List.length_pos_iff.mpr (mt counted_eq_nil_iff.mp nonempty)
    apply List.ne_nil_of_length_pos
    dsimp only [encodeVar]
    rw [List.length_append]
    omega
  have shorter := length_flatMap_filter_lt
    (k := fun set => decide (set.1 ≠ rv.relationId)) listed (by simp) written
  rw [← sets] at shorter
  have fields : encodeFields (c.clearVar relationId) true = encodeFields c true :=
    encodeFields_congr (sameHeader_clearVar c relationId) true
  intro same
  have lengths := congrArg List.length same
  have length_u32 (val : UInt32) : (u32.put val).length = 4 := length_leBytes 4 _
  simp only [encode, encodeVars, List.length_append, length_u32, fields] at lengths
  omega

/-! ## Steps -/

theorem movePurchaseId_eq_none_iff {c : VCookie} {purchaseId : Bytes} :
    movePurchaseId purchaseId c.purchaseIds = none ↔ purchaseId ∉ c.purchaseIds := by
  rw [movePurchaseId_eq]
  split <;> simp [*]

theorem not_raisesFlags_of_silent {c : VCookie} {m : Mutator} (silent : Silent c m) :
    ¬ RaisesFlags c m := by
  cases m with
  | setPurchaseId purchaseId => exact fun new => movePurchaseId_eq_none_iff.mp new silent.1
  | setVar relationId val timestamp revision allocType maxLinear =>
      exact fun stores => stores.1 silent.1
  | clearVar relationId => exact id
  | _ => exact silent.elim

/-- A silent mutator changes the encoding. -/
theorem encode_mutate_of_silent {c : VCookie} (kept : Kept c) {m : Mutator}
    (silent : Silent c m) : encode (c.mutate m) true ≠ encode c true := by
  cases m with
  | setPurchaseId purchaseId => exact mt (encode_setPurchaseId kept silent.1).mp silent.2
  | setVar relationId val timestamp revision allocType maxLinear =>
      rcases silent with ⟨rfl, rfl, clears⟩
      rw [mutate, setVar_nil, if_pos rfl]
      exact encode_clearVar_of_set kept.indexed clears
  | clearVar relationId => exact encode_clearVar_of_set kept.indexed silent
  | _ => exact silent.elim

/-- Any other mutator that sets no flag keeps the encoding. -/
theorem encode_mutate_of_not_silent {c : VCookie} (kept : Kept c) {m : Mutator}
    (quiet : ¬ Silent c m) (unflagged : ¬ RaisesFlags c m) :
    encode (c.mutate m) true = encode c true := by
  cases m with
  | setPurchaseId purchaseId =>
      have saved : purchaseId ∈ c.purchaseIds :=
        not_not.mp (mt movePurchaseId_eq_none_iff.mpr unflagged)
      apply (encode_setPurchaseId kept saved).mpr
      by_contra changed
      exact quiet ⟨saved, changed⟩
  | setVar relationId val timestamp revision allocType maxLinear =>
      by_cases empty : val = []
      · rw [mutate, empty, setVar_nil]
        by_cases last : allocType = .last
        · rw [if_pos last]
          exact encode_clearVar_of_not_set kept.indexed fun clears => quiet ⟨empty, last, clears⟩
        · rw [if_neg last]
      · rw [mutate, setVar_of_not_stores empty _ _ _ unflagged]
  | clearVar relationId => exact encode_clearVar_of_not_set kept.indexed quiet
  | addLinearElement vid val timestamp revision =>
      rw [mutate, addLinearElement_of_ge (Nat.le_of_not_lt unflagged)]
  | _ => exact absurd trivial unflagged

/-- From a saved cookie on, an unmodified cookie has the saved bytes along
exactly the runs that take no silent step while unmodified. -/
theorem unmodified_unchanged_iff {start : VCookie} (saved : Saved start) (ms : List Mutator) :
    Always mutate
        (fun c => c.modified = false → serialize c true = serialize start true) start ms ↔
      EveryStep mutate (fun c m => c.modified = false → ¬ Silent c m) start ms := by
  have bytes {c : VCookie} (kept : Kept c) :
      serialize c true = serialize start true ↔ encode c true = encode start true := by
    rw [serialize_eq kept.indexed, serialize_eq saved.kept.indexed, Option.some.injEq]
  refine @always_iff_everyStep _ _ mutate
    (fun c => c.modified = false → serialize c true = serialize start true)
    (fun c => Kept c ∧ (c.modified = false → encode c true = encode start true))
    (fun c m => c.modified = false → ¬ Silent c m) ?_ ?_ ?_ start ⟨saved.kept, fun _ => rfl⟩ ms
  · exact fun c inv unmodified => (bytes inv.1).mpr (inv.2 unmodified)
  · rintro c m ⟨kept, same⟩ admitted
    constructor
    · exact kept_applyOp kept (.mutate m)
    · intro unmodified'
      have unflagged : ¬ RaisesFlags c m := fun raises => by
        have modified : (c.mutate m).modified = true :=
          congrArg Prod.fst ((flags_mutate c m).1 raises)
        rw [unmodified'] at modified
        contradiction
      have unmodified : c.modified = false :=
        (congrArg Prod.fst ((flags_mutate c m).2 unflagged)).symm.trans unmodified'
      rw [encode_mutate_of_not_silent kept (admitted unmodified) unflagged]
      exact same unmodified
  · rintro c m ⟨kept, same⟩ refused unchanged
    rcases Classical.not_imp.mp refused with ⟨unmodified, silent⟩
    have silent := not_not.mp silent
    have unmodified' : (c.mutate m).modified = false :=
      (congrArg Prod.fst ((flags_mutate c m).2 (not_raisesFlags_of_silent silent))).trans
        unmodified
    have equal := (bytes (kept_applyOp kept (.mutate m))).mp (unchanged unmodified')
    exact encode_mutate_of_silent kept silent (equal.trans (same unmodified).symm)

/-- A new visitor whose visit number is set. -/
theorem unmodified_unchanged_new :
    Always mutate
        (fun c => c.modified = false →
          serialize c true = serialize (construct ⟨1, 2, 3⟩ true fun c => (c, false)) true)
        (construct ⟨1, 2, 3⟩ true fun c => (c, false)) [.clearVar 4, .setLastVisitNum 3] ↔
      EveryStep mutate (fun c m => c.modified = false → ¬ Silent c m)
        (construct ⟨1, 2, 3⟩ true fun c => (c, false)) [.clearVar 4, .setLastVisitNum 3] :=
  unmodified_unchanged_iff (.constructed ⟨1, 2, 3⟩ true [] false) [.clearVar 4, .setLastVisitNum 3]

/-- Using the older of two loaded purchase ids swaps them, and clearing a loaded
variable drops it, without a flag. -/
theorem silent_changes :
    let load := fun c => (run applyOp c [.mutate (.setPurchaseId [49]),
      .mutate (.setPurchaseId [50]), .mutate (.setVar 5 [97] 7 0 .last 0)], true)
    let start := construct ⟨1, 2, 3⟩ false load
    Saved start ∧
      (start.mutate (.setPurchaseId [49])).modified = false ∧
      serialize (start.mutate (.setPurchaseId [49])) true ≠ serialize start true ∧
      (start.mutate (.clearVar 5)).modified = false ∧
      serialize (start.mutate (.clearVar 5)) true ≠ serialize start true := by
  refine ⟨.constructed _ _ _ _, by decide, by decide +kernel, by decide, by decide +kernel⟩

end VCookieStore

end Elevator
