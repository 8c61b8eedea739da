import Elevator.Cookie.Enumeration
import Elevator.Cookie.Lifecycle
import Elevator.Cookie.Semantics

/-!
# The modified variables

The enumeration of modified variables reads the flag of each entry.  `SetVar`
raises it as it makes the entry, and nothing ever clears it, so the enumeration
shows every relation that has an entry.  It is exact as long as the entries are
those written since the cookie was made, and the first save that finds an entry
ends that.
-/

namespace Elevator

open Wire Transition RelVarTable

namespace RelVarTable

/-- Every entry is flagged as modified. -/
def Flagged (table : RelVarTable) : Prop :=
  ∀ rv ∈ table.relVar, rv.modified = true

/-- No entry but one of the invalid id. -/
def Vacant (table : RelVarTable) : Prop :=
  ∀ rv ∈ table.relVar, rv.relationId = invalidRid

/-- The relations that a caller visits with `GetFirstModifiedVar` and
`GetNextModifiedVar`. -/
def modifiedVars (table : RelVarTable) : Option (List RelationId) :=
  sequence table.getNextModifiedVar (table.relVarSort.length + 1) table.getFirstModifiedVar

/-- What a call does to the table, and which relation it touches: nothing, one
entry that is flagged, or a new entry that is flagged. -/
inductive Rewrites (table : RelVarTable) (touched : RelationId → Prop) : RelVarTable → Prop
  | same (untouched : ∀ r, ¬ touched r) : Rewrites table touched table
  | modify (vid : Nat) {f : RelVarImpl → RelVarImpl} (inside : vid < table.relVar.length)
      (keeps : ∀ rv, (f rv).relationId = rv.relationId) (flags : ∀ rv, (f rv).modified = true)
      (one : ∀ r, touched r ↔ r = (table.relVarAt vid).relationId) :
      Rewrites table touched (table.modifyEntry vid f)
  | insert {rv : RelVarImpl} (pos : Nat) (flagged : rv.modified = true)
      (one : ∀ r, touched r ↔ r = rv.relationId) :
      Rewrites table touched (table.insertEntry rv pos)

/-- Changing the entry just inserted is inserting it changed. -/
theorem modifyEntry_insertEntry (table : RelVarTable) (rv : RelVarImpl) (pos : Nat)
    (f : RelVarImpl → RelVarImpl) :
    (table.insertEntry rv pos).modifyEntry table.relVar.length f =
      table.insertEntry (f rv) pos := by
  simp [RelVarTable.modifyEntry, RelVarTable.insertEntry, List.modify_eq_take_drop]

theorem Rewrites.congr {table table' : RelVarTable} {touched touched' : RelationId → Prop}
    (rewrites : Rewrites table touched table') (same : ∀ r, touched' r ↔ touched r) :
    Rewrites table touched' table' := by
  have equal : touched' = touched := funext fun r => propext (same r)
  rwa [equal]

theorem Rewrites.flagged {table table' : RelVarTable} {touched : RelationId → Prop}
    (rewrites : Rewrites table touched table') (flagged : Flagged table) : Flagged table' := by
  cases rewrites with
  | same untouched => exact flagged
  | modify vid inside keeps flags one =>
      intro rv member
      rcases exists_of_mem_modifyEntry member with ⟨old, member', rfl | rfl⟩
      · exact flagged rv member'
      · exact flags old
  | insert pos new one =>
      intro rv member
      rcases List.mem_append.mp member with old | added
      · exact flagged rv old
      · rw [List.mem_singleton.mp added]
        exact new

/-- The relations with an entry are the old ones and the one touched. -/
theorem Rewrites.hasEntry_iff {table table' : RelVarTable} {touched : RelationId → Prop}
    (rewrites : Rewrites table touched table') (r : RelationId) :
    VCookie.HasEntry table' r ↔ VCookie.HasEntry table r ∨ touched r := by
  cases rewrites with
  | same untouched => exact (or_iff_left (untouched r)).symm
  | @modify vid f inside keeps flags one =>
      have there : touched r → VCookie.HasEntry table r := fun touch =>
        ⟨_, relVarAt_mem table inside, ((one r).mp touch).symm⟩
      rw [or_iff_left_of_imp there]
      constructor
      · rintro ⟨rv, member, rfl⟩
        rcases exists_of_mem_modifyEntry member with ⟨old, member', rfl | rfl⟩
        · exact ⟨rv, member', rfl⟩
        · exact ⟨old, member', (keeps old).symm⟩
      · exact fun entry => entry.modifyEntry vid keeps
  | @insert rv pos new one =>
      rw [one]
      constructor
      · rintro ⟨old, member, same⟩
        rcases List.mem_append.mp member with old' | added
        · exact Or.inl ⟨old, old', same⟩
        · rw [List.mem_singleton.mp added] at same
          exact Or.inr same.symm
      · rintro (⟨old, member, same⟩ | same)
        · exact ⟨old, List.mem_append_left _ member, same⟩
        · exact ⟨rv, List.mem_append_right _ (List.mem_singleton_self rv), same.symm⟩

/-- Every index keeps its relation. -/
theorem Rewrites.relationId_relVarAt {table table' : RelVarTable} {touched : RelationId → Prop}
    (rewrites : Rewrites table touched table') {vid : Nat} (inside : vid < table.relVar.length) :
    vid < table'.relVar.length ∧
      (table'.relVarAt vid).relationId = (table.relVarAt vid).relationId := by
  cases rewrites with
  | same untouched => exact ⟨inside, rfl⟩
  | modify vid' inside' keeps flags one =>
      constructor
      · rwa [RelVarTable.modifyEntry, List.length_modify]
      · rw [relVarAt_modifyEntry _ _ _ inside]
        split
        · exact keeps _
        · rfl
  | insert pos flagged one =>
      constructor
      · rw [RelVarTable.insertEntry, List.length_append]
        exact Nat.lt_add_right _ inside
      · rw [relVarAt_insertEntry _ _ _ inside]

/-! ## Designated relations -/

section Designated

/-- The relation whose entry `FindRelationId` leads to. -/
def designatedId (table : RelVarTable) (r : RelationId) : Option RelationId :=
  (table.designated r).map RelVarImpl.relationId

variable {table table' : RelVarTable} {r d : RelationId}

theorem Indexed.designatedId_eq_some_iff (indexed : table.Indexed) :
    table.designatedId r = some d ↔
      VCookie.HasEntry table d ∧ r ≤ d ∧ ∀ d', VCookie.HasEntry table d' → r ≤ d' → d ≤ d' := by
  rw [designatedId, Option.map_eq_some_iff]
  constructor
  · rintro ⟨rv, designated, rfl⟩
    rcases indexed.designated_eq_some_iff.mp designated with ⟨member, above, least⟩
    constructor
    · exact ⟨rv, member, rfl⟩
    constructor
    · exact above
    · rintro d' ⟨rv', member', rfl⟩
      exact least rv' member'
  · rintro ⟨⟨rv, member, rfl⟩, above, least⟩
    refine ⟨rv, indexed.designated_eq_some_iff.mpr ⟨member, above, ?_⟩, rfl⟩
    intro rv' member'
    exact least rv'.relationId ⟨rv', member', rfl⟩

theorem Indexed.designatedId_of_hasEntry (indexed : table.Indexed)
    (entry : VCookie.HasEntry table r) :
    table.designatedId r = some r :=
  indexed.designatedId_eq_some_iff.mpr ⟨entry, UInt16.le_refl r, fun _ _ above => above⟩

/-- Tables with the same entries at and above `r` lead to the same one. -/
theorem designatedId_congr (indexed : table.Indexed) (indexed' : table'.Indexed)
    (same : ∀ d, r ≤ d → (VCookie.HasEntry table d ↔ VCookie.HasEntry table' d)) :
    table.designatedId r = table'.designatedId r := by
  apply Option.ext
  intro d
  rw [indexed.designatedId_eq_some_iff, indexed'.designatedId_eq_some_iff]
  constructor
  · rintro ⟨entry, above, least⟩
    exact ⟨(same d above).mp entry, above,
      fun d' entry' above' => least d' ((same d' above').mpr entry') above'⟩
  · rintro ⟨entry, above, least⟩
    exact ⟨(same d above).mpr entry, above,
      fun d' entry' above' => least d' ((same d' above').mp entry') above'⟩

/-- A lookup answers with the list of the designated relation. -/
theorem Indexed.answer_eq (indexed : table.Indexed) (r : RelationId) :
    table.answer r = ((table.designatedId r).map table.elements).getD [] := by
  rw [answer, designatedId]
  cases found : table.designated r with
  | none => rfl
  | some rv =>
      have member := (indexed.designated_eq_some_iff.mp found).1
      exact (indexed.elements_of_mem member).symm

theorem elements_of_not_hasEntry (absent : ¬ VCookie.HasEntry table r) : table.elements r = [] :=
  elements_of_absent fun rv member same => absent ⟨rv, member, same⟩

end Designated

end RelVarTable

namespace VCookie

/-- The relation that a call of `SetVar`, `ClearVar` or `AddLinearElement` writes
or clears. -/
def Touches (c : VCookie) : Mutator → RelationId → Prop
  | .setVar relationId val _ _ allocType _, r =>
      if val = [] then
        allocType = .last ∧ (c.designated relationId).map RelVarImpl.relationId = some r
      else storesVar c.toRelVarTable relationId val allocType ∧ r = relationId
  | .clearVar relationId, r => (c.designated relationId).map RelVarImpl.relationId = some r
  | .addLinearElement vid _ _ _, r => vid < c.relVar.length ∧ r = (c.relVarAt vid).relationId
  | _, _ => False

theorem rewrites_clearVar {c : VCookie} (indexed : c.toRelVarTable.Indexed)
    (relationId : RelationId) :
    Rewrites c.toRelVarTable
      (fun r => (c.designated relationId).map RelVarImpl.relationId = some r)
      (c.clearVar relationId).toRelVarTable := by
  rcases indexed.findRelationId_cases relationId with
    ⟨rv, found, _, isSet, inside, rfl⟩ | ⟨found, notSet⟩
  · rw [clearVar_of_set isSet, found]
    apply Rewrites.modify _ inside
    · exact fun _ => rfl
    · exact fun _ => rfl
    · intro r
      rw [Option.map_some, Option.some.injEq, eq_comm]
  · rw [clearVar_of_notSet notSet, found]
    exact .same fun r touched => Option.some_ne_none r touched.symm

theorem rewrites_setVar {c : VCookie} (indexed : c.toRelVarTable.Indexed)
    (relationId : RelationId) {val : Bytes} (nonempty : val ≠ []) (timestamp : TimeT)
    (revision : UInt8) (allocType : AllocationType) (maxLinear : UInt32) :
    Rewrites c.toRelVarTable
      (fun r => storesVar c.toRelVarTable relationId val allocType ∧ r = relationId)
      (c.setVar relationId val timestamp revision allocType maxLinear).1.toRelVarTable := by
  by_cases stores : storesVar c.toRelVarTable relationId val allocType
  · have one (r : RelationId) :
        storesVar c.toRelVarTable relationId val allocType ∧ r = relationId ↔ r = relationId :=
      and_iff_right stores
    by_cases present : ∃ rv ∈ c.relVar, rv.relationId = relationId
    · rcases present with ⟨rv, member, rfl⟩
      rcases indexed.findRelationId_of_mem member with ⟨inside, entry⟩
      have open' : ¬ (allocType = .first ∧ rv.var.length = 1) := by
        intro already
        have here := indexed.entryAt_findRelationPos member
        have length_eq := indexed.length_eq
        rcases stores.2 with (outside | different) | open'
        · omega
        · exact different (by rw [here.2])
        · apply open'
          change allocType = .first ∧
            (c.entryAt (c.findRelationPos rv.relationId)).var.length = 1
          rwa [here.2]
      rw [setVar_of_mem indexed member nonempty, if_neg open', storeVar_table]
      apply Rewrites.modify _ inside
      · exact fun _ => rfl
      · exact fun _ => rfl
      · intro r
        rw [one, entry]
    · have absent : ∀ rv ∈ c.relVar, rv.relationId ≠ relationId :=
        fun rv member same => present ⟨rv, member, same⟩
      rw [setVar_of_absent indexed absent nonempty, storeVar_table, insertRelation_table,
        modifyEntry_insertEntry]
      exact .insert _ rfl one
  · rw [setVar_of_not_stores nonempty timestamp revision maxLinear stores]
    exact .same fun r touched => stores touched.1

theorem rewrites_mutate {c : VCookie} (indexed : c.toRelVarTable.Indexed) (m : Mutator) :
    Rewrites c.toRelVarTable (Touches c m) (c.mutate m).toRelVarTable := by
  cases m with
  | setPurchaseId purchaseId =>
      rw [mutate, setPurchaseId_table]
      exact .same fun _ => not_false
  | setVar relationId val timestamp revision allocType maxLinear =>
      by_cases empty : val = []
      · rw [mutate, empty, setVar_nil]
        by_cases last : allocType = .last
        · rw [if_pos last]
          apply (rewrites_clearVar indexed relationId).congr
          intro r
          simp only [Touches, if_true, last, true_and]
        · rw [if_neg last]
          apply Rewrites.same
          intro r
          simp only [Touches, if_true, last, false_and, not_false_eq_true]
      · apply (rewrites_setVar indexed relationId empty timestamp revision allocType
          maxLinear).congr
        intro r
        simp only [Touches, empty, if_false]
  | clearVar relationId => exact rewrites_clearVar indexed relationId
  | addLinearElement vid val timestamp revision =>
      by_cases inside : vid < c.relVar.length
      · rw [mutate, addLinearElement_of_lt inside]
        exact .modify _ inside (fun _ => rfl) (fun _ => rfl) fun r => and_iff_right inside
      · rw [mutate, addLinearElement_of_ge (Nat.le_of_not_lt inside)]
        exact .same fun _ touched => inside touched.1
  | _ => exact .same fun _ => not_false

theorem hasEntry_mutate_iff {c : VCookie} (indexed : c.toRelVarTable.Indexed) (m : Mutator)
    (r : RelationId) :
    HasEntry (c.mutate m).toRelVarTable r ↔ HasEntry c.toRelVarTable r ∨ Touches c m r :=
  (rewrites_mutate indexed m).hasEntry_iff r

/-- What every reachable table is. -/
structure Settled (table : RelVarTable) : Prop where
  indexed : table.Indexed
  flagged : Flagged table

theorem settled_mutate {c : VCookie} (settled : Settled c.toRelVarTable) (m : Mutator) :
    Settled (c.mutate m).toRelVarTable where
  indexed := indexed_mutate settled.indexed m
  flagged := (rewrites_mutate settled.indexed m).flagged settled.flagged

/-- Every call that the decoder makes is a call of a mutator. -/
theorem settled_applyCall {c : VCookie} (settled : Settled c.toRelVarTable)
    (call : VCookieStore.Call) : Settled (VCookieStore.applyCall c call).toRelVarTable := by
  cases call with
  | mutate m => exact settled_mutate settled m
  | setVar rid rv allocType maxLinear =>
      exact settled_mutate settled
        (.setVar rid rv.value rv.timestamp rv.revision allocType maxLinear)
  | append rid rv =>
      exact settled_mutate settled
        (.addLinearElement (c.findRelationId rid) rv.value rv.timestamp rv.revision)

theorem settled_applyOp {c : VCookie} (settled : Settled c.toRelVarTable) (op : CookieOp) :
    Settled (applyOp c op).toRelVarTable := by
  cases op with
  | mutate m => exact settled_mutate settled m
  | reset id => exact ⟨indexed_reset c id, List.forall_mem_nil _⟩
  | deserialize junk buffer =>
      rw [applyOp, VCookieStore.deserialize_eq_replay settled.indexed]
      exact @run_invariant _ _ VCookieStore.applyCall (fun c => Settled c.toRelVarTable)
        (fun _ call kept => settled_applyCall kept call) c settled _

theorem settled_construct (id : VCookieId) (newVisitor : Bool) (loaded : List CookieOp)
    (verdict : Bool) :
    Settled (construct id newVisitor fun c => (run applyOp c loaded, verdict)).toRelVarTable := by
  have start : Settled (fresh id newVisitor).toRelVarTable :=
    ⟨indexed_fresh id newVisitor, List.forall_mem_nil _⟩
  have after := @run_invariant _ _ applyOp (fun c => Settled c.toRelVarTable)
    (fun _ op kept => settled_applyOp kept op) _ start loaded
  cases newVisitor
  · exact after
  · exact start

/-! ## Keeping account -/

/-- A cookie beside the relations touched since it was made or last saved. -/
structure Account where
  cookie : VCookie
  touched : RelationId → Prop

/-- A mutator, or a call of `Store` that succeeds. -/
inductive AccountOp
  | mutate (m : Mutator)
  | store
  deriving DecidableEq, Repr

def Account.step (s : Account) : AccountOp → Account
  | .mutate m => ⟨s.cookie.mutate m, fun r => s.touched r ∨ Touches s.cookie m r⟩
  | .store => ⟨(s.cookie.store (.returned true)).1, fun _ => False⟩

/-- The enumeration visits each touched relation once and nothing else, and is
empty while the flag of the variables is down. -/
def Account.Exact (s : Account) : Prop :=
  ∃ rids, s.cookie.modifiedVars = some rids ∧ rids.Nodup ∧
    (∀ r, r ∈ rids ↔ r ≠ invalidRid ∧ s.touched r) ∧
    (s.cookie.relVarModified = false → rids = [])

/-- The enumeration visits the relations that have an entry. -/
theorem modifiedVars_eq {table : RelVarTable} (settled : Settled table) :
    ∃ rids, table.modifiedVars = some rids ∧ rids.Nodup ∧
      ∀ r, r ∈ rids ↔ r ≠ invalidRid ∧ HasEntry table r := by
  refine ⟨_, settled.indexed.sequence_eq RelVarImpl.modified, ?_, fun r => ?_⟩
  · have keys := (settled.indexed.entries_perm.map RelVarImpl.relationId).nodup_iff.mpr
      settled.indexed.nodup_relationId
    exact keys.sublist (List.filter_sublist.map _)
  · constructor
    · intro member
      rcases List.mem_map.mp member with ⟨rv, visited, rfl⟩
      rcases List.mem_filter.mp visited with ⟨entry, pass⟩
      have valid : rv.modified = true ∧ rv.relationId ≠ invalidRid := by simpa using pass
      exact ⟨valid.2, rv, settled.indexed.mem_entries_iff.mp entry, rfl⟩
    · rintro ⟨valid, rv, member, rfl⟩
      apply List.mem_map_of_mem
      apply List.mem_filter.mpr
      exact ⟨settled.indexed.mem_entries_iff.mpr member, by simp [settled.flagged rv member, valid]⟩

theorem Account.exact_iff {s : Account} (settled : Settled s.cookie.toRelVarTable) :
    s.Exact ↔
      (∀ r, r ≠ invalidRid → (HasEntry s.cookie.toRelVarTable r ↔ s.touched r)) ∧
        (s.cookie.relVarModified = false → Vacant s.cookie.toRelVarTable) := by
  rcases modifiedVars_eq settled with ⟨visited, sequence, nodup, entries⟩
  constructor
  · rintro ⟨rids, found, -, exact', quiet⟩
    cases sequence.symm.trans found
    constructor
    · intro r valid
      have same := (entries r).symm.trans (exact' r)
      simpa only [valid, ne_eq, not_false_eq_true, true_and] using same
    · intro down rv member
      by_contra valid
      have listed := (entries rv.relationId).mpr ⟨valid, rv, member, rfl⟩
      rw [quiet down] at listed
      contradiction
  · rintro ⟨same, quiet⟩
    refine ⟨visited, sequence, nodup, fun r => ?_, fun down => ?_⟩
    · rw [entries]
      exact and_congr_right (same r)
    · apply List.eq_nil_iff_forall_not_mem.mpr
      intro r member
      rcases (entries r).mp member with ⟨valid, rv, entry, rfl⟩
      exact valid (quiet down rv entry)

/-- Every entry is accounted for. -/
structure Account.Balanced (s : Account) : Prop where
  settled : Settled s.cookie.toRelVarTable
  same : ∀ r, r ≠ invalidRid → (HasEntry s.cookie.toRelVarTable r ↔ s.touched r)
  quiet : s.cookie.relVarModified = false → Vacant s.cookie.toRelVarTable

theorem hasEntry_of_designated {c : VCookie} (indexed : c.toRelVarTable.Indexed)
    {relationId r : RelationId}
    (found : (c.designated relationId).map RelVarImpl.relationId = some r) :
    HasEntry c.toRelVarTable r := by
  rcases Option.map_eq_some_iff.mp found with ⟨rv, designated, same⟩
  exact ⟨rv, (indexed.designated_eq_some_iff.mp designated).1, same⟩

/-- A call that makes an entry raises the flag of the variables. -/
theorem relVarModified_of_touches {c : VCookie} (indexed : c.toRelVarTable.Indexed) {m : Mutator}
    {r : RelationId} (touches : Touches c m r) (absent : ¬ HasEntry c.toRelVarTable r) :
    (c.mutate m).relVarModified = true := by
  cases m with
  | setVar relationId val timestamp revision allocType maxLinear =>
      by_cases empty : val = []
      · simp only [Touches, empty, if_true] at touches
        exact absurd (hasEntry_of_designated indexed touches.2) absent
      · simp only [Touches, empty, if_false] at touches
        have flags := (flags_setVar c relationId val timestamp revision allocType maxLinear).1
          touches.1
        exact congrFun (congrArg Prod.snd flags) .relVar
  | clearVar relationId => exact absurd (hasEntry_of_designated indexed touches) absent
  | addLinearElement vid val timestamp revision =>
      exact absurd ⟨_, relVarAt_mem _ touches.1, touches.2.symm⟩ absent
  | _ => exact touches.elim

theorem balanced_mutate {s : Account} (balanced : s.Balanced) (m : Mutator) :
    (s.step (.mutate m)).Balanced where
  settled := settled_mutate balanced.settled m
  same r valid := by
    rw [Account.step, hasEntry_mutate_iff balanced.settled.indexed, balanced.same r valid]
  quiet down rv member := by
    have indexed := balanced.settled.indexed
    have silent : s.cookie.relVarModified = false := by
      have kept := flag_mutate s.cookie m .relVar
      rw [VCookie.flag, VCookie.flag] at kept
      exact (Bool.or_eq_false_iff.mp (kept.symm.trans down)).1
    by_contra valid
    have vacant : ¬ HasEntry s.cookie.toRelVarTable rv.relationId := by
      rintro ⟨old, entry, same⟩
      exact valid (same.symm.trans (balanced.quiet silent old entry))
    rcases (hasEntry_mutate_iff indexed m _).mp ⟨rv, member, rfl⟩ with old | touches
    · exact vacant old
    · have up := relVarModified_of_touches indexed touches vacant
      exact Bool.false_ne_true (down.symm.trans up)

/-- The account balances in a vacant table when nothing is touched. -/
theorem balanced_of_vacant {c : VCookie} (settled : Settled c.toRelVarTable)
    (vacant : Vacant c.toRelVarTable) : Account.Balanced ⟨c, fun _ => False⟩ where
  settled := settled
  same r valid := by
    constructor
    · rintro ⟨rv, member, rfl⟩
      exact valid (vacant rv member)
    · exact False.elim
  quiet _ := vacant

/-- The enumeration is exact along a life of mutators and successful saves exactly
when the cookie starts without an entry of a valid id and every save finds none. -/
theorem modifiedVars_exact_iff (id : VCookieId) (newVisitor : Bool) (loaded : List CookieOp)
    (verdict : Bool) (ops : List AccountOp) :
    let start : Account :=
      ⟨construct id newVisitor fun c => (run applyOp c loaded, verdict), fun _ => False⟩
    Always Account.step Account.Exact start ops ↔
      Vacant start.cookie.toRelVarTable ∧
        EveryStep Account.step (fun s op => op = .store → Vacant s.cookie.toRelVarTable)
          start ops := by
  intro start
  have settled : Settled start.cookie.toRelVarTable :=
    settled_construct id newVisitor loaded verdict
  have balanced (vacant : Vacant start.cookie.toRelVarTable) : start.Balanced :=
    balanced_of_vacant settled vacant
  have rule (start : Account) (balanced : start.Balanced) :
      Always Account.step Account.Exact start ops ↔
        EveryStep Account.step (fun s op => op = .store → Vacant s.cookie.toRelVarTable)
          start ops := by
    apply @always_iff_everyStep _ _ Account.step Account.Exact Account.Balanced
    · intro s balanced
      exact (Account.exact_iff balanced.settled).mpr ⟨balanced.same, balanced.quiet⟩
    · intro s op balanced admitted
      cases op with
      | mutate m => exact balanced_mutate balanced m
      | store => exact balanced_of_vacant balanced.settled (admitted rfl)
    · intro s op balanced refused exact'
      rcases Classical.not_imp.mp refused with ⟨rfl, occupied⟩
      have settled : Settled (s.step .store).cookie.toRelVarTable := balanced.settled
      exact occupied (((Account.exact_iff settled).mp exact').2 rfl)
    · exact balanced
  constructor
  · intro always
    have first := (Account.exact_iff settled).mp (always [] List.nil_prefix)
    have vacant : Vacant start.cookie.toRelVarTable := by
      intro rv member
      by_contra valid
      exact (first.1 _ valid).mp ⟨rv, member, rfl⟩
    exact ⟨vacant, (rule start (balanced vacant)).mp always⟩
  · rintro ⟨vacant, every⟩
    exact (rule start (balanced vacant)).mpr every

/-- A variable that was set and saved is still listed as modified. -/
theorem saved_var_listed :
    let start : Account := ⟨construct ⟨1, 2, 3⟩ true fun c => (run applyOp c [], true),
      fun _ => False⟩
    let ops : List AccountOp := [.mutate (.setVar 5 [97] 10 1 .last 0), .store]
    let s := run Account.step start ops
    s.cookie.relVarModified = false ∧ s.cookie.getFirstModifiedVar = 5 ∧ ¬ s.touched 5 ∧
      ¬ Always Account.step Account.Exact start ops := by
  intro start ops s
  have down : s.cookie.relVarModified = false := by decide
  have listed : s.cookie.getFirstModifiedVar = 5 := by decide
  constructor
  · exact down
  constructor
  · exact listed
  constructor
  · exact not_false
  · intro always
    rcases always ops (List.prefix_refl _) with ⟨rids, visited, -, -, quiet⟩
    have shown : s.cookie.modifiedVars = some [5] := by decide
    cases shown.symm.trans visited
    exact absurd (quiet down) (by decide)

end VCookie

end Elevator
