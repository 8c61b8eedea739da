import Elevator.Cookie.Elements

/-!
# What the variable mutators do

Each mutator of the variable table is described once: which case it takes in a
well-indexed table, that it keeps the table well indexed, and its effect on the
element list of every relation.  Later files cite these facts and do not unfold
the mutators again.
-/

namespace Elevator

open Wire Transition Ordered RelVarTable

namespace VCookie

/-! ## Eviction and storing -/

theorem evict_suffix (maxLinear : UInt32) (var : List RelVar) : evict maxLinear var <:+ var := by
  induction var with
  | nil => exact List.suffix_refl _
  | cons oldest rest ih =>
      rw [evict]
      split
      · exact ih.trans (List.suffix_cons oldest rest)
      · exact List.suffix_refl _

/-- The other allocation types leave the element stored and nothing else. -/
@[simp]
theorem storeElement_of_ne_linear {allocType : AllocationType} (notLinear : allocType ≠ .linear)
    (var : List RelVar) (element : RelVar) (maxLinear : UInt32) :
    storeElement var element allocType maxLinear = [element] := by
  simp [storeElement, notLinear, resizeOne]

theorem storeElement_linear (var : List RelVar) (element : RelVar) (maxLinear : UInt32) :
    storeElement var element .linear maxLinear =
      let kept := if maxLinear ≠ maxLinearInfinite then evict maxLinear var else var
      (kept ++ [default]).set (unsignedSize kept.length) element := by
  rw [storeElement, if_neg (not_not.mpr rfl)]

/-- Below 2^32 elements the place written is the new one. -/
theorem set_unsignedSize {kept : List RelVar} (small : kept.length < 2 ^ 32) (element : RelVar) :
    (kept ++ [default]).set (unsignedSize kept.length) element = kept ++ [element] := by
  rw [unsignedSize_of_lt small, List.set_append_right _ _ (Nat.le_refl _), Nat.sub_self]
  rfl

theorem length_evict_lt {maxLinear : UInt32} (limited : maxLinear ≠ maxLinearInfinite)
    (var : List RelVar) : (evict maxLinear var).length < maxLinear.toNat := by
  have positive : 0 < maxLinear.toNat :=
    Nat.pos_of_ne_zero fun zero => limited (UInt32.toNat_inj.mp zero)
  induction var with
  | nil => exact positive
  | cons oldest rest ih =>
      rw [evict]
      split
      · exact ih
      · rename_i room
        exact Nat.lt_of_not_le room

/-- A limited linear call appends to what the limit leaves. -/
theorem storeElement_limited {maxLinear : UInt32} (limited : maxLinear ≠ maxLinearInfinite)
    (var : List RelVar) (element : RelVar) :
    storeElement var element .linear maxLinear = evict maxLinear var ++ [element] := by
  have small := Nat.lt_trans (length_evict_lt limited var) maxLinear.toNat_lt
  simp only [storeElement_linear, if_pos limited, set_unsignedSize small]

/-- An unlimited linear call appends to a list of fewer than 2^32 elements. -/
theorem storeElement_unlimited {var : List RelVar} (small : var.length < 2 ^ 32)
    (element : RelVar) :
    storeElement var element .linear maxLinearInfinite = var ++ [element] := by
  simp only [storeElement_linear, ne_eq, not_true_eq_false, if_false, set_unsignedSize small]

@[simp]
theorem storeElement_nil (element : RelVar) (allocType : AllocationType) (maxLinear : UInt32) :
    storeElement [] element allocType maxLinear = [element] := by
  by_cases linear : allocType = .linear
  · simp [linear, storeElement_linear, evict, unsignedSize]
  · simp [linear]

theorem storeElement_ne_nil (var : List RelVar) (element : RelVar) (allocType : AllocationType)
    (maxLinear : UInt32) : storeElement var element allocType maxLinear ≠ [] := by
  by_cases linear : allocType = .linear
  · simp [linear, storeElement_linear]
  · simp [linear]

/-! ## The tables behind the calls -/

@[simp]
theorem storeVar_table (c : VCookie) (vid : Nat) (element : RelVar) (allocType : AllocationType)
    (maxLinear : UInt32) :
    (c.storeVar vid element allocType maxLinear).1.toRelVarTable =
      c.toRelVarTable.modifyEntry vid fun rv =>
        { rv with var := storeElement rv.var element allocType maxLinear, modified := true } :=
  rfl

@[simp]
theorem insertRelation_table (c : VCookie) (relationId : RelationId) (pos : Nat) :
    (c.insertRelation relationId pos).toRelVarTable =
      c.toRelVarTable.insertEntry ⟨relationId, false, []⟩ pos :=
  rfl

theorem clearVar_of_set {c : VCookie} {relationId : RelationId}
    (isSet : c.findRelationId relationId ≠ varNotSet) :
    (c.clearVar relationId).toRelVarTable =
      c.toRelVarTable.modifyEntry (c.findRelationId relationId) fun rv =>
        { rv with var := [], modified := true } := by
  simp only [clearVar, isSet, ne_eq, not_false_eq_true, if_true]
  rfl

theorem clearVar_of_notSet {c : VCookie} {relationId : RelationId}
    (notSet : c.findRelationId relationId = varNotSet) : c.clearVar relationId = c := by
  simp [clearVar, notSet]

theorem addLinearElement_of_lt {c : VCookie} {vid : Nat} (inside : vid < c.relVar.length)
    (val : Bytes) (timestamp : TimeT) (revision : UInt8) :
    (c.addLinearElement vid val timestamp revision).toRelVarTable =
      c.toRelVarTable.modifyEntry vid fun rv =>
        { rv with var := rv.var ++ [⟨val, timestamp, revision⟩], modified := true } := by
  rw [addLinearElement, if_neg (by omega)]
  rfl

theorem addLinearElement_of_ge {c : VCookie} {vid : Nat} (outside : vid ≥ c.relVar.length)
    (val : Bytes) (timestamp : TimeT) (revision : UInt8) :
    c.addLinearElement vid val timestamp revision = c := by
  rw [addLinearElement, if_pos outside]

theorem setVar_nil (c : VCookie) (relationId : RelationId) (timestamp : TimeT) (revision : UInt8)
    (allocType : AllocationType) (maxLinear : UInt32) :
    c.setVar relationId [] timestamp revision allocType maxLinear =
      (if allocType = .last then c.clearVar relationId else c, varNotSet) := by
  simp [setVar]

/-- A relation without an entry gets one at the position found. -/
theorem setVar_of_absent {c : VCookie} (indexed : c.toRelVarTable.Indexed)
    {relationId : RelationId} (absent : ∀ rv ∈ c.relVar, rv.relationId ≠ relationId)
    {val : Bytes} (nonempty : val ≠ []) (timestamp : TimeT) (revision : UInt8)
    (allocType : AllocationType) (maxLinear : UInt32) :
    c.setVar relationId val timestamp revision allocType maxLinear =
      (c.insertRelation relationId (c.findRelationPos relationId)).storeVar c.relVar.length
        ⟨val, timestamp, revision⟩ allocType maxLinear := by
  rw [setVar, if_neg nonempty]
  exact if_pos ((indexed.insert_test_iff relationId).mpr absent)

/-- A relation with an entry is stored in place, unless a first allocation
already holds one element. -/
theorem setVar_of_mem {c : VCookie} (indexed : c.toRelVarTable.Indexed) {rv : RelVarImpl}
    (member : rv ∈ c.relVar) {val : Bytes} (nonempty : val ≠ []) (timestamp : TimeT)
    (revision : UInt8) (allocType : AllocationType) (maxLinear : UInt32) :
    c.setVar rv.relationId val timestamp revision allocType maxLinear =
      if allocType = .first ∧ rv.var.length = 1 then (c, varNotSet)
      else c.storeVar (c.findRelationId rv.relationId) ⟨val, timestamp, revision⟩ allocType
        maxLinear := by
  have present : ¬ (c.findRelationPos rv.relationId ≥ c.relVar.length ∨
      (c.entryAt (c.findRelationPos rv.relationId)).relationId ≠ rv.relationId) := by
    rw [indexed.insert_test_iff]
    exact fun absent => absent rv member rfl
  have inside := (indexed.entryAt_findRelationPos member).1
  have handle : c.relVarSort.getD (c.findRelationPos rv.relationId) 0 =
      c.findRelationId rv.relationId := by
    rw [findRelationId, if_pos inside]
  have entry := (indexed.findRelationId_of_mem member).2
  rw [setVar, if_neg nonempty]
  simp only [if_neg present, handle, entry]

/-! ## The index is kept -/

theorem indexed_clearVar {c : VCookie} (indexed : c.toRelVarTable.Indexed)
    (relationId : RelationId) : (c.clearVar relationId).toRelVarTable.Indexed := by
  by_cases notSet : c.findRelationId relationId = varNotSet
  · rw [clearVar_of_notSet notSet]
    exact indexed
  · rw [clearVar_of_set notSet]
    exact indexed.modifyEntry _ fun _ => rfl

theorem indexed_storeVar {c : VCookie} (indexed : c.toRelVarTable.Indexed) (vid : Nat)
    (element : RelVar) (allocType : AllocationType) (maxLinear : UInt32) :
    (c.storeVar vid element allocType maxLinear).1.toRelVarTable.Indexed :=
  indexed.modifyEntry vid fun _ => rfl

theorem indexed_setVar {c : VCookie} (indexed : c.toRelVarTable.Indexed) (relationId : RelationId)
    (val : Bytes) (timestamp : TimeT) (revision : UInt8) (allocType : AllocationType)
    (maxLinear : UInt32) :
    (c.setVar relationId val timestamp revision allocType maxLinear).1.toRelVarTable.Indexed := by
  by_cases empty : val = []
  · rw [empty, setVar_nil]
    dsimp only
    split
    · exact indexed_clearVar indexed relationId
    · exact indexed
  · by_cases present : ∃ rv ∈ c.relVar, rv.relationId = relationId
    · rcases present with ⟨rv, member, rfl⟩
      rw [setVar_of_mem indexed member empty]
      split
      · exact indexed
      · exact indexed_storeVar indexed _ _ _ _
    · have absent : ∀ rv ∈ c.relVar, rv.relationId ≠ relationId :=
        fun rv member same => present ⟨rv, member, same⟩
      rw [setVar_of_absent indexed absent empty]
      apply indexed_storeVar
      rw [insertRelation_table]
      exact indexed.insertEntry absent

theorem indexed_addLinearElement {c : VCookie} (indexed : c.toRelVarTable.Indexed) (vid : Nat)
    (val : Bytes) (timestamp : TimeT) (revision : UInt8) :
    (c.addLinearElement vid val timestamp revision).toRelVarTable.Indexed := by
  by_cases inside : vid < c.relVar.length
  · rw [addLinearElement_of_lt inside]
    exact indexed.modifyEntry vid fun _ => rfl
  · rw [addLinearElement_of_ge (by omega)]
    exact indexed

theorem setPurchaseId_table (c : VCookie) (purchaseId : Bytes) :
    (c.setPurchaseId purchaseId).1.toRelVarTable = c.toRelVarTable := by
  unfold setPurchaseId
  split <;> rfl

/-- Every mutator keeps the table well indexed. -/
theorem indexed_mutate {c : VCookie} (indexed : c.toRelVarTable.Indexed) (m : Mutator) :
    (c.mutate m).toRelVarTable.Indexed := by
  cases m with
  | setPurchaseId purchaseId =>
      change (c.setPurchaseId purchaseId).1.toRelVarTable.Indexed
      rw [setPurchaseId_table]
      exact indexed
  | setVar relationId val timestamp revision allocType maxLinear =>
      exact indexed_setVar indexed relationId val timestamp revision allocType maxLinear
  | clearVar relationId => exact indexed_clearVar indexed relationId
  | addLinearElement vid val timestamp revision =>
      exact indexed_addLinearElement indexed vid val timestamp revision
  | _ => exact indexed

theorem indexed_fresh (id : VCookieId) (newCookie : Bool) :
    (fresh id newCookie).toRelVarTable.Indexed :=
  indexed_empty

theorem indexed_reset (c : VCookie) (id : VCookieId) : (c.reset id).toRelVarTable.Indexed :=
  indexed_empty

theorem indexed_mutators (id : VCookieId) (newCookie : Bool) (ms : List Mutator) :
    (run mutate (fresh id newCookie) ms).toRelVarTable.Indexed :=
  @run_invariant _ _ mutate (fun c => c.toRelVarTable.Indexed)
    (fun _ m kept => indexed_mutate kept m) _ (indexed_fresh id newCookie) ms

/-! ## The effect on element lists -/

/-- `ClearVar` empties the list of the designated entry and no other. -/
theorem elements_clearVar {c : VCookie} (indexed : c.toRelVarTable.Indexed)
    (relationId relationId' : RelationId) :
    (c.clearVar relationId).elements relationId' =
      if (c.designated relationId).map RelVarImpl.relationId = some relationId' then []
      else c.elements relationId' := by
  rcases indexed.findRelationId_cases relationId with
    ⟨rv, found, _, isSet, inside, rfl⟩ | ⟨found, notSet⟩
  · rw [clearVar_of_set isSet, indexed.elements_update inside fun _ => [], found]
    simp [eq_comm]
  · rw [clearVar_of_notSet notSet, found]
    simp

/-- Each list is emptied or left. -/
theorem elements_clearVar_or {c : VCookie} (indexed : c.toRelVarTable.Indexed)
    (relationId relationId' : RelationId) :
    (c.clearVar relationId).elements relationId' = [] ∨
      (c.clearVar relationId).elements relationId' = c.elements relationId' := by
  rw [elements_clearVar indexed]
  split
  · exact Or.inl rfl
  · exact Or.inr rfl

/-- Storing in an entry changes the list of its relation. -/
theorem elements_storeVar {c : VCookie} (indexed : c.toRelVarTable.Indexed) {vid : Nat}
    (inside : vid < c.relVar.length) (element : RelVar) (allocType : AllocationType)
    (maxLinear : UInt32) (relationId : RelationId) :
    (c.storeVar vid element allocType maxLinear).1.elements relationId =
      if relationId = (c.relVarAt vid).relationId then
        storeElement (c.relVarAt vid).var element allocType maxLinear
      else c.elements relationId := by
  rw [storeVar_table]
  exact indexed.elements_update inside
    (fun var => storeElement var element allocType maxLinear) relationId

/-- The list left by `SetVar` with a non-empty value. -/
theorem elements_setVar {c : VCookie} (indexed : c.toRelVarTable.Indexed)
    (relationId : RelationId) {val : Bytes} (nonempty : val ≠ []) (timestamp : TimeT)
    (revision : UInt8) (allocType : AllocationType) (maxLinear : UInt32)
    (relationId' : RelationId) :
    (c.setVar relationId val timestamp revision allocType maxLinear).1.elements relationId' =
      if relationId' = relationId then
        if allocType = .first ∧ (c.elements relationId).length = 1 then c.elements relationId
        else storeElement (c.elements relationId) ⟨val, timestamp, revision⟩ allocType maxLinear
      else c.elements relationId' := by
  by_cases present : ∃ rv ∈ c.relVar, rv.relationId = relationId
  · rcases present with ⟨rv, member, rfl⟩
    rcases indexed.findRelationId_of_mem member with ⟨inside, entry⟩
    rw [setVar_of_mem indexed member nonempty, indexed.elements_of_mem member]
    by_cases already : allocType = .first ∧ rv.var.length = 1
    · by_cases same : relationId' = rv.relationId
      · simp only [already, same, and_self, if_true, indexed.elements_of_mem member]
      · simp only [already, same, and_self, if_true, if_false]
    · rw [if_neg already, if_neg already, elements_storeVar indexed inside, entry]
  · have absent : ∀ rv ∈ c.relVar, rv.relationId ≠ relationId :=
      fun rv member same => present ⟨rv, member, same⟩
    have inserted : (c.insertRelation relationId (c.findRelationPos relationId)).Indexed :=
      indexed.insertEntry absent
    have newEntry : (c.insertRelation relationId (c.findRelationPos relationId)).relVarAt
        c.relVar.length = ⟨relationId, false, []⟩ :=
      relVarAt_insertEntry_self c.toRelVarTable _ _
    have inside : c.relVar.length <
        (c.insertRelation relationId (c.findRelationPos relationId)).relVar.length := by
      simp [insertRelation]
    rw [setVar_of_absent indexed absent nonempty, elements_storeVar inserted inside, newEntry,
      insertRelation_table, Indexed.elements_insertEntry absent, elements_of_absent absent]
    by_cases same : relationId' = relationId <;> simp [same]

/-- The list left by `AddLinearElement` on a valid handle. -/
theorem elements_addLinearElement {c : VCookie} (indexed : c.toRelVarTable.Indexed) {vid : Nat}
    (inside : vid < c.relVar.length) (val : Bytes) (timestamp : TimeT) (revision : UInt8)
    (relationId : RelationId) :
    (c.addLinearElement vid val timestamp revision).elements relationId =
      if relationId = (c.relVarAt vid).relationId then
        c.elements relationId ++ [⟨val, timestamp, revision⟩]
      else c.elements relationId := by
  rw [addLinearElement_of_lt inside,
    indexed.elements_update inside fun var => var ++ [(⟨val, timestamp, revision⟩ : RelVar)]]
  split
  · rename_i same
    rw [same, indexed.elements_of_mem (relVarAt_mem _ inside)]
  · rfl

/-! ## Entries stay -/

/-- The relation has an entry, with elements or without. -/
def HasEntry (table : RelVarTable) (relationId : RelationId) : Prop :=
  ∃ rv ∈ table.relVar, rv.relationId = relationId

theorem HasEntry.modifyEntry {table : RelVarTable} {relationId : RelationId}
    (entry : HasEntry table relationId) (vid : Nat) {f : RelVarImpl → RelVarImpl}
    (keeps : ∀ rv, (f rv).relationId = rv.relationId) :
    HasEntry (table.modifyEntry vid f) relationId := by
  rcases entry with ⟨old, member, rfl⟩
  rcases exists_mem_modifyEntry member vid f with ⟨rv, member', rfl | rfl⟩
  · exact ⟨rv, member', rfl⟩
  · exact ⟨f old, member', keeps old⟩

section HasEntry

variable {c : VCookie} {relationId : RelationId} (entry : HasEntry c.toRelVarTable relationId)

include entry

theorem HasEntry.clearVar (cleared : RelationId) :
    HasEntry (c.clearVar cleared).toRelVarTable relationId := by
  by_cases notSet : c.findRelationId cleared = varNotSet
  · rw [clearVar_of_notSet notSet]
    exact entry
  · rw [clearVar_of_set notSet]
    exact entry.modifyEntry _ fun _ => rfl

theorem HasEntry.setVar (set : RelationId) (val : Bytes) (timestamp : TimeT) (revision : UInt8)
    (allocType : AllocationType) (maxLinear : UInt32) :
    HasEntry (c.setVar set val timestamp revision allocType maxLinear).1.toRelVarTable
      relationId := by
  by_cases empty : val = []
  · rw [empty, setVar_nil]
    dsimp only
    split
    · exact entry.clearVar set
    · exact entry
  · have inserted (pos : Nat) : HasEntry (c.insertRelation set pos).toRelVarTable relationId := by
      rcases entry with ⟨rv, member, same⟩
      exact ⟨rv, List.mem_append_left _ member, same⟩
    rw [VCookie.setVar, if_neg empty]
    dsimp only
    split
    · exact (inserted _).modifyEntry _ fun _ => rfl
    · split
      · exact entry
      · exact entry.modifyEntry _ fun _ => rfl

theorem HasEntry.addLinearElement (vid : Nat) (val : Bytes) (timestamp : TimeT)
    (revision : UInt8) :
    HasEntry (c.addLinearElement vid val timestamp revision).toRelVarTable relationId := by
  by_cases inside : vid < c.relVar.length
  · rw [addLinearElement_of_lt inside]
    exact entry.modifyEntry _ fun _ => rfl
  · rw [addLinearElement_of_ge (by omega)]
    exact entry

theorem HasEntry.mutate (m : Mutator) : HasEntry (c.mutate m).toRelVarTable relationId := by
  cases m with
  | setPurchaseId purchaseId =>
      rw [VCookie.mutate, setPurchaseId_table]
      exact entry
  | setVar set val timestamp revision allocType maxLinear => exact entry.setVar ..
  | clearVar cleared => exact entry.clearVar cleared
  | addLinearElement vid val timestamp revision => exact entry.addLinearElement ..
  | _ => exact entry

end HasEntry

/-! ## What the table contains -/

/-- Every entry is one of the relations `keys` and holds elements among `values`. -/
def Within (keys : RelationId → Prop) (values : RelVar → Prop) (table : RelVarTable) : Prop :=
  ∀ rv ∈ table.relVar, keys rv.relationId ∧ ∀ element ∈ rv.var, values element

variable {keys : RelationId → Prop} {values : RelVar → Prop}

theorem Within.modifyEntry {table : RelVarTable} (within : Within keys values table) (vid : Nat)
    {g : List RelVar → List RelVar}
    (stored : ∀ var : List RelVar, ∀ element ∈ g var, element ∈ var ∨ values element) :
    Within keys values
      (table.modifyEntry vid fun rv => { rv with var := g rv.var, modified := true }) := by
  intro rv member
  rcases exists_of_mem_modifyEntry member with ⟨old, member', rfl | rfl⟩
  · exact within rv member'
  · rcases within old member' with ⟨key, elements⟩
    constructor
    · exact key
    · intro element new
      rcases stored _ element new with kept | value
      · exact elements element kept
      · exact value

theorem Within.clearVar {c : VCookie} (within : Within keys values c.toRelVarTable)
    (relationId : RelationId) : Within keys values (c.clearVar relationId).toRelVarTable := by
  by_cases notSet : c.findRelationId relationId = varNotSet
  · rw [clearVar_of_notSet notSet]
    exact within
  · rw [clearVar_of_set notSet]
    exact within.modifyEntry _ (g := fun _ => []) (by simp)

theorem mem_storeElement {var : List RelVar} {element stored : RelVar}
    {allocType : AllocationType} {maxLinear : UInt32}
    (member : stored ∈ storeElement var element allocType maxLinear) :
    stored ∈ var ∨ stored = default ∨ stored = element := by
  by_cases linear : allocType = .linear
  · rw [linear, storeElement_linear] at member
    rcases List.mem_or_eq_of_mem_set member with old | new
    · rcases List.mem_append.mp old with kept | unset
      · left
        split at kept
        · exact (evict_suffix maxLinear var).subset kept
        · exact kept
      · exact Or.inr (Or.inl (List.mem_singleton.mp unset))
    · exact Or.inr (Or.inr new)
  · right
    right
    simpa [linear] using member

/-- Below 2^32 elements nothing is left unwritten. -/
theorem mem_storeElement_of_lt {var : List RelVar} (small : var.length < 2 ^ 32)
    {element stored : RelVar} {allocType : AllocationType} {maxLinear : UInt32}
    (member : stored ∈ storeElement var element allocType maxLinear) :
    stored ∈ var ∨ stored = element := by
  by_cases linear : allocType = .linear
  · by_cases unlimited : maxLinear = maxLinearInfinite
    · rw [linear, unlimited, storeElement_unlimited small] at member
      exact (List.mem_append.mp member).imp_right List.mem_singleton.mp
    · rw [linear, storeElement_limited unlimited, List.mem_append, List.mem_singleton] at member
      exact member.imp_left fun old => (evict_suffix maxLinear var).subset old
  · right
    simpa [linear] using member

theorem Within.storeVar {c : VCookie} (within : Within keys values c.toRelVarTable)
    (unset : values default) (vid : Nat) {element : RelVar} (value : values element)
    (allocType : AllocationType) (maxLinear : UInt32) :
    Within keys values (c.storeVar vid element allocType maxLinear).1.toRelVarTable := by
  rw [storeVar_table]
  refine within.modifyEntry vid (g := fun var => storeElement var element allocType maxLinear) ?_
  intro var stored member
  rcases mem_storeElement member with old | rfl | rfl
  · exact Or.inl old
  · exact Or.inr unset
  · exact Or.inr value

theorem Within.setVar {c : VCookie} (within : Within keys values c.toRelVarTable)
    (unset : values default) {relationId : RelationId} {val : Bytes} {timestamp : TimeT}
    {revision : UInt8}
    (new : val ≠ [] → keys relationId ∧ values ⟨val, timestamp, revision⟩)
    (allocType : AllocationType) (maxLinear : UInt32) :
    Within keys values
      (c.setVar relationId val timestamp revision allocType maxLinear).1.toRelVarTable := by
  by_cases empty : val = []
  · rw [empty, setVar_nil]
    dsimp only
    split
    · exact within.clearVar relationId
    · exact within
  · rcases new empty with ⟨key, value⟩
    have inserted (pos : Nat) :
        Within keys values (c.insertRelation relationId pos).toRelVarTable := by
      intro rv member
      rcases List.mem_append.mp member with old | added
      · exact within rv old
      · rw [List.mem_singleton.mp added]
        exact ⟨key, by simp⟩
    rw [VCookie.setVar, if_neg empty]
    dsimp only
    split
    · exact (inserted _).storeVar unset _ value allocType maxLinear
    · split
      · exact within
      · exact within.storeVar unset _ value allocType maxLinear

theorem Within.addLinearElement {c : VCookie} (within : Within keys values c.toRelVarTable)
    (vid : Nat) {val : Bytes} {timestamp : TimeT} {revision : UInt8}
    (value : values ⟨val, timestamp, revision⟩) :
    Within keys values (c.addLinearElement vid val timestamp revision).toRelVarTable := by
  by_cases inside : vid < c.relVar.length
  · rw [addLinearElement_of_lt inside]
    refine within.modifyEntry vid (g := fun var => var ++ [⟨val, timestamp, revision⟩]) ?_
    intro var stored member
    rcases List.mem_append.mp member with old | new
    · exact Or.inl old
    · exact Or.inr (List.mem_singleton.mp new ▸ value)
  · rw [addLinearElement_of_ge (by omega)]
    exact within

end VCookie

namespace Mutator

/-- What the call stores is one of the relations `keys` and one of the elements
`values`. -/
def StoresIn (keys : RelationId → Prop) (values : RelVar → Prop) : Mutator → Prop
  | .setVar relationId val timestamp revision _ _ =>
      val ≠ [] → keys relationId ∧ values ⟨val, timestamp, revision⟩
  | .addLinearElement _ val timestamp revision => values ⟨val, timestamp, revision⟩
  | _ => True

end Mutator

namespace VCookie

theorem Within.mutate {keys : RelationId → Prop} {values : RelVar → Prop} {c : VCookie}
    (within : Within keys values c.toRelVarTable) (unset : values default) {m : Mutator}
    (stores : m.StoresIn keys values) :
    Within keys values (c.mutate m).toRelVarTable := by
  cases m with
  | setPurchaseId purchaseId =>
      rw [VCookie.mutate, setPurchaseId_table]
      exact within
  | setVar relationId val timestamp revision allocType maxLinear =>
      exact within.setVar unset stores allocType maxLinear
  | clearVar relationId => exact within.clearVar relationId
  | addLinearElement vid val timestamp revision => exact within.addLinearElement vid stores
  | _ => exact within

/-- A run of such calls on a fresh cookie stays within, if the element that a wrapped
linear call leaves unwritten is one of the values. -/
theorem within_run {keys : RelationId → Prop} {values : RelVar → Prop} (unset : values default)
    (id : VCookieId) (newCookie : Bool) {ms : List Mutator}
    (stores : ∀ m ∈ ms, m.StoresIn keys values) :
    Within keys values (run VCookie.mutate (fresh id newCookie) ms).toRelVarTable :=
  @run_invariant_of_forall _ _ VCookie.mutate (fun c => Within keys values c.toRelVarTable)
    (fun m => m.StoresIn keys values) (fun _ _ admitted within => within.mutate unset admitted) _
    (fun _ member => absurd member List.not_mem_nil) ms stores

end VCookie

end Elevator
