import Elevator.Cookie.Index

/-!
# The table as a map from relations to element lists

`elements` reads a relation's own list off `relVar` without the index.  Each
operation of the table is specified by its effect on these lists.  Lookups and
`ClearVar` go through `FindRelationId`, which designates the entry of the least
relation id at or above the one asked for; `designated` is that entry.
-/

namespace Elevator

open Ordered

namespace RelVarTable

/-- The element list of the relation itself, empty when it has no entry. -/
def elements (table : RelVarTable) (relationId : RelationId) : List RelVar :=
  ((table.relVar.find? fun rv => rv.relationId = relationId).map RelVarImpl.var).getD []

/-- The entry that `FindRelationId` leads to. -/
def designated (table : RelVarTable) (relationId : RelationId) : Option RelVarImpl :=
  table.entries[table.findRelationPos relationId]?

/-- The list a lookup answers with: that of the designated entry. -/
def answer (table : RelVarTable) (relationId : RelationId) : List RelVar :=
  ((table.designated relationId).map RelVarImpl.var).getD []

/-- The elements of a list that `GetVarElementCount` counts. -/
def counted (var : List RelVar) : List RelVar :=
  var.take (unsignedSize var.length)

@[simp]
theorem length_counted (var : List RelVar) : (counted var).length = unsignedSize var.length := by
  rw [counted, List.length_take, Nat.min_eq_left (unsignedSize_le _)]

theorem counted_of_lt {var : List RelVar} (small : var.length < 2 ^ 32) : counted var = var := by
  rw [counted, unsignedSize_of_lt small, List.take_length]

@[simp]
theorem counted_nil : counted [] = [] :=
  rfl

theorem counted_eq_nil_iff {var : List RelVar} :
    counted var = [] ↔ unsignedSize var.length = 0 := by
  rw [← List.length_eq_zero_iff, length_counted]

theorem elements_of_absent {table : RelVarTable} {relationId : RelationId}
    (absent : ∀ rv ∈ table.relVar, rv.relationId ≠ relationId) :
    table.elements relationId = [] := by
  have none : table.relVar.find? (fun rv => rv.relationId = relationId) = none := by
    simpa [List.find?_eq_none] using absent
  simp [elements, none]

theorem exists_of_elements_ne_nil {table : RelVarTable} {relationId : RelationId}
    (nonempty : table.elements relationId ≠ []) :
    ∃ rv ∈ table.relVar, rv.relationId = relationId := by
  by_contra absent
  exact nonempty (elements_of_absent fun rv member same => absent ⟨rv, member, same⟩)

theorem relVarAt_mem (table : RelVarTable) {vid : Nat} (inside : vid < table.relVar.length) :
    table.relVarAt vid ∈ table.relVar := by
  simp [relVarAt, List.getD_eq_getElem?_getD, inside]

namespace Indexed

variable {table : RelVarTable}

theorem elements_of_mem (indexed : Indexed table) {rv : RelVarImpl}
    (member : rv ∈ table.relVar) : table.elements rv.relationId = rv.var := by
  cases found : table.relVar.find? fun rv' => rv'.relationId = rv.relationId with
  | none =>
      have absent := List.find?_eq_none.mp found rv member
      simp at absent
  | some rv' =>
      have same : rv'.relationId = rv.relationId := by simpa using List.find?_some found
      have equal := indexed.eq_of_relationId_eq (List.mem_of_find?_eq_some found) member same
      rw [elements, found, equal]
      rfl

theorem exists_relVarAt {rv : RelVarImpl} (member : rv ∈ table.relVar) :
    ∃ vid < table.relVar.length, table.relVarAt vid = rv := by
  rcases List.getElem_of_mem member with ⟨vid, inside, rfl⟩
  exact ⟨vid, inside, by simp [relVarAt, List.getD_eq_getElem?_getD, inside]⟩

/-- No two indices hold entries of one relation. -/
theorem index_inj (indexed : Indexed table) {vid vid' : Nat} (inside : vid < table.relVar.length)
    (inside' : vid' < table.relVar.length)
    (same : (table.relVarAt vid).relationId = (table.relVarAt vid').relationId) : vid = vid' := by
  have keys := indexed.nodup_relationId
  have bound : vid < (table.relVar.map RelVarImpl.relationId).length := by simpa using inside
  have bound' : vid' < (table.relVar.map RelVarImpl.relationId).length := by simpa using inside'
  have position : (table.relVar.map RelVarImpl.relationId)[vid] =
      (table.relVar.map RelVarImpl.relationId)[vid'] ↔ vid = vid' := keys.getElem_inj_iff
  apply position.mp
  simpa [relVarAt, List.getD_eq_getElem?_getD, inside, inside'] using same

/-- Changing an entry changes the list of its relation and no other. -/
theorem elements_modifyEntry (indexed : Indexed table) {vid : Nat}
    (inside : vid < table.relVar.length) {f : RelVarImpl → RelVarImpl}
    (keeps : ∀ rv, (f rv).relationId = rv.relationId) (relationId : RelationId) :
    (table.modifyEntry vid f).elements relationId =
      if relationId = (table.relVarAt vid).relationId then (f (table.relVarAt vid)).var
      else table.elements relationId := by
  have indexed' := indexed.modifyEntry vid keeps
  have length_eq : (table.modifyEntry vid f).relVar.length = table.relVar.length :=
    List.length_modify ..
  split
  · rename_i same
    have changed := relVarAt_modifyEntry table vid f inside
    rw [if_pos rfl] at changed
    rw [same, ← keeps, ← changed]
    exact indexed'.elements_of_mem (relVarAt_mem _ (length_eq ▸ inside))
  · rename_i different
    by_cases present : ∃ rv ∈ table.relVar, rv.relationId = relationId
    · rcases present with ⟨rv, member, rfl⟩
      rcases exists_relVarAt member with ⟨vid', inside', equal⟩
      have kept := relVarAt_modifyEntry table vid f inside'
      rw [if_neg (fun same => different (by rw [same, equal])), equal] at kept
      have member' := relVarAt_mem (table.modifyEntry vid f) (length_eq ▸ inside')
      rw [kept] at member'
      rw [indexed'.elements_of_mem member', indexed.elements_of_mem member]
    · have absent : ∀ rv ∈ table.relVar, rv.relationId ≠ relationId :=
        fun rv member same => present ⟨rv, member, same⟩
      rw [elements_of_absent absent, elements_of_absent]
      intro rv member
      rcases exists_relVarAt member with ⟨vid', inside', equal⟩
      rw [length_eq] at inside'
      rw [← equal, relVarAt_modifyEntry table vid f inside']
      split
      · rw [keeps]
        exact absent _ (relVarAt_mem table inside')
      · exact absent _ (relVarAt_mem table inside')

/-- The three mutators change an entry in this way. -/
theorem elements_update (indexed : Indexed table) {vid : Nat}
    (inside : vid < table.relVar.length) (g : List RelVar → List RelVar)
    (relationId : RelationId) :
    (table.modifyEntry vid fun rv => { rv with var := g rv.var, modified := true }).elements
        relationId =
      if relationId = (table.relVarAt vid).relationId then g (table.relVarAt vid).var
      else table.elements relationId :=
  indexed.elements_modifyEntry inside
    (f := fun rv => { rv with var := g rv.var, modified := true }) (fun _ => rfl) relationId

/-- A new entry adds the list of its relation. -/
theorem elements_insertEntry {rv : RelVarImpl}
    (absent : ∀ old ∈ table.relVar, old.relationId ≠ rv.relationId) (pos : Nat)
    (relationId : RelationId) :
    (table.insertEntry rv pos).elements relationId =
      if relationId = rv.relationId then rv.var else table.elements relationId := by
  by_cases same : relationId = rv.relationId
  · subst same
    have none : table.relVar.find? (fun old => old.relationId = rv.relationId) = none := by
      simpa [List.find?_eq_none] using absent
    simp [elements, RelVarTable.insertEntry, List.find?_append, none]
  · have other : rv.relationId ≠ relationId := fun equal => same equal.symm
    cases found : table.relVar.find? (fun old => old.relationId = relationId) <;>
      simp [elements, RelVarTable.insertEntry, List.find?_append, found, same, other]

/-! ## The designated entry -/

theorem designated_of_mem (indexed : Indexed table) {rv : RelVarImpl}
    (member : rv ∈ table.relVar) : table.designated rv.relationId = some rv := by
  rw [designated, indexed.findRelationPos_eq]
  exact indexed.ascending.getElem?_rank_eq_some (indexed.mem_entries_iff.mpr member)

/-- `FindRelationId` designates the entry of the least relation id at or above
the one asked for. -/
theorem designated_eq_some_iff (indexed : Indexed table) {relationId : RelationId}
    {rv : RelVarImpl} :
    table.designated relationId = some rv ↔
      rv ∈ table.relVar ∧ relationId ≤ rv.relationId ∧
        ∀ rv' ∈ table.relVar, relationId ≤ rv'.relationId → rv.relationId ≤ rv'.relationId := by
  have atOrAbove : ∀ rv', relationId ≤ rv'.relationId ↔ ¬ relKey rv' < relationId.toNat := by
    intro rv'
    rw [UInt16.le_iff_toNat_le, Nat.not_lt]
    rfl
  constructor
  · intro found
    rcases List.getElem?_eq_some_iff.mp found with ⟨inside, rfl⟩
    have member := indexed.mem_entries_iff.mp (List.getElem_mem inside)
    have position := indexed.findRelationPos_eq relationId
    refine ⟨member, ?_, ?_⟩
    · rw [atOrAbove, ← indexed.ascending.lt_rank_iff inside, position]
      exact Nat.lt_irrefl _
    · intro rv' member' above
      rcases List.getElem_of_mem (indexed.mem_entries_iff.mpr member') with ⟨i, inside', rfl⟩
      rw [atOrAbove, ← indexed.ascending.lt_rank_iff inside', ← position, Nat.not_lt] at above
      rw [UInt16.le_iff_toNat_le]
      rcases Nat.lt_or_eq_of_le above with before | same
      · have ordered := List.pairwise_iff_getElem.mp indexed.ascending
        exact Nat.le_of_lt (ordered _ _ inside inside' before)
      · simp only [same, Nat.le_refl]
  · rintro ⟨member, above, least⟩
    rcases List.getElem_of_mem (indexed.mem_entries_iff.mpr member) with ⟨i, inside, rfl⟩
    rw [designated, indexed.findRelationPos_eq]
    rw [atOrAbove, ← indexed.ascending.lt_rank_iff inside, Nat.not_lt] at above
    have bound : rank relKey table.entries relationId.toNat < table.entries.length :=
      Nat.lt_of_le_of_lt above inside
    have reached :
        relationId ≤ table.entries[rank relKey table.entries relationId.toNat].relationId := by
      rw [atOrAbove, ← indexed.ascending.lt_rank_iff bound]
      exact Nat.lt_irrefl _
    have le := UInt16.le_iff_toNat_le.mp
      (least _ (indexed.mem_entries_iff.mp (List.getElem_mem bound)) reached)
    have equal : rank relKey table.entries relationId.toNat = i := by
      by_contra different
      have less := List.pairwise_iff_getElem.mp indexed.ascending _ _ bound inside (by omega)
      exact Nat.lt_irrefl _ (Nat.lt_of_lt_of_le less le)
    simp only [equal, List.getElem?_eq_getElem inside]

/-- Nothing is designated above the last relation. -/
theorem designated_eq_none_iff (indexed : Indexed table) {relationId : RelationId} :
    table.designated relationId = none ↔ ∀ rv ∈ table.relVar, rv.relationId < relationId := by
  constructor
  · intro none rv member
    rw [designated, List.getElem?_eq_none_iff, indexed.findRelationPos_eq] at none
    rcases List.getElem_of_mem (indexed.mem_entries_iff.mpr member) with ⟨i, inside, rfl⟩
    rw [UInt16.lt_iff_toNat_lt]
    exact (indexed.ascending.lt_rank_iff inside).mp (Nat.lt_of_lt_of_le inside none)
  · intro below
    cases found : table.designated relationId with
    | none => rfl
    | some rv =>
        rcases indexed.designated_eq_some_iff.mp found with ⟨member, above, _⟩
        exact absurd (below rv member) (UInt16.not_lt.mpr above)

/-- The handle returned by `FindRelationId`. -/
theorem findRelationId_cases (indexed : Indexed table) (relationId : RelationId) :
    (∃ rv, table.designated relationId = some rv ∧ rv ∈ table.relVar ∧
        table.findRelationId relationId ≠ varNotSet ∧
        table.findRelationId relationId < table.relVar.length ∧
        table.relVarAt (table.findRelationId relationId) = rv) ∨
      (table.designated relationId = none ∧ table.findRelationId relationId = varNotSet) := by
  by_cases inside : table.findRelationPos relationId < table.relVarSort.length
  · left
    have bound : table.findRelationPos relationId < table.entries.length := by simpa using inside
    have member := List.getElem_mem inside
    have handle : table.findRelationId relationId =
        table.relVarSort[table.findRelationPos relationId] := by
      simp [findRelationId, inside, List.getD_eq_getElem?_getD]
    refine ⟨table.entries[table.findRelationPos relationId], List.getElem?_eq_getElem bound,
      indexed.mem_entries_iff.mp (List.getElem_mem bound), ?_, ?_, ?_⟩
    · rw [handle]
      exact indexed.ne_varNotSet_of_mem member
    · rw [handle]
      exact indexed.lt_of_mem member
    · rw [handle]
      simp [entries]
  · right
    refine ⟨List.getElem?_eq_none (by simpa using inside), ?_⟩
    rw [findRelationId, if_neg inside]

/-- The handle of a relation with an entry. -/
theorem findRelationId_of_mem (indexed : Indexed table) {rv : RelVarImpl}
    (member : rv ∈ table.relVar) :
    table.findRelationId rv.relationId < table.relVar.length ∧
      table.relVarAt (table.findRelationId rv.relationId) = rv := by
  rcases indexed.findRelationId_cases rv.relationId with
    ⟨rv', found, _, _, inside, equal⟩ | ⟨found, _⟩
  · rw [indexed.designated_of_mem member] at found
    exact ⟨inside, equal.trans (Option.some.inj found).symm⟩
  · rw [indexed.designated_of_mem member] at found
    contradiction

/-! ## Lookups -/

theorem answer_of_mem (indexed : Indexed table) {rv : RelVarImpl} (member : rv ∈ table.relVar) :
    table.answer rv.relationId = rv.var := by
  rw [answer, indexed.designated_of_mem member]
  rfl

theorem getVarElementCount_eq (indexed : Indexed table) (relationId : RelationId) :
    (table.getVarElementCount relationId).1 = unsignedSize (table.answer relationId).length := by
  rcases indexed.findRelationId_cases relationId with
    ⟨rv, found, _, isSet, _, rfl⟩ | ⟨found, notSet⟩
  · simp [getVarElementCount, isSet, answer, found]
  · simp [getVarElementCount, notSet, answer, found, unsignedSize]

theorem getVarAt_relVarAt {vid : Nat} (inside : vid < table.relVar.length) (index : Nat) :
    table.getVarAt vid index = (table.relVarAt vid).var[index]? := by
  rw [getVarAt]
  split
  · rename_i outside
    rcases outside with outside | outside
    · omega
    · exact (List.getElem?_eq_none outside).symm
  · rfl

/-- The handle a count leaves behind gives access to the elements counted. -/
theorem getVarAt_count (indexed : Indexed table) (relationId : RelationId) {index : Nat}
    (inside : index < unsignedSize (table.answer relationId).length) :
    table.getVarAt (table.getVarElementCount relationId).2 index =
      (table.answer relationId)[index]? := by
  rcases indexed.findRelationId_cases relationId with
    ⟨rv, found, _, isSet, bound, rfl⟩ | ⟨found, _⟩
  · rw [answer, found, Option.map_some, Option.getD_some] at inside ⊢
    have positive := Nat.pos_iff_ne_zero.mp (Nat.zero_lt_of_lt inside)
    have handle : (table.getVarElementCount relationId).2 = table.findRelationId relationId := by
      simp [getVarElementCount, isSet, positive]
    rw [handle, getVarAt_relVarAt bound]
  · simp [answer, found, unsignedSize] at inside

theorem getVar_eq (indexed : Indexed table) (relationId : RelationId) (index : Nat) :
    table.getVar relationId index = (table.answer relationId)[index]? := by
  rcases indexed.findRelationId_cases relationId with
    ⟨rv, found, _, isSet, inside, rfl⟩ | ⟨found, notSet⟩
  · rw [getVar, if_neg isSet, getVarAt_relVarAt inside, answer, found]
    rfl
  · rw [getVar, if_pos notSet, answer, found]
    rfl

end Indexed

end RelVarTable

end Elevator
