import Elevator.Cookie.Core
import Elevator.Ordered.Cut
import Mathlib.Data.List.Range
import Mathlib.Data.List.Nodup

/-!
# The variable index

`relVarSort` is a permutation of the indices of `relVar` that lists the entries
by strictly increasing relation id.  The index invariant and the correctness of
the binary search carry each other: the search returns the rank of a relation in
a well-indexed table, and an insertion at that rank keeps the table well indexed.

The list of entries in index order is the abstract view of the two vectors that
every later file works with.
-/

namespace Elevator

open Ordered

/-- The number a table is ordered by. -/
def relKey (rv : RelVarImpl) : Nat :=
  rv.relationId.toNat

theorem relKey_inj {rv rv' : RelVarImpl} :
    relKey rv = relKey rv' ↔ rv.relationId = rv'.relationId :=
  UInt16.toNat_inj

namespace RelVarTable

/-- The entries in index order. -/
def entries (table : RelVarTable) : List RelVarImpl :=
  table.relVarSort.map table.relVarAt

/-- The representation invariant of the two vectors. -/
structure Indexed (table : RelVarTable) : Prop where
  perm : table.relVarSort.Perm (List.range table.relVar.length)
  ascending : Ascending relKey table.entries

theorem indexed_empty : Indexed ⟨[], []⟩ where
  perm := List.Perm.refl _
  ascending := List.Pairwise.nil

@[simp]
theorem length_entries (table : RelVarTable) : table.entries.length = table.relVarSort.length :=
  List.length_map _

theorem entryAt_eq_getElem {table : RelVarTable} {pos : Nat} (inside : pos < table.entries.length) :
    table.entryAt pos = table.entries[pos] := by
  have bound : pos < table.relVarSort.length := by simpa using inside
  simp [entryAt, entries, List.getD_eq_getElem?_getD, List.getElem?_eq_getElem bound]

theorem map_relVarAt_range (table : RelVarTable) :
    (List.range table.relVar.length).map table.relVarAt = table.relVar := by
  apply List.ext_getElem (by simp)
  intro i inside inside'
  simp [relVarAt, List.getD_eq_getElem?_getD, List.getElem?_eq_getElem inside']

namespace Indexed

variable {table : RelVarTable}

theorem length_eq (indexed : Indexed table) : table.relVarSort.length = table.relVar.length := by
  simpa using indexed.perm.length_eq

theorem lt_of_mem (indexed : Indexed table) {vid : Nat} (member : vid ∈ table.relVarSort) :
    vid < table.relVar.length :=
  List.mem_range.mp (indexed.perm.mem_iff.mp member)

theorem nodup (indexed : Indexed table) : table.relVarSort.Nodup :=
  indexed.perm.nodup_iff.mpr List.nodup_range

theorem entries_perm (indexed : Indexed table) : table.entries.Perm table.relVar := by
  have mapped := indexed.perm.map table.relVarAt
  rwa [map_relVarAt_range] at mapped

theorem mem_entries_iff (indexed : Indexed table) {rv : RelVarImpl} :
    rv ∈ table.entries ↔ rv ∈ table.relVar :=
  indexed.entries_perm.mem_iff

theorem eq_of_relationId_eq (indexed : Indexed table) {rv rv' : RelVarImpl}
    (member : rv ∈ table.relVar) (member' : rv' ∈ table.relVar)
    (same : rv.relationId = rv'.relationId) : rv = rv' :=
  indexed.ascending.eq_of_key_eq (indexed.mem_entries_iff.mpr member)
    (indexed.mem_entries_iff.mpr member') (relKey_inj.mpr same)

theorem nodup_relationId (indexed : Indexed table) :
    (table.relVar.map RelVarImpl.relationId).Nodup := by
  have perm := indexed.entries_perm.map RelVarImpl.relationId
  refine perm.nodup_iff.mp (List.pairwise_map.mpr (indexed.ascending.imp ?_))
  intro x y less equal
  exact Nat.ne_of_lt less (relKey_inj.mpr equal)

/-- Relation ids are distinct 16-bit numbers, so the table is small. -/
theorem length_le (indexed : Indexed table) : table.relVar.length ≤ 65536 := by
  have keys : (table.entries.map relKey).Nodup := by
    refine List.pairwise_map.mpr (indexed.ascending.imp ?_)
    intro x y less
    exact ne_of_lt less
  have subset : table.entries.map relKey ⊆ List.range 65536 := by
    intro key member
    rcases List.mem_map.mp member with ⟨rv, _, rfl⟩
    exact List.mem_range.mpr rv.relationId.toNat_lt
  have bound := keys.length_le_of_subset subset
  rw [List.length_map, List.length_range, length_entries, indexed.length_eq] at bound
  exact bound

theorem ne_varNotSet_of_mem (indexed : Indexed table) {vid : Nat}
    (member : vid ∈ table.relVarSort) : vid ≠ varNotSet := by
  have inside := indexed.lt_of_mem member
  have small := indexed.length_le
  unfold varNotSet
  omega

end Indexed

/-! ## Binary search -/

/-- While the rank lies between `low` and `high`, the loop ends at the rank. -/
theorem findRelationPosLoop_eq_rank {table : RelVarTable}
    (ascending : Ascending relKey table.entries) (relationId : RelationId) (low high : Nat)
    (lower : low ≤ rank relKey table.entries relationId.toNat)
    (upper : rank relKey table.entries relationId.toNat ≤ high)
    (inside : high ≤ table.entries.length) :
    table.findRelationPosLoop relationId low high =
      rank relKey table.entries relationId.toNat := by
  fun_induction findRelationPosLoop table relationId low high with
  | case1 low high active mid vid found =>
      have midInside : mid < table.entries.length := by omega
      have key : relKey table.entries[mid] = relationId.toNat := by
        rw [← found, ← entryAt_eq_getElem midInside]
        rfl
      rw [← key, ascending.rank_getElem midInside]
  | case2 low high active mid vid different below single =>
      have midInside : mid < table.entries.length := by omega
      have before : mid < rank relKey table.entries relationId.toNat := by
        rw [ascending.lt_rank_iff midInside, ← entryAt_eq_getElem midInside]
        exact UInt16.lt_iff_toNat_lt.mp below
      omega
  | case3 low high active mid vid different below moved ih =>
      have midInside : mid < table.entries.length := by omega
      have before : mid < rank relKey table.entries relationId.toNat := by
        rw [ascending.lt_rank_iff midInside, ← entryAt_eq_getElem midInside]
        exact UInt16.lt_iff_toNat_lt.mp below
      exact ih (by omega) upper inside
  | case4 low high active mid vid different notBelow ih =>
      have midInside : mid < table.entries.length := by omega
      have behind : ¬ mid < rank relKey table.entries relationId.toNat := by
        rw [ascending.lt_rank_iff midInside, ← entryAt_eq_getElem midInside]
        exact fun less => notBelow (UInt16.lt_iff_toNat_lt.mpr less)
      exact ih lower (by omega) (by omega)
  | case5 low high inactive => omega

theorem Indexed.findRelationPos_eq {table : RelVarTable} (indexed : Indexed table)
    (relationId : RelationId) :
    table.findRelationPos relationId = rank relKey table.entries relationId.toNat :=
  findRelationPosLoop_eq_rank indexed.ascending relationId 0 _ (Nat.zero_le _)
    (by simpa using rank_le_length table.entries relationId.toNat) (by simp)

theorem Indexed.findRelationPos_le {table : RelVarTable} (indexed : Indexed table)
    (relationId : RelationId) : table.findRelationPos relationId ≤ table.relVarSort.length := by
  rw [indexed.findRelationPos_eq, ← length_entries]
  exact rank_le_length _ _

/-- A relation with an entry is found at that entry. -/
theorem Indexed.entryAt_findRelationPos {table : RelVarTable} (indexed : Indexed table)
    {rv : RelVarImpl} (member : rv ∈ table.relVar) :
    table.findRelationPos rv.relationId < table.relVarSort.length ∧
      table.entryAt (table.findRelationPos rv.relationId) = rv := by
  have found := indexed.ascending.getElem?_rank_eq_some (indexed.mem_entries_iff.mpr member)
  rcases List.getElem?_eq_some_iff.mp found with ⟨inside, equal⟩
  rw [indexed.findRelationPos_eq]
  refine ⟨?_, (entryAt_eq_getElem inside).trans equal⟩
  rwa [length_entries] at inside

/-- `SetVar` recognises exactly the relations without an entry. -/
theorem Indexed.insert_test_iff {table : RelVarTable} (indexed : Indexed table)
    (relationId : RelationId) :
    (table.findRelationPos relationId ≥ table.relVar.length ∨
        (table.entryAt (table.findRelationPos relationId)).relationId ≠ relationId) ↔
      ∀ rv ∈ table.relVar, rv.relationId ≠ relationId := by
  constructor
  · rintro test rv member rfl
    rcases indexed.entryAt_findRelationPos member with ⟨inside, equal⟩
    rcases test with outside | different
    · have length_eq := indexed.length_eq
      omega
    · exact different (by rw [equal])
  · intro absent
    by_contra present
    rcases not_or.mp present with ⟨inside, equal⟩
    have bound : table.findRelationPos relationId < table.entries.length := by
      rw [length_entries, indexed.length_eq]
      omega
    rw [entryAt_eq_getElem bound, not_not] at equal
    exact absent _ (indexed.mem_entries_iff.mp (List.getElem_mem bound)) equal

/-! ## Writers -/

/-- Change the entry with handle `vid`. -/
def modifyEntry (table : RelVarTable) (vid : Nat) (f : RelVarImpl → RelVarImpl) : RelVarTable :=
  ⟨table.relVar.modify vid f, table.relVarSort⟩

/-- Append an entry and put its index at position `pos`. -/
def insertEntry (table : RelVarTable) (rv : RelVarImpl) (pos : Nat) : RelVarTable :=
  ⟨table.relVar ++ [rv], table.relVarSort.insertIdx pos table.relVar.length⟩

/-- An entry of the changed table is an old one, as it was or changed. -/
theorem exists_of_mem_modifyEntry {table : RelVarTable} {vid : Nat}
    {f : RelVarImpl → RelVarImpl} {rv : RelVarImpl}
    (member : rv ∈ (table.modifyEntry vid f).relVar) :
    ∃ old ∈ table.relVar, rv = old ∨ rv = f old := by
  rcases List.getElem_of_mem member with ⟨i, inside, rfl⟩
  have inside' : i < table.relVar.length := by simpa [modifyEntry] using inside
  refine ⟨table.relVar[i], List.getElem_mem inside', ?_⟩
  simp only [modifyEntry, List.getElem_modify]
  split
  · exact Or.inr rfl
  · exact Or.inl rfl

/-- An old entry is in the changed table, as it was or changed. -/
theorem exists_mem_modifyEntry {table : RelVarTable} {old : RelVarImpl}
    (member : old ∈ table.relVar) (vid : Nat) (f : RelVarImpl → RelVarImpl) :
    ∃ rv ∈ (table.modifyEntry vid f).relVar, rv = old ∨ rv = f old := by
  rcases List.getElem_of_mem member with ⟨i, inside, rfl⟩
  have inside' : i < (table.modifyEntry vid f).relVar.length := by simpa [modifyEntry] using inside
  refine ⟨_, List.getElem_mem inside', ?_⟩
  simp only [modifyEntry, List.getElem_modify]
  split
  · exact Or.inr rfl
  · exact Or.inl rfl

theorem relVarAt_modifyEntry (table : RelVarTable) (vid : Nat) (f : RelVarImpl → RelVarImpl)
    {vid' : Nat} (inside : vid' < table.relVar.length) :
    (table.modifyEntry vid f).relVarAt vid' =
      if vid = vid' then f (table.relVarAt vid') else table.relVarAt vid' := by
  by_cases same : vid = vid' <;>
    simp [modifyEntry, relVarAt, List.getD_eq_getElem?_getD, same, inside]

theorem relVarAt_insertEntry (table : RelVarTable) (rv : RelVarImpl) (pos : Nat) {vid : Nat}
    (inside : vid < table.relVar.length) :
    (table.insertEntry rv pos).relVarAt vid = table.relVarAt vid := by
  simp [insertEntry, relVarAt, List.getD_eq_getElem?_getD, List.getElem?_append_left inside]

theorem relVarAt_insertEntry_self (table : RelVarTable) (rv : RelVarImpl) (pos : Nat) :
    (table.insertEntry rv pos).relVarAt table.relVar.length = rv := by
  simp [insertEntry, relVarAt, List.getD_eq_getElem?_getD]

namespace Indexed

variable {table : RelVarTable}

/-- An inserted entry stands at its position in index order. -/
theorem entries_insertEntry (indexed : Indexed table) (rv : RelVarImpl) (pos : Nat) :
    (table.insertEntry rv pos).entries = table.entries.insertIdx pos rv := by
  have old : table.relVarSort.map (table.insertEntry rv pos).relVarAt = table.entries :=
    List.map_congr_left fun vid member =>
      relVarAt_insertEntry table rv pos (indexed.lt_of_mem member)
  rw [entries, insertEntry, List.map_insertIdx]
  change (table.relVarSort.map (table.insertEntry rv pos).relVarAt).insertIdx pos
    ((table.insertEntry rv pos).relVarAt table.relVar.length) = _
  rw [old, relVarAt_insertEntry_self]

/-- Inserting a new relation at the position found keeps the index. -/
theorem insertEntry (indexed : Indexed table) {rv : RelVarImpl}
    (absent : ∀ old ∈ table.relVar, old.relationId ≠ rv.relationId) :
    Indexed (table.insertEntry rv (table.findRelationPos rv.relationId)) where
  perm := by
    have bound := indexed.findRelationPos_le rv.relationId
    have inserted := (List.perm_insertIdx table.relVar.length table.relVarSort bound).trans
      (indexed.perm.cons _)
    apply inserted.trans
    simp only [RelVarTable.insertEntry, List.length_append, List.length_singleton,
      List.range_succ]
    exact (List.perm_append_singleton _ _).symm
  ascending := by
    rw [indexed.entries_insertEntry, indexed.findRelationPos_eq]
    refine indexed.ascending.insertIdx_rank fun old member => ?_
    exact fun same => absent old (indexed.mem_entries_iff.mp member) (relKey_inj.mp same)

/-- Changing any entry without renaming its relation keeps the index. -/
theorem modifyEntry (indexed : Indexed table) (vid : Nat) {f : RelVarImpl → RelVarImpl}
    (keeps : ∀ rv, (f rv).relationId = rv.relationId) : Indexed (table.modifyEntry vid f) where
  perm := by
    simpa [RelVarTable.modifyEntry] using indexed.perm
  ascending := by
    have keys : (table.modifyEntry vid f).entries.map relKey = table.entries.map relKey := by
      simp only [entries, List.map_map]
      refine List.map_congr_left fun vid' member => ?_
      simp only [Function.comp_apply]
      rw [relVarAt_modifyEntry table vid f (indexed.lt_of_mem member)]
      split
      · exact relKey_inj.mpr (keeps _)
      · rfl
    have ascending := List.pairwise_map.mpr indexed.ascending
    rw [← keys] at ascending
    exact List.pairwise_map.mp ascending

end Indexed

end RelVarTable

end Elevator
