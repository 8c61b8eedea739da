import Elevator.Cookie.Index

/-!
# The search in machine words

`FindRelationPos` computes its positions in 32 bits and reads both vectors at the middle
of an interval.  Here a read outside of them fails and each turn of the loop takes fuel.
In a well-indexed table the search ends, has not read outside and returns the position
that `Elevator.Cookie.Table` computes with natural numbers.
-/

namespace Elevator

open Ordered

namespace RelVarTable

/-- The loop of `FindRelationPos` between two positions. -/
def searchLoop (table : RelVarTable) (relationId : RelationId) :
    Nat → UInt32 → UInt32 → Option UInt32
  | 0, _, _ => none
  | fuel + 1, low, high =>
      if low < high then do
        let mid := (low + high) / 2
        let vid ← table.relVarSort[mid.toNat]?
        let rv ← table.relVar[vid]?
        if rv.relationId = relationId then
          some mid
        else if rv.relationId < relationId then
          if mid = low then some high else table.searchLoop relationId fuel mid high
        else
          table.searchLoop relationId fuel low mid
      else
        some low

/-- `FindRelationPos`. -/
def search (table : RelVarTable) (relationId : RelationId) (fuel : Nat) : Option UInt32 :=
  table.searchLoop relationId fuel 0 (UInt32.ofNat table.relVarSort.length)

/-- The middle of two positions of a small table is not reduced. -/
theorem toNat_middle (low high : UInt32) (small : low.toNat + high.toNat < 2 ^ 32) :
    ((low + high) / 2).toNat = (low.toNat + high.toNat) / 2 := by
  have two : (2 : UInt32).toNat = 2 := rfl
  rw [UInt32.toNat_div, UInt32.toNat_add, Nat.mod_eq_of_lt small, two]

namespace Indexed

variable {table : RelVarTable} (indexed : table.Indexed)

include indexed

/-- A read at a position in the index stays inside both vectors. -/
theorem read_entryAt {pos : Nat} (inside : pos < table.relVarSort.length) :
    ∃ vid, table.relVarSort[pos]? = some vid ∧
      table.relVar[vid]? = some (table.entryAt pos) := by
  have vidInside := indexed.lt_of_mem (List.getElem_mem inside)
  refine ⟨table.relVarSort[pos], List.getElem?_eq_getElem inside, ?_⟩
  simp [entryAt, relVarAt, List.getD_eq_getElem?_getD, inside, vidInside]

/-- With fuel for each position the loop ends where the loop on numbers does. -/
theorem searchLoop_eq_some (relationId : RelationId) {fuel : Nat} {low high : UInt32}
    (inside : high.toNat ≤ table.relVarSort.length) (enough : high.toNat - low.toNat < fuel) :
    ∃ pos, table.searchLoop relationId fuel low high = some pos ∧
      pos.toNat = table.findRelationPosLoop relationId low.toNat high.toNat := by
  induction fuel generalizing low high with
  | zero => contradiction
  | succ fuel ih =>
      have small := indexed.length_le
      rw [← indexed.length_eq] at small
      rw [searchLoop, findRelationPosLoop]
      by_cases active : low < high
      · have less : low.toNat < high.toNat := UInt32.lt_iff_toNat_lt.mp active
        have middle := toNat_middle low high (by omega)
        have middleInside : ((low + high) / 2).toNat < table.relVarSort.length := by omega
        obtain ⟨vid, atPos, atVid⟩ := indexed.read_entryAt middleInside
        simp only [active, less, if_true, atPos, atVid, Option.bind_eq_bind, Option.bind_some]
        rw [← middle]
        generalize (low + high) / 2 = mid at middle
        by_cases found : (table.entryAt mid.toNat).relationId = relationId
        · rw [if_pos found, if_pos found]
          exact ⟨mid, rfl, rfl⟩
        rw [if_neg found, if_neg found]
        by_cases below : (table.entryAt mid.toNat).relationId < relationId
        · rw [if_pos below, if_pos below]
          by_cases single : mid = low
          · rw [if_pos single, if_pos (congrArg UInt32.toNat single)]
            exact ⟨high, rfl, rfl⟩
          · have moved : mid.toNat ≠ low.toNat := fun same => single (UInt32.toNat_inj.mp same)
            rw [if_neg single, if_neg moved]
            exact ih inside (by omega)
        · rw [if_neg below, if_neg below]
          exact ih (by omega) (by omega)
      · have notLess : ¬ low.toNat < high.toNat := fun less =>
          active (UInt32.lt_iff_toNat_lt.mpr less)
        rw [if_neg active, if_neg notLess]
        exact ⟨low, rfl, rfl⟩

/-- The rank of a relation is the number of entries below it. -/
theorem rank_eq_countP (relationId : RelationId) :
    rank relKey table.entries relationId.toNat =
      table.relVar.countP fun rv => rv.relationId < relationId := by
  rw [rank, indexed.entries_perm.countP_eq]
  apply List.countP_congr
  intro rv _
  rw [decide_eq_true_iff, decide_eq_true_iff, UInt16.lt_iff_toNat_lt]
  rfl

/-- The search ends without a read outside the table at the number of entries below the
relation, which is the position of the relation if it has one. -/
theorem search_insertionPoint (relationId : RelationId) :
    ∃ pos : UInt32, (∀ fuel > table.relVarSort.length,
        table.search relationId fuel = some pos) ∧
      pos.toNat = table.findRelationPos relationId ∧
      pos.toNat = table.relVar.countP (fun rv => rv.relationId < relationId) ∧
      ∀ i < table.relVarSort.length, (table.entryAt i).relationId = relationId →
        pos.toNat = i := by
  have small := indexed.length_le
  rw [← indexed.length_eq] at small
  have size : (UInt32.ofNat table.relVarSort.length).toNat = table.relVarSort.length := by
    rw [UInt32.toNat_ofNat', Nat.mod_eq_of_lt (by omega)]
  have ends (fuel : Nat) (enough : fuel > table.relVarSort.length) :
      ∃ pos, table.search relationId fuel = some pos ∧
        pos.toNat = table.findRelationPos relationId := by
    have within : (UInt32.ofNat table.relVarSort.length).toNat - (0 : UInt32).toNat < fuel := by
      rw [size]
      exact enough
    have found := indexed.searchLoop_eq_some relationId size.le within
    rwa [size] at found
  obtain ⟨pos, _, position⟩ := ends _ (Nat.lt_succ_self _)
  have count := indexed.findRelationPos_eq relationId
  refine ⟨pos, ?_, position, ?_, ?_⟩
  · intro fuel enough
    obtain ⟨pos', found, position'⟩ := ends fuel enough
    rw [found, UInt32.toNat_inj.mp (position'.trans position.symm)]
  · rw [position, count, indexed.rank_eq_countP]
  · rintro i inside rfl
    rw [← length_entries] at inside
    rw [position, count, entryAt_eq_getElem inside]
    exact indexed.ascending.rank_getElem inside

end Indexed

/-- Three relations, of which the last was inserted between the other two. -/
theorem search_insertionPoint_between :
    let table : RelVarTable := ⟨[⟨3, false, []⟩, ⟨9, false, []⟩, ⟨5, false, []⟩], [0, 2, 1]⟩
    ∃ pos : UInt32, (∀ fuel > 3, table.search 6 fuel = some pos) ∧ pos.toNat = 2 := by
  intro table
  have indexed : table.Indexed := by
    constructor
    · decide
    · simp [Ascending, entries, relVarAt, relKey, table]
  obtain ⟨pos, ends, _, count, _⟩ := indexed.search_insertionPoint 6
  exact ⟨pos, ends, count.trans (by decide)⟩

end RelVarTable

end Elevator
