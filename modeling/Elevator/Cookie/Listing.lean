import Elevator.Cookie.Enumeration
import Elevator.Cookie.Semantics
import Mathlib.Order.Bounds.Defs

/-!
# What the enumerations return

A get-first call returns the least relation that passes its test, and a get-next call
the least one above the relation it is given, whether or not that relation has an
entry.  Iterating them visits the passing relations in increasing order.
-/

namespace Elevator

open Wire Transition Ordered

namespace RelVarTable

/-- The relation has an entry that passes. -/
def Passing (table : RelVarTable) (passes : RelVarImpl → Bool) (r : RelationId) : Prop :=
  ∃ rv ∈ table.relVar, rv.relationId = r ∧ passes rv = true

/-- The answer to a search for a relation: the least one that qualifies, or the invalid
id if there is none. -/
def Finds (qualifies : RelationId → Prop) (rid : RelationId) : Prop :=
  IsLeast {r | qualifies r} rid ∨ (∀ r, ¬ qualifies r) ∧ rid = invalidRid

/-- A get-first/get-next pair enumerates the relations that qualify. -/
structure Enumerates (qualifies : RelationId → Prop) (getFirst : RelationId)
    (getNext : RelationId → RelationId) : Prop where
  first : Finds qualifies getFirst
  next : ∀ r, r ≠ invalidRid → Finds (fun s => qualifies s ∧ r < s) (getNext r)
  visits : ∃ visited, (∀ fuel > visited.length, sequence getNext fuel getFirst = some visited) ∧
    visited.Pairwise (· < ·) ∧ ∀ r, r ∈ visited ↔ qualifies r

namespace Indexed

variable {table : RelVarTable} (indexed : table.Indexed) (passes : RelVarImpl → Bool)

include indexed

/-- From the rank of a bound on, the first passing entry is the least at or above it. -/
theorem finds_firstFrom (bound : Nat) :
    Finds (fun r => table.Passing passes r ∧ bound ≤ r.toNat)
      (table.firstFrom passes (rank relKey table.entries bound)) := by
  have behind {rv : RelVarImpl} :
      rv ∈ table.entries.drop (rank relKey table.entries bound) ↔
        rv ∈ table.relVar ∧ bound ≤ rv.relationId.toNat := by
    rw [indexed.ascending.mem_drop_rank_iff, indexed.mem_entries_iff]
    rfl
  rw [firstFrom_eq]
  cases found : (table.entries.drop (rank relKey table.entries bound)).find? passes with
  | none =>
      right
      constructor
      · rintro r ⟨⟨rv, member, rfl, pass⟩, above⟩
        exact List.find?_eq_none.mp found rv (behind.mpr ⟨member, above⟩) pass
      · rfl
  | some rv =>
      left
      rw [Option.map_some, Option.getD_some]
      rcases behind.mp (List.mem_of_find?_eq_some found) with ⟨member, above⟩
      constructor
      · exact ⟨⟨rv, member, rfl, List.find?_some found⟩, above⟩
      · rintro r ⟨⟨rv', member', rfl, pass⟩, above'⟩
        have ascending : Ascending relKey
            (table.entries.drop (rank relKey table.entries bound)) :=
          indexed.ascending.sublist (List.drop_sublist _ _)
        rw [UInt16.le_iff_toNat_le]
        exact ascending.le_of_find?_eq_some found rv' (behind.mpr ⟨member', above'⟩) pass

/-- A walk enumerates the relations with a passing entry. -/
theorem enumerates (valid : ∀ rv ∈ table.relVar, rv.relationId ≠ invalidRid) :
    Enumerates (table.Passing passes) (table.firstFrom passes 0)
      (fun r => table.firstFrom passes (table.posAfter r)) := by
  constructor
  · have finds := indexed.finds_firstFrom passes 0
    have start : rank relKey table.entries 0 = 0 := by simp [rank]
    simpa only [start, Nat.zero_le, and_true] using finds
  · intro r _
    have finds := indexed.finds_firstFrom passes (r.toNat + 1)
    rw [← indexed.posAfter_eq] at finds
    simpa only [UInt16.lt_iff_toNat_lt, Nat.add_one_le_iff] using finds
  · refine ⟨(table.listed passes).map RelVarImpl.relationId, ?_, ?_, ?_⟩
    · intro fuel enough
      rw [List.length_map] at enough
      exact sequence_of_walk (indexed.walk passes) enough
    · have ascending := indexed.ascending.sublist
        (List.filter_sublist (p := fun rv => passes rv && rv.relationId ≠ invalidRid))
      exact List.pairwise_map.mpr (ascending.imp fun less => UInt16.lt_iff_toNat_lt.mpr less)
    · intro r
      constructor
      · intro member
        rcases List.mem_map.mp member with ⟨rv, listed, rfl⟩
        rcases List.mem_filter.mp listed with ⟨entry, pass⟩
        rw [Bool.and_eq_true] at pass
        exact ⟨rv, indexed.mem_entries_iff.mp entry, rfl, pass.1⟩
      · rintro ⟨rv, member, rfl, pass⟩
        apply List.mem_map_of_mem
        apply List.mem_filter.mpr
        exact ⟨indexed.mem_entries_iff.mpr member, by simp [pass, valid rv member]⟩

end Indexed

theorem Indexed.passing_isSet_iff {table : RelVarTable} (indexed : table.Indexed)
    (r : RelationId) : table.Passing RelVarImpl.isSet r ↔ table.elements r ≠ [] := by
  constructor
  · rintro ⟨rv, member, rfl, set⟩
    rw [indexed.elements_of_mem member]
    exact RelVarImpl.isSet_iff.mp set
  · intro set
    rcases exists_of_elements_ne_nil set with ⟨rv, member, rfl⟩
    rw [indexed.elements_of_mem member] at set
    exact ⟨rv, member, rfl, RelVarImpl.isSet_iff.mpr set⟩

end RelVarTable

namespace VCookie

open RelVarTable

/-- In every reachable cookie without the invalid relation both enumerations are
complete, ordered and free of duplicates. -/
theorem enumerates_vars (id : VCookieId) (newCookie : Bool) (ops : List CookieOp)
    (valid : ∀ rv ∈ (run applyOp (fresh id newCookie) ops).relVar, rv.relationId ≠ invalidRid) :
    let c := run applyOp (fresh id newCookie) ops
    Enumerates (fun r => c.elements r ≠ []) c.getFirstSetVar c.getNextSetVar ∧
      Enumerates (fun r => ∃ rv ∈ c.relVar, rv.relationId = r ∧ rv.modified = true)
        c.getFirstModifiedVar c.getNextModifiedVar := by
  intro c
  have indexed : c.toRelVarTable.Indexed := indexed_run id newCookie ops
  constructor
  · have set : c.Passing RelVarImpl.isSet = fun r => c.elements r ≠ [] :=
      funext fun r => propext (indexed.passing_isSet_iff r)
    rw [← set]
    exact indexed.enumerates RelVarImpl.isSet valid
  · exact indexed.enumerates (fun rv => rv.modified) valid

/-- Relations 7 and 3 are set and 5 is cleared: the walk goes from 3 to 7, also for a
caller that starts at 5 or at 4. -/
theorem enumerates_vars_cleared :
    let c := run applyOp (fresh ⟨1, 2, 3⟩ true)
      [.mutate (.setVar 7 [97] 10 1 .last 0), .mutate (.setVar 3 [98] 11 1 .last 0),
        .mutate (.setVar 5 [99] 12 1 .last 0), .mutate (.clearVar 5)]
    (c.getFirstSetVar = 3 ∧ c.getNextSetVar 3 = 7 ∧ c.getNextSetVar 4 = 7 ∧
        c.getNextSetVar 5 = 7 ∧ c.getNextSetVar 7 = invalidRid) ∧
      Enumerates (fun r => c.elements r ≠ []) c.getFirstSetVar c.getNextSetVar ∧
      Enumerates (fun r => ∃ rv ∈ c.relVar, rv.relationId = r ∧ rv.modified = true)
        c.getFirstModifiedVar c.getNextModifiedVar := by
  intro c
  constructor
  · decide +kernel
  · exact enumerates_vars ⟨1, 2, 3⟩ true _ (by decide +kernel)

end VCookie

end Elevator
