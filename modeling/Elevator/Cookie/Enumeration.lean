import Elevator.Cookie.Elements

/-!
# Walking the table

The get-first/get-next pairs walk the index and skip the entries that do not
pass a test: no elements for the set variables, not modified for the modified
ones.  A caller stops at the invalid id, so a walk visits `listed`, the passing
entries under every other id, in order.  Loops over a walk are treated by
induction on `Walk`.
-/

namespace Elevator

open Ordered

/-- The test of `GetSetVar`. -/
def RelVarImpl.isSet (rv : RelVarImpl) : Bool :=
  rv.var.length ≠ 0

@[simp]
theorem RelVarImpl.isSet_iff {rv : RelVarImpl} : rv.isSet = true ↔ rv.var ≠ [] := by
  simp [isSet]

namespace RelVarTable

/-- The entries a walk visits. -/
def listed (table : RelVarTable) (passes : RelVarImpl → Bool) : List RelVarImpl :=
  table.entries.filter fun rv => passes rv && rv.relationId ≠ invalidRid

/-- The walk that stands at a relation id and still has these entries to visit. -/
inductive Walk (table : RelVarTable) (passes : RelVarImpl → Bool) :
    RelationId → List RelVarImpl → Prop
  | stop : Walk table passes invalidRid []
  | visit {rv : RelVarImpl} {rest : List RelVarImpl} (member : rv ∈ table.relVar)
      (pass : passes rv = true) (valid : rv.relationId ≠ invalidRid)
      (next : Walk table passes (table.firstFrom passes (table.posAfter rv.relationId)) rest) :
      Walk table passes rv.relationId (rv :: rest)

theorem length_listed_le (table : RelVarTable) (passes : RelVarImpl → Bool) :
    (table.listed passes).length ≤ table.relVarSort.length := by
  rw [← length_entries]
  exact List.length_filter_le _ _

/-- The skipping loop finds the first passing entry. -/
theorem firstFrom_eq (table : RelVarTable) (passes : RelVarImpl → Bool) (pos : Nat) :
    table.firstFrom passes pos =
      (((table.entries.drop pos).find? passes).map RelVarImpl.relationId).getD invalidRid := by
  fun_induction firstFrom table passes pos with
  | case1 pos skipped ih =>
      rcases skipped with ⟨inside, fails⟩
      rw [← length_entries] at inside
      rw [entryAt_eq_getElem inside] at fails
      rw [ih, List.drop_eq_getElem_cons inside, List.find?_cons_of_neg (by simp [fails])]
  | case2 pos kept inside =>
      have passed : passes (table.entryAt pos) = true := by simpa [inside] using kept
      rw [← length_entries] at inside
      rw [entryAt_eq_getElem inside] at passed ⊢
      rw [List.drop_eq_getElem_cons inside, List.find?_cons_of_pos passed]
      rfl
  | case3 pos _ outside =>
      rw [List.drop_eq_nil_of_le (by simpa using outside)]
      rfl

namespace Indexed

variable {table : RelVarTable}

/-- The position behind an id counts the entries up to and including it. -/
theorem posAfter_eq (indexed : Indexed table) (relationId : RelationId) :
    table.posAfter relationId = rank relKey table.entries (relationId.toNat + 1) := by
  have ascending := indexed.ascending
  have size := @rank_le_length _ _ _ relKey table.entries (relationId.toNat + 1)
  simp only [posAfter, indexed.findRelationPos_eq, ← length_entries]
  generalize position : rank relKey table.entries relationId.toNat = pos
  generalize behind : rank relKey table.entries (relationId.toNat + 1) = next at size ⊢
  have below {i : Nat} (inside : i < table.entries.length) :
      i < pos ↔ relKey table.entries[i] < relationId.toNat :=
    position ▸ ascending.lt_rank_iff inside
  have upTo {i : Nat} (inside : i < table.entries.length) :
      i < next ↔ relKey table.entries[i] < relationId.toNat + 1 :=
    behind ▸ ascending.lt_rank_iff inside
  by_cases hit : pos < table.entries.length ∧ (table.entryAt pos).relationId = relationId
  · rw [if_pos hit]
    rcases hit with ⟨inside, same⟩
    have key : relKey table.entries[pos] = relationId.toNat := by
      rw [← same, ← entryAt_eq_getElem inside]
      rfl
    have counted : pos < next := (upTo inside).mpr (by omega)
    have last : ¬ pos + 1 < next := fun beyond => by
      have inside' : pos + 1 < table.entries.length := by omega
      have less := List.pairwise_iff_getElem.mp ascending _ _ inside inside' (Nat.lt_succ_self pos)
      have bound := (upTo inside').mp beyond
      omega
    omega
  · rw [if_neg hit]
    apply Nat.le_antisymm
    · by_contra before
      have less : next < pos := Nat.lt_of_not_le before
      have inside : next < table.entries.length :=
        Nat.lt_of_lt_of_le less (position ▸ rank_le_length _ _)
      have counted := (upTo inside).mpr (Nat.lt_succ_of_lt ((below inside).mp less))
      exact Nat.lt_irrefl _ counted
    · by_contra before
      have less : pos < next := Nat.lt_of_not_le before
      have inside : pos < table.entries.length := Nat.lt_of_lt_of_le less size
      have bound := (upTo inside).mp less
      have notBelow := mt (below inside).mpr (Nat.lt_irrefl pos)
      have key : relKey table.entries[pos] = relationId.toNat := by omega
      refine hit ⟨inside, ?_⟩
      rw [entryAt_eq_getElem inside]
      exact UInt16.toNat_inj.mp key

/-- Behind the relation of an entry comes the next entry. -/
theorem posAfter_relationId (indexed : Indexed table) {before after : List RelVarImpl}
    {rv : RelVarImpl} (split : table.entries = before ++ rv :: after) :
    table.posAfter rv.relationId = before.length + 1 := by
  have inside : before.length < table.entries.length := by simp [split]
  have entry : table.entries[before.length] = rv := by simp [split]
  have position : table.findRelationPos rv.relationId = before.length := by
    rw [indexed.findRelationPos_eq, ← indexed.ascending.rank_getElem inside, entry]
    rfl
  have hit : before.length < table.relVarSort.length ∧
      (table.entryAt before.length).relationId = rv.relationId := by
    rw [entryAt_eq_getElem inside, entry, ← length_entries]
    exact ⟨inside, rfl⟩
  simp only [posAfter, position, if_pos hit]

/-- Nothing stands behind the invalid id. -/
theorem eq_nil_of_invalid (indexed : Indexed table) {before after : List RelVarImpl}
    {rv : RelVarImpl} (split : table.entries = before ++ rv :: after)
    (invalid : rv.relationId = invalidRid) : after = [] := by
  have ascending := indexed.ascending
  rw [split] at ascending
  have above := (List.pairwise_cons.mp (List.pairwise_append.mp ascending).2.1).1
  rw [List.eq_nil_iff_forall_not_mem]
  intro next member
  have less := above next member
  have bound := next.relationId.toNat_lt
  rw [relKey, invalid, relKey] at less
  exact absurd less (by simp only [invalidRid, UInt16.toNat_ofNat]; omega)

theorem walk_from (indexed : Indexed table) (passes : RelVarImpl → Bool)
    (before after : List RelVarImpl) (split : table.entries = before ++ after) :
    Walk table passes (table.firstFrom passes before.length)
      (after.filter fun rv => passes rv && rv.relationId ≠ invalidRid) := by
  induction after generalizing before with
  | nil =>
      rw [firstFrom_eq, split, List.append_nil, List.drop_length]
      exact .stop
  | cons rv after ih =>
      have next := ih (before ++ [rv]) (by simp [split])
      rw [List.length_append, List.length_singleton] at next
      have here : table.entries.drop before.length = rv :: after := by
        rw [split, List.drop_left]
      have behind : table.entries.drop (before.length + 1) = after := by
        rw [← List.drop_drop, here, List.drop_one, List.tail_cons]
      by_cases pass : passes rv = true
      · have stands : table.firstFrom passes before.length = rv.relationId := by
          rw [firstFrom_eq, here, List.find?_cons_of_pos pass]
          rfl
        rw [stands]
        by_cases invalid : rv.relationId = invalidRid
        · rw [indexed.eq_nil_of_invalid split invalid, invalid]
          simpa [invalid] using Walk.stop
        · rw [List.filter_cons_of_pos (by simp [pass, invalid])]
          refine .visit (indexed.mem_entries_iff.mp (by simp [split])) pass invalid ?_
          rwa [indexed.posAfter_relationId split]
      · have skips : table.firstFrom passes before.length =
            table.firstFrom passes (before.length + 1) := by
          rw [firstFrom_eq, firstFrom_eq, here, behind, List.find?_cons_of_neg pass]
        rw [skips, List.filter_cons_of_neg (by simp [pass])]
        exact next

/-- The walk of a well-indexed table visits the listed entries. -/
theorem walk (indexed : Indexed table) (passes : RelVarImpl → Bool) :
    Walk table passes (table.firstFrom passes 0) (table.listed passes) :=
  indexed.walk_from passes [] table.entries rfl

end Indexed

/-- The relations visited by a caller that iterates from `rid` until the invalid
id, or nothing when the fuel runs out. -/
def sequence (next : RelationId → RelationId) : Nat → RelationId → Option (List RelationId)
  | 0, _ => none
  | fuel + 1, rid =>
      if rid = invalidRid then some []
      else (sequence next fuel (next rid)).map (rid :: ·)

theorem sequence_of_walk {table : RelVarTable} {passes : RelVarImpl → Bool} {rid : RelationId}
    {visited : List RelVarImpl} (walk : Walk table passes rid visited) {fuel : Nat}
    (enough : visited.length < fuel) :
    sequence (fun rid => table.firstFrom passes (table.posAfter rid)) fuel rid =
      some (visited.map RelVarImpl.relationId) := by
  induction walk generalizing fuel with
  | stop =>
      rcases Nat.exists_eq_add_of_lt enough with ⟨fuel, rfl⟩
      simp [sequence]
  | @visit rv rest member pass valid next ih =>
      cases fuel with
      | zero => contradiction
      | succ fuel =>
          have rest := ih (Nat.lt_of_succ_lt_succ enough)
          rw [sequence, if_neg valid, rest]
          rfl

/-- A caller with enough fuel visits the listed entries. -/
theorem Indexed.sequence_eq {table : RelVarTable} (indexed : table.Indexed)
    (passes : RelVarImpl → Bool) :
    sequence (fun rid => table.firstFrom passes (table.posAfter rid))
        (table.relVarSort.length + 1) (table.firstFrom passes 0) =
      some ((table.listed passes).map RelVarImpl.relationId) :=
  sequence_of_walk (indexed.walk passes) (Nat.lt_succ_of_le (table.length_listed_le passes))

/-! ## The set variables -/

/-- The relations a walk over the set variables visits, with their elements. -/
def setVars (table : RelVarTable) : List (RelationId × List RelVar) :=
  (table.listed RelVarImpl.isSet).map fun rv => (rv.relationId, rv.var)

theorem Indexed.ascending_setVars {table : RelVarTable} (indexed : table.Indexed) :
    Ascending (fun set : RelationId × List RelVar => set.1.toNat) table.setVars :=
  List.pairwise_map.mpr (indexed.ascending.sublist List.filter_sublist)

theorem Indexed.mem_setVars_iff {table : RelVarTable} (indexed : table.Indexed)
    {relationId : RelationId} {var : List RelVar} :
    (relationId, var) ∈ table.setVars ↔
      relationId ≠ invalidRid ∧ var ≠ [] ∧ table.elements relationId = var := by
  constructor
  · intro member
    rcases List.mem_map.mp member with ⟨rv, listed, equal⟩
    rcases List.mem_filter.mp listed with ⟨entry, pass⟩
    cases equal
    have nonempty : rv.var ≠ [] ∧ rv.relationId ≠ invalidRid := by simpa using pass
    exact ⟨nonempty.2, nonempty.1, indexed.elements_of_mem (indexed.mem_entries_iff.mp entry)⟩
  · rintro ⟨valid, nonempty, rfl⟩
    rcases exists_of_elements_ne_nil nonempty with ⟨rv, entry, rfl⟩
    rw [indexed.elements_of_mem entry] at nonempty ⊢
    refine List.mem_map.mpr ⟨rv, List.mem_filter.mpr ⟨indexed.mem_entries_iff.mpr entry, ?_⟩, rfl⟩
    simp [nonempty, valid]

/-- Ascending lists of the relations with a non-empty list are equal when the lists are. -/
theorem sets_eq_iff {sets sets' : List (RelationId × List RelVar)}
    {list list' : RelationId → List RelVar}
    (ascending : Ascending (fun set : RelationId × List RelVar => set.1.toNat) sets)
    (ascending' : Ascending (fun set : RelationId × List RelVar => set.1.toNat) sets')
    (mem_iff : ∀ r var, (r, var) ∈ sets ↔ r ≠ invalidRid ∧ var ≠ [] ∧ list r = var)
    (mem_iff' : ∀ r var, (r, var) ∈ sets' ↔ r ≠ invalidRid ∧ var ≠ [] ∧ list' r = var) :
    sets = sets' ↔ ∀ r, r ≠ invalidRid → list r = list' r := by
  constructor
  · intro same r valid
    by_cases nonempty : list r = []
    · by_contra different
      have nonempty' : list' r ≠ [] := fun empty' => different (nonempty.trans empty'.symm)
      have member := (mem_iff' r (list' r)).mpr ⟨valid, nonempty', rfl⟩
      rw [← same] at member
      exact different ((mem_iff r _).mp member).2.2
    · have member := (mem_iff r (list r)).mpr ⟨valid, nonempty, rfl⟩
      rw [same] at member
      exact ((mem_iff' r _).mp member).2.2.symm
  · intro same
    apply ascending.ext ascending'
    rintro ⟨r, var⟩
    rw [mem_iff, mem_iff']
    constructor <;> rintro ⟨valid, nonempty, equal⟩
    · exact ⟨valid, nonempty, (same r valid).symm.trans equal⟩
    · exact ⟨valid, nonempty, (same r valid).trans equal⟩

/-- Tables with the same element lists have the same set variables. -/
theorem setVars_eq_iff {table table' : RelVarTable} (indexed : table.Indexed)
    (indexed' : table'.Indexed) :
    table.setVars = table'.setVars ↔
      ∀ relationId, relationId ≠ invalidRid →
        table.elements relationId = table'.elements relationId :=
  sets_eq_iff indexed.ascending_setVars indexed'.ascending_setVars
    (fun _ _ => indexed.mem_setVars_iff) fun _ _ => indexed'.mem_setVars_iff

/-- The set variables with the elements counted, those without any left out. -/
def countedVars (table : RelVarTable) : List (RelationId × List RelVar) :=
  (table.setVars.map fun set => (set.1, counted set.2)).filter fun set => set.2 ≠ []

theorem Indexed.ascending_countedVars {table : RelVarTable} (indexed : table.Indexed) :
    Ascending (fun set : RelationId × List RelVar => set.1.toNat) table.countedVars := by
  apply List.Pairwise.sublist List.filter_sublist
  rw [List.pairwise_map]
  exact indexed.ascending_setVars

theorem Indexed.mem_countedVars_iff {table : RelVarTable} (indexed : table.Indexed)
    {relationId : RelationId} {var : List RelVar} :
    (relationId, var) ∈ table.countedVars ↔
      relationId ≠ invalidRid ∧ var ≠ [] ∧ counted (table.elements relationId) = var := by
  constructor
  · intro member
    rcases List.mem_filter.mp member with ⟨listed, nonempty⟩
    rcases List.mem_map.mp listed with ⟨set, isSet, equal⟩
    rcases Prod.mk.inj equal with ⟨rfl, rfl⟩
    rcases indexed.mem_setVars_iff.mp isSet with ⟨valid, _, list⟩
    exact ⟨valid, of_decide_eq_true nonempty, congrArg counted list⟩
  · rintro ⟨valid, nonempty, rfl⟩
    have isSet : table.elements relationId ≠ [] :=
      fun empty => nonempty (by rw [empty, counted_nil])
    apply List.mem_filter.mpr
    constructor
    · exact List.mem_map.mpr ⟨_, indexed.mem_setVars_iff.mpr ⟨valid, isSet, rfl⟩, rfl⟩
    · exact decide_eq_true nonempty

/-- A single relation with elements to count. -/
theorem Indexed.countedVars_eq_singleton {table : RelVarTable} (indexed : table.Indexed)
    {r : RelationId} (valid : r ≠ invalidRid) (isSet : counted (table.elements r) ≠ [])
    (others : ∀ r', r' ≠ r → table.elements r' = []) :
    table.countedVars = [(r, counted (table.elements r))] := by
  have nodup : table.countedVars.Nodup := by
    apply indexed.ascending_countedVars.imp
    rintro x y below rfl
    exact Nat.lt_irrefl _ below
  apply List.perm_singleton.mp
  rw [List.perm_ext_iff_of_nodup nodup (List.nodup_singleton _)]
  rintro ⟨relationId, var⟩
  rw [indexed.mem_countedVars_iff, List.mem_singleton]
  constructor
  · rintro ⟨_, nonempty, rfl⟩
    by_cases same : relationId = r
    · rw [same]
    · rw [others relationId same, counted_nil] at nonempty
      contradiction
  · intro same
    obtain ⟨rfl, rfl⟩ := Prod.mk.inj same
    exact ⟨valid, isSet, rfl⟩

theorem countedVars_eq_iff {table table' : RelVarTable} (indexed : table.Indexed)
    (indexed' : table'.Indexed) :
    table.countedVars = table'.countedVars ↔
      ∀ relationId, relationId ≠ invalidRid →
        counted (table.elements relationId) = counted (table'.elements relationId) :=
  @sets_eq_iff _ _ (fun r => counted (table.elements r)) (fun r => counted (table'.elements r))
    indexed.ascending_countedVars indexed'.ascending_countedVars
    (fun _ _ => indexed.mem_countedVars_iff) fun _ _ => indexed'.mem_countedVars_iff

/-- The first set relation is the head of the list. -/
theorem Indexed.getFirstSetVar_eq {table : RelVarTable} (indexed : table.Indexed) :
    table.getFirstSetVar = (table.setVars.head?.map Prod.fst).getD invalidRid := by
  have walk := indexed.walk RelVarImpl.isSet
  change table.firstFrom RelVarImpl.isSet 0 = _
  rw [setVars]
  generalize table.listed RelVarImpl.isSet = visited at walk ⊢
  generalize table.firstFrom RelVarImpl.isSet 0 = rid at walk ⊢
  cases walk <;> rfl

/-- The relations visited by a caller that iterates from `rid` with
`GetNextSetVar`, or nothing when the fuel runs out. -/
def setVarSequence (table : RelVarTable) : Nat → RelationId → Option (List RelationId) :=
  sequence table.getNextSetVar

/-- Iterating from `GetFirstSetVar` produces the set relations in order. -/
theorem Indexed.setVarSequence_eq {table : RelVarTable} (indexed : table.Indexed) :
    table.setVarSequence (table.relVarSort.length + 1) table.getFirstSetVar =
      some (table.setVars.map Prod.fst) := by
  rw [setVarSequence, setVars, List.map_map]
  exact indexed.sequence_eq RelVarImpl.isSet

end RelVarTable

end Elevator
