import Elevator.Codec.Decoding
import Elevator.Cookie.Allocation
import Elevator.Cookie.Equality

/-!
# Round trips

Decoding an encoding replays its calls on a blank cookie, which rebuilds the
profile field by field and the table relation by relation.  What comes back is
what the getters of the saved cookie return; two of them return the last-hit
time in place of their own member.  Of a list it is the elements counted, from
the first on that is not empty.
-/

namespace Elevator

open Wire Transition RelVarTable VCookie

/-! ## Plain cookies -/

namespace Profile

theorem NulFree.use {p : Profile} (nulFree : p.NulFree) {purchaseId : Bytes}
    (text : 0 ∉ purchaseId) :
    ∀ saved ∈ usePurchaseId p.purchaseIds purchaseId, 0 ∉ saved := by
  intro saved member
  rcases Sequence.mem_use member with old | rfl
  · exact nulFree.purchaseIds saved old
  · exact text

theorem NulFree.mutate {p : Profile} (nulFree : p.NulFree) {m : Mutator} (text : 0 ∉ m.text) :
    (p.mutate m).NulFree := by
  cases m with
  | setFirstHitReferrer s => exact { nulFree with firstHitReferrer := text }
  | setFirstHitUrl s => exact { nulFree with firstHitPageUrl := text }
  | setFirstHitPagename s => exact { nulFree with firstHitPagename := text }
  | setMerchandising s => exact { nulFree with merchandising := text }
  | setPurchaseId purchaseId => exact { nulFree with purchaseIds := nulFree.use text }
  | _ => exact { nulFree with }

theorem nulFree_zero : zero.NulFree where
  firstHitReferrer := List.not_mem_nil
  firstHitPageUrl := List.not_mem_nil
  firstHitPagename := List.not_mem_nil
  merchandising := List.not_mem_nil
  purchaseIds _ member := absurd member List.not_mem_nil

end Profile

theorem Mutator.Plain.storesIn {m : Mutator} (plain : m.Plain) :
    m.StoresIn (fun r => r ≠ invalidRid) fun element => 0 ∉ element.value := by
  have text := plain.text
  have stores := plain.stores
  cases m with
  | setVar relationId val timestamp revision allocType maxLinear =>
      exact fun nonempty => ⟨(stores nonempty).1, text⟩
  | addLinearElement vid val timestamp revision => exact text
  | _ => trivial

namespace VCookieStore

/-- What a run of plain calls leaves in a new cookie. -/
structure PlainCookie (c : VCookie) : Prop where
  indexed : c.toRelVarTable.Indexed
  nulFree : c.profile.NulFree
  purchaseIds : PurchaseIdsKept c.purchaseIds
  table : Within (fun r => r ≠ invalidRid) (fun element => 0 ∉ element.value) c.toRelVarTable

theorem plainCookie_run (id : VCookieId) (newCookie : Bool) {ms : List Mutator}
    (plain : ∀ m ∈ ms, m.Plain) : PlainCookie (run mutate (fresh id newCookie) ms) := by
  have profile := profile_run (fresh id newCookie) ms
  rw [profile_fresh] at profile
  refine ⟨indexed_mutators id newCookie ms, ?_, ?_, ?_⟩
  · rw [profile]
    exact @run_invariant_of_forall _ _ Profile.mutate Profile.NulFree (fun m => 0 ∉ m.text)
      (fun _ _ text kept => kept.mutate text) _ Profile.nulFree_zero ms
      fun m member => (plain m member).text
  · have ids : (run mutate (fresh id newCookie) ms).purchaseIds =
        (run Profile.mutate Profile.zero ms).purchaseIds := congrArg Profile.purchaseIds profile
    have blank : PurchaseIdsKept Profile.zero.purchaseIds := ⟨Nat.zero_le _, List.nodup_nil⟩
    rw [ids]
    exact @run_invariant _ _ Profile.mutate (fun p => PurchaseIdsKept p.purchaseIds)
      (fun _ m kept => Profile.purchaseIdsKept_mutate kept m) _ blank ms
  · exact within_run List.not_mem_nil id newCookie fun m member => (plain m member).storesIn

theorem PlainCookie.encodable {c : VCookie} (plain : PlainCookie c) : Encodable c where
  indexed := plain.indexed
  nulFree := plain.nulFree
  purchaseIds := plain.purchaseIds
  values rv member := ⟨trivial, (plain.table rv member).2⟩

/-! ## What comes back of a list -/

/-- The elements of a list that are counted, from the first on that is not empty. -/
def reread (var : List RelVar) : List RelVar :=
  (counted var).dropWhile fun rv => rv.value = []

/-- The lists fit the 32-bit counts of the format, and none opens with an empty element. -/
structure InRange (c : VCookie) : Prop where
  small : ∀ r, (c.elements r).length < 2 ^ 32
  opens : ∀ r, ∀ rv ∈ (c.elements r).head?, rv.value ≠ []

theorem reread_eq_self_iff {var : List RelVar} :
    reread var = var ↔ var.length < 2 ^ 32 ∧ ∀ rv ∈ var.head?, rv.value ≠ [] := by
  have whole (small : var.length < 2 ^ 32) :
      reread var = var ↔ ∀ rv ∈ var.head?, rv.value ≠ [] := by
    rw [reread, counted_of_lt small]
    cases var with
    | nil => simp
    | cons rv rest =>
        rw [List.head?_cons, List.dropWhile_eq_self_iff]
        simp
  constructor
  · intro same
    have small : var.length < 2 ^ 32 := by
      calc var.length
        _ = (reread var).length := by rw [same]
        _ ≤ (counted var).length := (List.dropWhile_sublist _).length_le
        _ < 2 ^ 32 := by
          rw [length_counted]
          exact unsignedSize_lt _
    exact ⟨small, (whole small).mp same⟩
  · rintro ⟨small, opens⟩
    exact (whole small).mpr opens

theorem inRange_iff {c : VCookie} : InRange c ↔ ∀ r, reread (c.elements r) = c.elements r := by
  simp only [reread_eq_self_iff]
  exact ⟨fun inRange r => ⟨inRange.small r, inRange.opens r⟩,
    fun both => ⟨fun r => (both r).1, fun r => (both r).2⟩⟩

/-- A cookie without variables is in range. -/
theorem inRange_of_unset {c : VCookie} (unset : ∀ r, c.elements r = []) : InRange c := by
  rw [inRange_iff]
  intro r
  rw [unset]
  rfl

/-- A plain call adds no empty element to lists of fewer than 2^32. -/
theorem values_mutate {c : VCookie} (indexed : c.toRelVarTable.Indexed)
    (small : ∀ r, (c.elements r).length < 2 ^ 32)
    (values : ∀ r, ∀ element ∈ c.elements r, element.value ≠ []) {m : Mutator}
    (plain : m.Plain) : ∀ r, ∀ element ∈ (c.mutate m).elements r, element.value ≠ [] := by
  have cleared (relationId r : RelationId) :
      ∀ element ∈ (c.clearVar relationId).elements r, element.value ≠ [] := by
    rcases elements_clearVar_or indexed relationId r with empty | same
    · rw [empty]
      exact fun _ member => absurd member List.not_mem_nil
    · rw [same]
      exact values r
  intro r
  cases m with
  | setPurchaseId purchaseId =>
      rw [VCookie.mutate, setPurchaseId_table]
      exact values r
  | setVar relationId val timestamp revision allocType maxLinear =>
      rw [VCookie.mutate]
      by_cases empty : val = []
      · rw [empty, setVar_nil]
        by_cases last : allocType = .last
        · rw [if_pos last]
          exact cleared relationId r
        · rw [if_neg last]
          exact values r
      · rw [elements_setVar indexed relationId empty]
        split
        · split
          · exact values relationId
          · intro element stored
            rcases mem_storeElement_of_lt (small relationId) stored with old | rfl
            · exact values relationId element old
            · exact empty
        · exact values r
  | clearVar relationId => exact cleared relationId r
  | addLinearElement vid val timestamp revision =>
      rw [VCookie.mutate]
      by_cases inside : vid < c.relVar.length
      · rw [elements_addLinearElement indexed inside]
        split
        · intro element stored
          rcases List.mem_append.mp stored with old | new
          · exact values r element old
          · rw [List.mem_singleton.mp new]
            exact plain.stores
        · exact values r
      · rw [addLinearElement_of_ge (Nat.le_of_not_lt inside)]
        exact values r
  | _ => exact values r

/-- A run of plain calls that never leaves 2^32 elements to a relation stays in range. -/
theorem inRange_run (id : VCookieId) (newCookie : Bool) {ms : List Mutator}
    (plain : ∀ m ∈ ms, m.Plain)
    (small : Always VCookie.mutate (fun c => ∀ r, (c.elements r).length < 2 ^ 32)
      (fresh id newCookie) ms) : InRange (run mutate (fresh id newCookie) ms) := by
  have values : ∀ r, ∀ element ∈ (run mutate (fresh id newCookie) ms).elements r,
      element.value ≠ [] := by
    induction ms using List.reverseRecOn with
    | nil => exact fun _ _ stored => absurd stored List.not_mem_nil
    | append_singleton ms m ih =>
        have earlier : Always VCookie.mutate (fun c => ∀ r, (c.elements r).length < 2 ^ 32)
            (fresh id newCookie) ms :=
          fun done isPrefix => small done (isPrefix.trans (List.prefix_append ms [m]))
        have before := ih (fun m' member => plain m' (List.mem_append_left _ member)) earlier
        rw [run_concat]
        exact values_mutate (indexed_mutators id newCookie ms) (earlier ms (List.prefix_refl _))
          before (plain m (by simp))
  exact ⟨small ms (List.prefix_refl _), fun r rv opens => values r rv (List.mem_of_mem_head? opens)⟩

/-! ## The profile that comes back -/

/-- A field left out has the value its member starts with. -/
theorem run_fieldCalls {α : Type} [DecidableEq α] {empty : α} {set : α → Mutator} {p : Profile}
    {val : α} {rest : List Call} (blank : p.mutate (set empty) = p) :
    run profileCall p (fieldCalls empty set val ++ rest) =
      run profileCall (p.mutate (set val)) rest := by
  by_cases skipped : val = empty
  · rw [fieldCalls, if_pos skipped, skipped, blank]
    rfl
  · rw [fieldCalls, if_neg skipped]
    rfl

theorem run_purchaseCalls (p : Profile) (purchaseIds : List Bytes) :
    run profileCall p (purchaseCalls purchaseIds) =
      { p with purchaseIds := run usePurchaseId p.purchaseIds purchaseIds } := by
  induction purchaseIds generalizing p with
  | nil => rfl
  | cons purchaseId purchaseIds ih => exact ih (p.mutate (.setPurchaseId purchaseId))

theorem profileCall_varCalls (p : Profile) (rid : RelationId) (cnt : UInt32) (stored : Bool)
    (var : List RelVar) : run profileCall p (elementCalls rid cnt stored var) = p := by
  induction var generalizing stored with
  | nil => cases stored <;> rfl
  | cons rv var ih =>
      cases stored with
      | false => exact ih _
      | true => exact ih true

theorem run_varCalls (p : Profile) (sets : List (RelationId × List RelVar)) :
    run profileCall p (sets.flatMap varCalls) = p := by
  induction sets with
  | nil => rfl
  | cons set sets ih =>
      rw [List.flatMap_cons, run_append, varCalls, profileCall_varCalls, ih]

/-- The profile of a blank cookie that already holds a last-hit time. -/
def blankProfile (lastHitTimeGMT : TimeT) : Profile :=
  { Profile.zero with lastHitTimeGMT := lastHitTimeGMT }

/-- The members as the getters return them. -/
def gottenProfile (c : VCookie) : Profile where
  firstHitTimeGMT := c.getFirstHitTimeGMT
  lastHitTimeGMT := c.getLastHitTimeGMT
  lastHitTimeVisitorLocal := c.getLastHitTimeVisitorLocal
  lastVisitNum := c.getLastVisitNum
  lastPurchaseTimeGMT := c.getLastPurchaseTimeGMT
  firstHitReferrer := c.getFirstHitReferrer
  firstHitPageUrl := c.getFirstHitUrl
  firstHitPagename := c.getFirstHitPagename
  lastPurchaseNum := c.getLastPurchaseNum
  merchandising := c.getMerchandising
  purchaseIds := c.purchaseIds

theorem run_headerCalls {c : VCookie} (kept : PurchaseIdsKept c.purchaseIds)
    (saveLastHitTime : Bool) :
    run profileCall (blankProfile (if saveLastHitTime then 0 else c.getLastHitTimeGMT))
        (headerCalls c saveLastHitTime) = gottenProfile c := by
  have ids : run usePurchaseId [] c.purchaseIds = c.purchaseIds :=
    run_usePurchaseId [] c.purchaseIds kept
  cases saveLastHitTime with
  | true =>
      rw [headerCalls, run_fieldCalls, run_fieldCalls, run_fieldCalls, run_fieldCalls,
        run_fieldCalls, run_fieldCalls, run_fieldCalls, run_fieldCalls, run_fieldCalls,
        run_fieldCalls, run_purchaseCalls]
      · exact congrArg (fun purchaseIds => { gottenProfile c with purchaseIds }) ids
      all_goals simp only [Profile.mutate, blankProfile, Profile.zero, if_true]
  | false =>
      have skipped : fieldCalls 0 Mutator.setLastHitTimeGMT
          (if false then c.getLastHitTimeGMT else 0) = [] := rfl
      rw [headerCalls, skipped, List.nil_append, run_fieldCalls, run_fieldCalls, run_fieldCalls,
        run_fieldCalls, run_fieldCalls, run_fieldCalls, run_fieldCalls, run_fieldCalls,
        run_fieldCalls, run_purchaseCalls]
      · exact congrArg (fun purchaseIds => { gottenProfile c with purchaseIds }) ids
      all_goals simp only [Profile.mutate, blankProfile, Profile.zero]

/-! ## The table that comes back -/

theorem forall_mem_fieldCalls {α : Type} [DecidableEq α] {empty val : α} {set : α → Mutator}
    {holds : Call → Prop} (all : ∀ val, holds (.mutate (set val))) :
    ∀ call ∈ fieldCalls empty set val, holds call := by
  intro call member
  unfold fieldCalls at member
  split at member
  · contradiction
  · exact List.mem_singleton.mp member ▸ all val

/-- The known fields leave the table alone. -/
theorem table_replay_headerCalls (c start : VCookie) (saveLastHitTime : Bool) :
    (replay start (headerCalls c saveLastHitTime)).toRelVarTable = start.toRelVarTable := by
  have kept : ∀ call ∈ headerCalls c saveLastHitTime,
      ∀ d : VCookie, (applyCall d call).toRelVarTable = d.toRelVarTable := by
    simp only [headerCalls, List.forall_mem_append]
    refine ⟨forall_mem_fieldCalls fun _ _ => rfl, forall_mem_fieldCalls fun _ _ => rfl,
      forall_mem_fieldCalls fun _ _ => rfl, forall_mem_fieldCalls fun _ _ => rfl,
      forall_mem_fieldCalls fun _ _ => rfl, forall_mem_fieldCalls fun _ _ => rfl,
      forall_mem_fieldCalls fun _ _ => rfl, forall_mem_fieldCalls fun _ _ => rfl,
      forall_mem_fieldCalls fun _ _ => rfl, forall_mem_fieldCalls fun _ _ => rfl, ?_⟩
    intro call member d
    rcases List.mem_map.mp member with ⟨purchaseId, _, rfl⟩
    exact setPurchaseId_table d purchaseId
  exact @run_invariant_of_forall _ _ applyCall
    (fun d => d.toRelVarTable = start.toRelVarTable)
    (fun call => ∀ d : VCookie, (applyCall d call).toRelVarTable = d.toRelVarTable)
    (fun d _ same equal => (same d).trans equal) start rfl _ kept

/-- Appending to a relation that has elements. -/
theorem elements_replay_append (rid : RelationId) (cnt : UInt32) (var : List RelVar)
    {d : VCookie} (indexed : d.toRelVarTable.Indexed) (isSet : d.elements rid ≠ [])
    (r : RelationId) :
    (replay d (elementCalls rid cnt true var)).elements r =
      if r = rid then d.elements rid ++ var else d.elements r := by
  induction var generalizing d with
  | nil =>
      by_cases same : r = rid <;> simp [elementCalls, replay, same]
  | cons rv var ih =>
      rcases exists_of_elements_ne_nil isSet with ⟨entry, member, rfl⟩
      rcases indexed.findRelationId_of_mem member with ⟨inside, designated⟩
      have appended := elements_addLinearElement indexed inside rv.value rv.timestamp rv.revision
      rw [designated] at appended
      have indexed' := indexed_applyCall indexed (.append entry.relationId rv)
      have stored := appended entry.relationId
      rw [if_pos rfl] at stored
      refine (ih indexed' ?_).trans ?_
      · exact fun empty => by simp [applyCall, stored] at empty
      · by_cases same : r = entry.relationId
        · simp [same, applyCall, stored]
        · simp [same, applyCall, appended r]

/-- An empty value changes no list, where the relation and all above have no elements. -/
theorem elements_setVar_nil_of_blank {d : VCookie} (indexed : d.toRelVarTable.Indexed)
    {rid : RelationId} (blank : ∀ r, rid ≤ r → d.elements r = []) (timestamp : TimeT)
    (revision : UInt8) (allocType : AllocationType) (maxLinear : UInt32) (r : RelationId) :
    (d.setVar rid [] timestamp revision allocType maxLinear).1.elements r = d.elements r := by
  rw [setVar_nil]
  split
  · rw [elements_clearVar indexed]
    split
    · rename_i leads
      rcases Option.map_eq_some_iff.mp leads with ⟨entry, found, rfl⟩
      exact (blank _ (indexed.designated_eq_some_iff.mp found).2.1).symm
    · rfl
  · rfl

/-- Replaying the elements of a relation, where it and all above have none, stores those
from the first on that is not empty. -/
theorem elements_replay_elementCalls {rid : RelationId} {cnt : UInt32} {var : List RelVar}
    (few : var.length ≤ cnt.toNat) {d : VCookie} (indexed : d.toRelVarTable.Indexed)
    (blank : ∀ r, rid ≤ r → d.elements r = []) (r : RelationId) :
    (replay d (elementCalls rid cnt false var)).elements r =
      if r = rid then var.dropWhile fun rv => rv.value = [] else d.elements r := by
  induction var generalizing d with
  | nil =>
      by_cases same : r = rid
      · rw [if_pos same, same]
        exact blank rid (UInt16.le_refl rid)
      · rw [if_neg same]
        rfl
  | cons rv rest ih =>
      let allocType : AllocationType := if cnt > 1 then .linear else .last
      have indexed' := indexed_applyCall indexed (.setVar rid rv allocType cnt)
      by_cases empty : rv.value = []
      · have unchanged (r : RelationId) :
            (applyCall d (.setVar rid rv allocType cnt)).elements r = d.elements r := by
          rw [applyCall, empty]
          exact elements_setVar_nil_of_blank indexed blank ..
        have calls : elementCalls rid cnt false (rv :: rest) =
            .setVar rid rv allocType cnt :: elementCalls rid cnt false rest := by
          simp [elementCalls, empty, allocType]
        rw [calls, List.dropWhile_cons_of_pos (by simpa using empty), ← unchanged r]
        apply ih (Nat.le_of_succ_le few) indexed'
        intro r' above
        rw [unchanged]
        exact blank r' above
      · have stored (r : RelationId) :
            (applyCall d (.setVar rid rv allocType cnt)).elements r =
              if r = rid then [rv] else d.elements r := by
          apply (elements_setVar indexed rid empty ..).trans
          simp [blank rid (UInt16.le_refl rid)]
        rw [List.dropWhile_cons_of_neg (by simpa using empty)]
        by_cases many : cnt > 1
        · have isSet : (applyCall d (.setVar rid rv allocType cnt)).elements rid ≠ [] := by
            simp [stored]
          have appended := elements_replay_append rid cnt rest indexed' isSet r
          have calls : elementCalls rid cnt false (rv :: rest) =
              .setVar rid rv allocType cnt :: elementCalls rid cnt true rest := by
            simp [elementCalls, empty, allocType, many]
          rw [calls]
          apply appended.trans
          by_cases same : r = rid <;> simp [same, stored]
        · have single : rest = [] := by
            rw [gt_iff_lt, UInt32.lt_iff_toNat_lt, Nat.not_lt] at many
            rw [List.length_cons] at few
            exact List.length_eq_zero_iff.mp (by
              have one : (1 : UInt32).toNat = 1 := rfl
              omega)
          subst single
          exact stored r

/-- Replaying the set variables of an ascending list on a blank table stores
every one of them. -/
theorem elements_replay_sets {sets : List (RelationId × List RelVar)}
    (ascending : sets.Pairwise fun x y => x.1.toNat < y.1.toNat)
    (small : ∀ set ∈ sets, set.2.length < 2 ^ 32) {d : VCookie}
    (indexed : d.toRelVarTable.Indexed)
    (blank : ∀ set ∈ sets, ∀ r, set.1 ≤ r → d.elements r = []) :
    (∀ set ∈ sets, (replay d (sets.flatMap varCalls)).elements set.1 =
        set.2.dropWhile fun rv => rv.value = []) ∧
      ∀ r, (∀ set ∈ sets, set.1 ≠ r) →
        (replay d (sets.flatMap varCalls)).elements r = d.elements r := by
  induction sets generalizing d with
  | nil => exact ⟨fun _ member => absurd member List.not_mem_nil, fun _ _ => rfl⟩
  | cons set sets ih =>
      rcases List.pairwise_cons.mp ascending with ⟨below, ascendingRest⟩
      rcases List.forall_mem_cons.mp small with ⟨smallHead, smallRest⟩
      rcases List.forall_mem_cons.mp blank with ⟨blankHead, blankRest⟩
      have count : (UInt32.ofNat set.2.length).toNat = set.2.length := by
        rw [UInt32.toNat_ofNat']
        exact Nat.mod_eq_of_lt smallHead
      have stored := elements_replay_elementCalls (Nat.le_of_eq count.symm) indexed blankHead
      have apart {next : RelationId × List RelVar} (member : next ∈ sets) {r : RelationId}
          (above : next.1 ≤ r) : r ≠ set.1 := by
        rintro rfl
        exact absurd (below next member) (Nat.not_lt.mpr (UInt16.le_iff_toNat_le.mp above))
      have blankNext : ∀ next ∈ sets, ∀ r, next.1 ≤ r →
          (replay d (varCalls set)).elements r = [] := by
        intro next member r above
        rw [varCalls, stored, if_neg (apart member above)]
        exact blankRest next member r above
      obtain ⟨rest, others⟩ := ih ascendingRest smallRest (indexed_replay indexed (varCalls set))
        blankNext
      rw [List.flatMap_cons, replay_append]
      constructor
      · intro other member
        rcases List.mem_cons.mp member with rfl | member
        · rw [others _ fun next member => (apart member (UInt16.le_refl _)), varCalls, stored,
            if_pos rfl]
        · exact rest other member
      · intro r absent
        rcases List.forall_mem_cons.mp absent with ⟨absentHead, absentRest⟩
        rw [others r absentRest, varCalls, stored, if_neg absentHead.symm]

/-! ## Decoding an encoding -/

/-- A cookie without variables that is blank but for a last-hit time. -/
structure Blank (c : VCookie) (lastHitTimeGMT : TimeT) : Prop where
  profile : c.profile = blankProfile lastHitTimeGMT
  table : c.toRelVarTable = ⟨[], []⟩

/-- Decoding into a blank cookie gives back what the getters return, and of the elements
of every relation what is counted and reread. -/
theorem deserialize_encode {c : VCookie} (plain : PlainCookie c) {saveLastHitTime : Bool}
    (small : (encode c saveLastHitTime).length < 2 ^ 32) {start : VCookie}
    (blank : Blank start (if saveLastHitTime then 0 else c.getLastHitTimeGMT)) (junk : UInt8) :
    ∃ c', deserialize junk start (encode c saveLastHitTime) = (c', true) ∧ c'.id = start.id ∧
      c'.profile = gottenProfile c ∧ c'.toRelVarTable.Indexed ∧
      ∀ r, c'.elements r = reread (c.elements r) := by
  have indexed : start.toRelVarTable.Indexed := blank.table ▸ indexed_empty
  have encodable := plain.encodable
  refine ⟨replay start (encodingCalls c saveLastHitTime), ?_, id_replay _ _, ?_,
    indexed_replay indexed _, ?_⟩
  · rw [deserialize_eq_replay indexed, scan_encode encodable small]
  · rw [profile_replay, encodingCalls, run_append, run_varCalls, blank.profile]
    exact run_headerCalls plain.purchaseIds saveLastHitTime
  · intro r
    rw [encodingCalls, replay_append]
    have table := table_replay_headerCalls c start saveLastHitTime
    generalize replay start (headerCalls c saveLastHitTime) = d at table ⊢
    rw [blank.table] at table
    have indexed' : d.toRelVarTable.Indexed := table ▸ indexed_empty
    have empty (r : RelationId) : d.elements r = [] := by
      rw [table]
      rfl
    obtain ⟨stored, others⟩ := elements_replay_sets plain.indexed.ascending_countedVars
      (fun set member => (setFits_of_mem encodable set member).small) indexed'
      fun set _ r _ => empty r
    by_cases isSet : counted (c.elements r) = []
    · rw [others r, empty, reread, isSet, List.dropWhile_nil]
      rintro ⟨rid, var⟩ member rfl
      rcases plain.indexed.mem_countedVars_iff.mp member with ⟨_, nonempty, rfl⟩
      exact nonempty isSet
    · have elements : c.elements r ≠ [] := fun none => isSet (by rw [none, counted_nil])
      rcases exists_of_elements_ne_nil elements with ⟨rv, entry, rfl⟩
      exact stored (rv.relationId, _)
        (plain.indexed.mem_countedVars_iff.mpr ⟨(plain.table rv entry).1, isSet, rfl⟩)

/-! ## The whole state -/

/-- `c'` has the persistent state that the calls `ms` gave to `c`: in each scalar
member the value last written by its own setter, the purchase ids in order, and
the elements of every relation. -/
structure Restored (ms : List Mutator) (c c' : VCookie) : Prop where
  firstHitTimeGMT : c'.firstHitTimeGMT =
    Profile.lastWritten 0 (fun | .setFirstHitTimeGMT t => some t | _ => none) ms
  lastHitTimeGMT : c'.lastHitTimeGMT =
    Profile.lastWritten 0 (fun | .setLastHitTimeGMT t => some t | _ => none) ms
  lastHitTimeVisitorLocal : c'.lastHitTimeVisitorLocal =
    Profile.lastWritten 0 (fun | .setLastHitTimeVisitorLocal t => some t | _ => none) ms
  lastVisitNum : c'.lastVisitNum =
    Profile.lastWritten 0 (fun | .setLastVisitNum i => some i | _ => none) ms
  lastPurchaseTimeGMT : c'.lastPurchaseTimeGMT =
    Profile.lastWritten 0 (fun | .setLastPurchaseTimeGMT t => some t | _ => none) ms
  firstHitReferrer : c'.firstHitReferrer =
    Profile.lastWritten [] (fun | .setFirstHitReferrer s => some s | _ => none) ms
  firstHitPageUrl : c'.firstHitPageUrl =
    Profile.lastWritten [] (fun | .setFirstHitUrl s => some s | _ => none) ms
  firstHitPagename : c'.firstHitPagename =
    Profile.lastWritten [] (fun | .setFirstHitPagename s => some s | _ => none) ms
  lastPurchaseNum : c'.lastPurchaseNum =
    Profile.lastWritten 0 (fun | .setLastPurchaseNum i => some i | _ => none) ms
  merchandising : c'.merchandising =
    Profile.lastWritten [] (fun | .setMerchandising s => some s | _ => none) ms
  purchaseIds : c'.purchaseIds = c.purchaseIds
  elements : ∀ r, c'.elements r = c.elements r

theorem lastWritten_run (id : VCookieId) (newCookie : Bool) (ms : List Mutator) {α : Type}
    (member : Profile → α) {writes : Mutator → Option α}
    (own : ∀ p m, member (p.mutate m) = (writes m).getD (member p)) :
    Profile.lastWritten (member Profile.zero) writes ms =
      member (run mutate (fresh id newCookie) ms).profile := by
  rw [profile_run]
  exact (Profile.eq_lastWritten member writes own _ ms).symm

/-- A cookie with the profile and the elements of the run has the values last
written. -/
theorem restored_of_profile (id : VCookieId) (newCookie : Bool) (ms : List Mutator) {c' : VCookie}
    (profile : c'.profile = (run mutate (fresh id newCookie) ms).profile)
    (elements : ∀ r, c'.elements r = (run mutate (fresh id newCookie) ms).elements r) :
    Restored ms (run mutate (fresh id newCookie) ms) c' := by
  have written {α : Type} (member : Profile → α) {writes : Mutator → Option α}
      (own : ∀ p m, member (p.mutate m) = (writes m).getD (member p)) :
      member c'.profile = Profile.lastWritten (member Profile.zero) writes ms := by
    rw [lastWritten_run id newCookie ms member own, profile]
  constructor
  · exact written Profile.firstHitTimeGMT fun _ m => by cases m <;> rfl
  · exact written Profile.lastHitTimeGMT fun _ m => by cases m <;> rfl
  · exact written Profile.lastHitTimeVisitorLocal fun _ m => by cases m <;> rfl
  · exact written Profile.lastVisitNum fun _ m => by cases m <;> rfl
  · exact written Profile.lastPurchaseTimeGMT fun _ m => by cases m <;> rfl
  · exact written Profile.firstHitReferrer fun _ m => by cases m <;> rfl
  · exact written Profile.firstHitPageUrl fun _ m => by cases m <;> rfl
  · exact written Profile.firstHitPagename fun _ m => by cases m <;> rfl
  · exact written Profile.lastPurchaseNum fun _ m => by cases m <;> rfl
  · exact written Profile.merchandising fun _ m => by cases m <;> rfl
  · exact congrArg Profile.purchaseIds profile
  · exact elements

/-- The members of a run are the values last written. -/
theorem restored_iff (id : VCookieId) (newCookie : Bool) (ms : List Mutator) (c' : VCookie) :
    Restored ms (run mutate (fresh id newCookie) ms) c' ↔
      c'.profile = (run mutate (fresh id newCookie) ms).profile ∧
        ∀ r, c'.elements r = (run mutate (fresh id newCookie) ms).elements r := by
  constructor
  · intro restored
    have own := restored_of_profile id newCookie ms rfl fun _ => rfl
    refine ⟨?_, restored.elements⟩
    apply Profile.ext
    · exact restored.firstHitTimeGMT.trans own.firstHitTimeGMT.symm
    · exact restored.lastHitTimeGMT.trans own.lastHitTimeGMT.symm
    · exact restored.lastHitTimeVisitorLocal.trans own.lastHitTimeVisitorLocal.symm
    · exact restored.lastVisitNum.trans own.lastVisitNum.symm
    · exact restored.lastPurchaseTimeGMT.trans own.lastPurchaseTimeGMT.symm
    · exact restored.firstHitReferrer.trans own.firstHitReferrer.symm
    · exact restored.firstHitPageUrl.trans own.firstHitPageUrl.symm
    · exact restored.firstHitPagename.trans own.firstHitPagename.symm
    · exact restored.lastPurchaseNum.trans own.lastPurchaseNum.symm
    · exact restored.merchandising.trans own.merchandising.symm
    · exact restored.purchaseIds
  · rintro ⟨profile, elements⟩
    exact restored_of_profile id newCookie ms profile elements

theorem blank_fresh (id : VCookieId) (newCookie : Bool) : Blank (fresh id newCookie) 0 where
  profile := rfl
  table := rfl

/-- The round trip restores the state exactly when the members behind the two getters
that return the last-hit time hold that time, and the lists fit the format. -/
theorem roundTrip_restores_iff (id : VCookieId) (newCookie newCookie' : Bool) (ms : List Mutator)
    (junk : UInt8) (plain : ∀ m ∈ ms, m.Plain) :
    let c := run mutate (fresh id newCookie) ms
    ∃ bytes, serialize c true = some bytes ∧ (bytes.length < 2 ^ 32 →
      ∃ c', deserialize junk (fresh id newCookie') bytes = (c', true) ∧
        (Restored ms c c' ↔
          c.lastHitTimeVisitorLocal = c.lastHitTimeGMT ∧
            c.lastPurchaseTimeGMT = c.lastHitTimeGMT ∧ InRange c)) := by
  intro c
  have plainCookie : PlainCookie c := plainCookie_run id newCookie plain
  refine ⟨encode c true, serialize_eq plainCookie.indexed true, fun small => ?_⟩
  obtain ⟨c', accepted, _, profile, _, elements⟩ :=
    deserialize_encode plainCookie small (blank_fresh id newCookie') junk
  refine ⟨c', accepted, ?_⟩
  rw [restored_iff, profile, inRange_iff]
  constructor
  · rintro ⟨same, lists⟩
    exact ⟨(congrArg Profile.lastHitTimeVisitorLocal same).symm,
      (congrArg Profile.lastPurchaseTimeGMT same).symm,
      fun r => (elements r).symm.trans (lists r)⟩
  · rintro ⟨visitorLocal, purchaseTime, inRange⟩
    refine ⟨?_, fun r => (elements r).trans (inRange r)⟩
    apply Profile.ext <;> first | rfl | exact visitorLocal.symm | exact purchaseTime.symm

/-- A cookie with a purchase id and a linear variable. -/
theorem roundTrip_restores_linear :
    let ms : List Mutator := [.setFirstHitUrl [47, 97], .setPurchaseId [49],
      .setVar 3 [98] 7 1 .linear 0, .setVar 3 [99] 8 1 .linear 0, .clearVar 3]
    let c := run mutate (fresh ⟨1, 2, 3⟩ true) ms
    ∃ bytes, serialize c true = some bytes ∧ (bytes.length < 2 ^ 32 →
      ∃ c', deserialize 0 (fresh ⟨1, 2, 3⟩ false) bytes = (c', true) ∧
        (Restored ms c c' ↔
          c.lastHitTimeVisitorLocal = c.lastHitTimeGMT ∧
            c.lastPurchaseTimeGMT = c.lastHitTimeGMT ∧ InRange c)) :=
  roundTrip_restores_iff ⟨1, 2, 3⟩ true false
    [.setFirstHitUrl [47, 97], .setPurchaseId [49], .setVar 3 [98] 7 1 .linear 0,
      .setVar 3 [99] 8 1 .linear 0, .clearVar 3] 0
    (by
      simp only [List.forall_mem_cons]
      refine ⟨⟨by decide, trivial⟩, ⟨by decide, trivial⟩, ⟨by decide, ?_⟩, ⟨by decide, ?_⟩,
        ⟨by decide, trivial⟩, by simp⟩
      · exact fun _ => ⟨by decide, by decide⟩
      · exact fun _ => ⟨by decide, by decide⟩)

/-- A purchase time is not written, and so comes back as zero. -/
theorem roundTrip_loses_purchaseTime :
    let c := run mutate (fresh ⟨1, 2, 3⟩ true) [.setLastPurchaseTimeGMT 5]
    let c' := run mutate (fresh ⟨1, 2, 3⟩ true) []
    serialize c true = some [0, 0, 0, 8, 0, 0, 0, 0, 255, 255] ∧
      deserialize 0 (fresh ⟨1, 2, 3⟩ true) [0, 0, 0, 8, 0, 0, 0, 0, 255, 255] = (c', true) ∧
      ¬ Restored [.setLastPurchaseTimeGMT 5] c c' := by
  constructor
  · decide +kernel
  constructor
  · decide +kernel
  · intro restored
    have lost := restored.lastPurchaseTimeGMT
    exact absurd lost (by decide)

/-! ## Saving again -/

/-- What both storage paths decode into: the last-hit time is set in advance
when the blob does not hold it. -/
def loadTarget (id : VCookieId) (newCookie saveLastHitTime : Bool) (lastHitTimeGMT : TimeT) :
    VCookie :=
  if saveLastHitTime then fresh id newCookie
  else (fresh id newCookie).setLastHitTimeGMT lastHitTimeGMT

theorem blank_loadTarget (id : VCookieId) (newCookie saveLastHitTime : Bool)
    (lastHitTimeGMT : TimeT) :
    Blank (loadTarget id newCookie saveLastHitTime lastHitTimeGMT)
      (if saveLastHitTime then 0 else lastHitTimeGMT) := by
  cases saveLastHitTime with
  | true => exact blank_fresh id newCookie
  | false => exact ⟨rfl, rfl⟩

theorem id_loadTarget (id : VCookieId) (newCookie saveLastHitTime : Bool)
    (lastHitTimeGMT : TimeT) :
    (loadTarget id newCookie saveLastHitTime lastHitTimeGMT).id = id := by
  cases saveLastHitTime <;> rfl

/-- Loading a saved record succeeds, shows the same cookie and saves to the same
bytes, along both storage paths. -/
theorem reload_saves_same (id : VCookieId) (newCookie newCookie' saveLastHitTime : Bool)
    (ms : List Mutator) (junk : UInt8) (plain : ∀ m ∈ ms, m.Plain) :
    let c := run mutate (fresh id newCookie) ms
    ∃ bytes, serialize c saveLastHitTime = some bytes ∧ (bytes.length < 2 ^ 32 → InRange c →
      ∃ c' sequence,
        deserialize junk (loadTarget id newCookie' saveLastHitTime c.getLastHitTimeGMT) bytes =
            (c', true) ∧
          SameHeader c' c ∧
          c.setVarSequence (c.relVarSort.length + 1) c.getFirstSetVar = some sequence ∧
          c'.setVarSequence (c'.relVarSort.length + 1) c'.getFirstSetVar = some sequence ∧
          (∀ r ∈ sequence, (c'.getVarElementCount r).1 = (c.getVarElementCount r).1 ∧
            ∀ index, c'.getVar r index = c.getVar r index) ∧
          serialize c' saveLastHitTime = some bytes) := by
  intro c
  have plainCookie : PlainCookie c := plainCookie_run id newCookie plain
  refine ⟨encode c saveLastHitTime, serialize_eq plainCookie.indexed _, fun small inRange => ?_⟩
  obtain ⟨c', accepted, sameId, profile, indexed, rereads⟩ :=
    deserialize_encode plainCookie small (blank_loadTarget id newCookie' saveLastHitTime _) junk
  have elements (r : RelationId) : c'.elements r = c.elements r :=
    (rereads r).trans (inRange_iff.mp inRange r)
  have identity : c'.id = c.id := by
    rw [sameId, id_run, id_loadTarget]
    rfl
  have header := sameHeader_of_profile identity profile
  have sets := (setVars_eq_iff indexed plainCookie.indexed).mpr fun r _ => elements r
  refine ⟨c', _, accepted, header, plainCookie.indexed.setVarSequence_eq, ?_, ?_, ?_⟩
  · rw [indexed.setVarSequence_eq, sets]
  · intro r member
    rcases List.mem_map.mp member with ⟨set, listed, rfl⟩
    rcases plainCookie.indexed.mem_setVars_iff.mp listed with ⟨_, nonempty, list⟩
    have isSet : c.elements set.1 ≠ [] := list ▸ nonempty
    have answer : c'.answer set.1 = c.answer set.1 := by
      rw [answer_eq_elements_of_set indexed (elements set.1 ▸ isSet),
        answer_eq_elements_of_set plainCookie.indexed isSet, elements]
    constructor
    · rw [indexed.getVarElementCount_eq, plainCookie.indexed.getVarElementCount_eq, answer]
    · intro index
      rw [indexed.getVar_eq, plainCookie.indexed.getVar_eq, answer]
  · rw [serialize_congr plainCookie.indexed indexed header fun r => congrArg counted (elements r),
      serialize_eq plainCookie.indexed]

/-- The in-memory path of a cookie with a last-hit time and a variable. -/
theorem reload_saves_same_inMemory :
    let c := run mutate (fresh ⟨1, 2, 3⟩ true)
      [.setLastHitTimeGMT 9, .setPurchaseId [49], .setVar 3 [98] 7 1 .last 0]
    ∃ bytes, serialize c false = some bytes ∧ (bytes.length < 2 ^ 32 → InRange c →
      ∃ c' sequence,
        deserialize 0 (loadTarget ⟨1, 2, 3⟩ false false c.getLastHitTimeGMT) bytes = (c', true) ∧
          SameHeader c' c ∧
          c.setVarSequence (c.relVarSort.length + 1) c.getFirstSetVar = some sequence ∧
          c'.setVarSequence (c'.relVarSort.length + 1) c'.getFirstSetVar = some sequence ∧
          (∀ r ∈ sequence, (c'.getVarElementCount r).1 = (c.getVarElementCount r).1 ∧
            ∀ index, c'.getVar r index = c.getVar r index) ∧
          serialize c' false = some bytes) :=
  reload_saves_same ⟨1, 2, 3⟩ true false false
    [.setLastHitTimeGMT 9, .setPurchaseId [49], .setVar 3 [98] 7 1 .last 0] 0
    (by
      simp only [List.forall_mem_cons]
      refine ⟨⟨by decide, trivial⟩, ⟨by decide, trivial⟩, ⟨by decide, ?_⟩, by simp⟩
      exact fun _ => ⟨by decide, by decide⟩)

/-! ## Full lists -/

/-- A cookie with 2^32 elements in one list and no others. -/
theorem serialize_filled (id : VCookieId) (newCookie : Bool) (r : RelationId) {val : Bytes}
    (nonempty : val ≠ []) (timestamp : TimeT) (revision : UInt8) {n : Nat} (full : n = 2 ^ 32)
    (saveLastHitTime : Bool) :
    serialize (filled (fresh id newCookie) r val timestamp revision n) saveLastHitTime =
      serialize (fresh id newCookie) saveLastHitTime := by
  have indexed := indexed_fresh id newCookie
  apply serialize_congr indexed (indexed_filled indexed r val timestamp revision n)
  · exact sameHeader_of_profile (id_run _ _) (profile_filled ..)
  · intro r'
    by_cases same : r' = r
    · have count := @length_filled _ indexed r rfl val nonempty timestamp revision n
        (Nat.le_of_eq full)
      have blank : (fresh id newCookie).elements r = [] := rfl
      rw [same, blank, counted_nil, counted_eq_nil_iff, count, full]
      rfl
    · rw [elements_filled_of_ne indexed same nonempty]

/-- The list after a call that wraps and one with a limit of two. -/
theorem elements_wrapped {c : VCookie} (indexed : c.toRelVarTable.Indexed) {r : RelationId}
    (isSet : c.elements r ≠ []) (wraps : unsignedSize (c.elements r).length = 0) {x y : RelVar}
    (nonempty : x.value ≠ []) (nonempty' : y.value ≠ []) :
    (setLinear r 2 (setLinear r maxLinearInfinite c x) y).elements r = [default, y] := by
  have first := indexed_setLinear indexed r maxLinearInfinite x
  rw [elements_setLinear first r 2 nonempty',
    elements_setLinear indexed r maxLinearInfinite nonempty,
    storeElement_wrapped isSet wraps]

/-- The record of a cookie with that list alone. -/
theorem serialize_wrapped (id : VCookieId) (newCookie : Bool) {r : RelationId}
    (valid : r ≠ invalidRid) {x y : RelVar} (nonempty : x.value ≠ []) (nonempty' : y.value ≠ [])
    {n : Nat} (full : n = 2 ^ 32) (saveLastHitTime : Bool) :
    let c := filled (fresh id newCookie) r x.value x.timestamp x.revision n
    let wrapped := setLinear r 2 (setLinear r maxLinearInfinite c x) y
    wrapped.toRelVarTable.Indexed ∧ wrapped.elements r = [default, y] ∧
      serialize wrapped saveLastHitTime =
        some ([0, 0, 0] ++
          u32.put (UInt32.ofNat (7 + (encodeFields (fresh id newCookie) saveLastHitTime).length)) ++
          encodeFields (fresh id newCookie) saveLastHitTime ++
          encodeVars [(r, [default, y])]) := by
  intro c wrapped
  have blank := indexed_fresh id newCookie
  have filled := indexed_filled blank r x.value x.timestamp x.revision n
  have count := @length_filled _ blank r rfl x.value nonempty x.timestamp x.revision n
    (Nat.le_of_eq full)
  have list : wrapped.elements r = [default, y] := by
    apply elements_wrapped filled _ _ nonempty nonempty'
    · rw [← List.length_pos_iff, count, full]
      exact Nat.two_pow_pos 32
    · rw [count, full]
      rfl
  have others : ∀ r', r' ≠ r → wrapped.elements r' = [] := by
    intro r' other
    rw [elements_setLinear_of_ne (indexed_setLinear filled ..) other nonempty',
      elements_setLinear_of_ne filled other nonempty, elements_filled_of_ne blank other nonempty]
    rfl
  have header : SameHeader wrapped (fresh id newCookie) :=
    sameHeader_of_profile ((id_setLinear ..).trans ((id_setLinear ..).trans (id_run ..)))
      ((profile_setLinear ..).trans ((profile_setLinear ..).trans (profile_filled ..)))
  have indexed : wrapped.toRelVarTable.Indexed :=
    indexed_setLinear (indexed_setLinear filled ..) ..
  have small : counted [default, y] = [default, y] := counted_of_lt (by simp)
  have vars := indexed.countedVars_eq_singleton valid (by simp [list, small]) others
  rw [list, small] at vars
  exact ⟨indexed, list, by rw [serialize_eq indexed, encode, encodeFields_congr header, vars]⟩

/-- A list of 2^32 elements is not written. -/
theorem setVarSequence_filled {n : Nat} (full : n = 2 ^ 32) :
    let start := fresh ⟨1, 2, 3⟩ true
    let c := filled start 5 [97] 1 0 n
    serialize c true = serialize start true ∧
      c.setVarSequence (c.relVarSort.length + 1) c.getFirstSetVar ≠
        start.setVarSequence (start.relVarSort.length + 1) start.getFirstSetVar := by
  intro start c
  have blank : start.toRelVarTable.Indexed := indexed_fresh _ _
  have indexed : c.toRelVarTable.Indexed := indexed_filled blank 5 [97] 1 0 n
  have count := @length_filled _ blank 5 rfl [97] (by simp) 1 0 n (Nat.le_of_eq full)
  constructor
  · exact serialize_filled _ _ _ (by simp) _ _ full true
  · rw [indexed.setVarSequence_eq, blank.setVarSequence_eq]
    intro same
    have nonempty : c.elements 5 ≠ [] := by
      rw [← List.length_pos_iff, count, full]
      exact Nat.two_pow_pos 32
    have isSet : (5, c.elements 5) ∈ c.setVars :=
      indexed.mem_setVars_iff.mpr ⟨by decide, nonempty, rfl⟩
    have visited := List.mem_map_of_mem (f := Prod.fst) isSet
    rw [Option.some.inj same] at visited
    exact List.not_mem_nil visited

/-- One that opens with an empty element comes back without it. -/
theorem getVar_wrapped {n : Nat} (full : n = 2 ^ 32) :
    let start := fresh ⟨1, 2, 3⟩ true
    let c := filled start 5 [97] 1 0 n
    let wrapped := (c.mutate (.setVar 5 [97] 1 0 .linear maxLinearInfinite)).mutate
      (.setVar 5 [98] 2 0 .linear 2)
    let bytes := [0, 0, 0, 8, 0, 0, 0, 0, 5, 0, 2, 0, 0, 0, 0, 0, 0, 0, 0, 0, 0, 0, 0, 0, 98, 0, 2,
      0, 0, 0, 0, 0, 0, 0, 0, 255, 255]
    serialize wrapped true = some bytes ∧ wrapped.getVar 5 0 = some default ∧
      (deserialize 0 start bytes).2 = true ∧
      (deserialize 0 start bytes).1.getVar 5 0 = some ⟨[98], 2, 0⟩ := by
  intro start c wrapped bytes
  obtain ⟨indexed, list, record⟩ := @serialize_wrapped ⟨1, 2, 3⟩ true 5 (by decide)
    ⟨[97], 1, 0⟩ ⟨[98], 2, 0⟩ (by simp) (by simp) n full true
  constructor
  · apply record.trans
    decide +kernel
  constructor
  · have answer : wrapped.answer 5 = [default, ⟨[98], 2, 0⟩] := by
      rw [← list]
      apply answer_eq_elements_of_set indexed
      rw [list]
      simp
    have first := RelVarTable.Indexed.getVar_eq indexed 5 0
    exact first.trans (congrArg (fun list => list[0]?) answer)
  constructor
  · decide +kernel
  · decide +kernel

/-- After 2^32 elements in one list the reloaded cookie differs. -/
theorem reload_saves_same_wraps :
    let start := fresh ⟨1, 2, 3⟩ true
    let full := filled start 5 [97] 1 0 (2 ^ 32)
    let wrapped := (full.mutate (.setVar 5 [97] 1 0 .linear maxLinearInfinite)).mutate
      (.setVar 5 [98] 2 0 .linear 2)
    let bytes := [0, 0, 0, 8, 0, 0, 0, 0, 5, 0, 2, 0, 0, 0, 0, 0, 0, 0, 0, 0, 0, 0, 0, 0, 98, 0, 2,
      0, 0, 0, 0, 0, 0, 0, 0, 255, 255]
    (serialize full true = serialize start true ∧
      full.setVarSequence (full.relVarSort.length + 1) full.getFirstSetVar ≠
        start.setVarSequence (start.relVarSort.length + 1) start.getFirstSetVar) ∧
      (serialize wrapped true = some bytes ∧ wrapped.getVar 5 0 = some default ∧
        (deserialize 0 start bytes).2 = true ∧
        (deserialize 0 start bytes).1.getVar 5 0 = some ⟨[98], 2, 0⟩) :=
  ⟨setVarSequence_filled rfl, getVar_wrapped rfl⟩

end VCookieStore

end Elevator
