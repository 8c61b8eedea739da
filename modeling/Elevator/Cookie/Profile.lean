import Elevator.Cookie.Variables
import Elevator.Sequence.Recent

/-!
# The profile of a cookie

The profile is what a cookie stores besides its variables: ten scalar members
and the purchase-id list.  It forms a component of its own, on which a mutator
acts without looking at the flags or the table; a cookie refines it.  Along a
run a scalar holds the value last written by its setter, and the purchase ids
stay distinct and at most five.
-/

namespace Elevator

open Wire Transition Sequence

@[ext]
structure Profile where
  firstHitTimeGMT : TimeT
  lastHitTimeGMT : TimeT
  lastHitTimeVisitorLocal : TimeT
  lastVisitNum : UInt32
  lastPurchaseTimeGMT : TimeT
  firstHitReferrer : Bytes
  firstHitPageUrl : Bytes
  firstHitPagename : Bytes
  lastPurchaseNum : UInt32
  merchandising : Bytes
  purchaseIds : List Bytes
  deriving DecidableEq, Repr

/-- The recently used list of purchase ids: the id used goes to the end, and a
new one drops the oldest of a full list. -/
def usePurchaseId (saved : List Bytes) (purchaseId : Bytes) : List Bytes :=
  use numSavedPurchaseIds saved purchaseId

theorem usePurchaseId_eq (saved : List Bytes) (purchaseId : Bytes) :
    usePurchaseId saved purchaseId =
      if purchaseId ∈ saved then saved.erase purchaseId ++ [purchaseId]
      else (if saved.length = numSavedPurchaseIds then saved.tail else saved) ++ [purchaseId] := by
  unfold usePurchaseId use
  congr!

namespace Profile

/-- The profile of a cookie that was never written. -/
def zero : Profile :=
  ⟨0, 0, 0, 0, 0, [], [], [], 0, [], []⟩

/-- Every setter writes its own member. -/
def mutate (p : Profile) : Mutator → Profile
  | .setFirstHitTimeGMT t => { p with firstHitTimeGMT := t }
  | .setLastHitTimeGMT t => { p with lastHitTimeGMT := t }
  | .setLastHitTimeVisitorLocal t => { p with lastHitTimeVisitorLocal := t }
  | .setLastVisitNum i => { p with lastVisitNum := i }
  | .setLastPurchaseTimeGMT t => { p with lastPurchaseTimeGMT := t }
  | .setFirstHitReferrer s => { p with firstHitReferrer := s }
  | .setFirstHitUrl s => { p with firstHitPageUrl := s }
  | .setFirstHitPagename s => { p with firstHitPagename := s }
  | .setLastPurchaseNum i => { p with lastPurchaseNum := i }
  | .setMerchandising s => { p with merchandising := s }
  | .setPurchaseId purchaseId =>
      { p with purchaseIds := usePurchaseId p.purchaseIds purchaseId }
  | .setVar .. => p
  | .clearVar _ => p
  | .addLinearElement .. => p

end Profile

namespace VCookie

def profile (c : VCookie) : Profile where
  firstHitTimeGMT := c.firstHitTimeGMT
  lastHitTimeGMT := c.lastHitTimeGMT
  lastHitTimeVisitorLocal := c.lastHitTimeVisitorLocal
  lastVisitNum := c.lastVisitNum
  lastPurchaseTimeGMT := c.lastPurchaseTimeGMT
  firstHitReferrer := c.firstHitReferrer
  firstHitPageUrl := c.firstHitPageUrl
  firstHitPagename := c.firstHitPagename
  lastPurchaseNum := c.lastPurchaseNum
  merchandising := c.merchandising
  purchaseIds := c.purchaseIds

@[simp]
theorem profile_fresh (id : VCookieId) (newCookie : Bool) :
    (fresh id newCookie).profile = Profile.zero :=
  rfl

/-! ## Purchase ids -/

theorem shiftDown_eq (purchaseId : Bytes) (saved : List Bytes) :
    shiftDown purchaseId saved = saved ++ [purchaseId] := by
  induction saved with
  | nil => rfl
  | cons next rest ih => rw [shiftDown, ih, List.cons_append]

/-- The search moves a saved id to the end and fails on any other. -/
theorem movePurchaseId_eq (purchaseId : Bytes) (saved : List Bytes) :
    movePurchaseId purchaseId saved =
      if purchaseId ∈ saved then some (saved.erase purchaseId ++ [purchaseId]) else none := by
  induction saved with
  | nil => rfl
  | cons first rest ih =>
      by_cases same : first = purchaseId
      · subst same
        rw [movePurchaseId, if_pos rfl, if_pos List.mem_cons_self, List.erase_cons_head]
        split
        · rename_i last
          rw [last, List.nil_append]
        · rw [shiftDown_eq]
      · have member : purchaseId ∈ first :: rest ↔ purchaseId ∈ rest := by
          simp [Ne.symm same]
        rw [movePurchaseId, if_neg same, ih]
        by_cases saved : purchaseId ∈ rest
        · rw [if_pos saved, if_pos (member.mpr saved), List.erase_cons_tail (by simpa using same)]
          rfl
        · rw [if_neg saved, if_neg (mt member.mp saved)]
          rfl

theorem setPurchaseId_of_mem {c : VCookie} {purchaseId : Bytes}
    (saved : purchaseId ∈ c.purchaseIds) :
    c.setPurchaseId purchaseId =
      ({ c with purchaseIds := usePurchaseId c.purchaseIds purchaseId }, false) := by
  simp [setPurchaseId, movePurchaseId_eq, usePurchaseId_eq, saved]

theorem setPurchaseId_of_not_mem {c : VCookie} {purchaseId : Bytes}
    (new : purchaseId ∉ c.purchaseIds) :
    c.setPurchaseId purchaseId =
      ({ c with
          purchaseIds := usePurchaseId c.purchaseIds purchaseId
          modified := true
          ecommerceModified := true }, true) := by
  simp [setPurchaseId, movePurchaseId_eq, usePurchaseId_eq, new]

/-- Distinct ids, no more than are kept. -/
structure PurchaseIdsKept (saved : List Bytes) : Prop where
  length_le : saved.length ≤ numSavedPurchaseIds
  nodup : saved.Nodup

/-- The id used stands behind some of the other ids, in their order. -/
theorem usePurchaseId_eq_append {saved : List Bytes} (kept : PurchaseIdsKept saved)
    (purchaseId : Bytes) :
    ∃ others, usePurchaseId saved purchaseId = others ++ [purchaseId] ∧
      others.Sublist saved ∧ purchaseId ∉ others ∧ others.length < numSavedPurchaseIds := by
  have bound := kept.length_le
  rw [usePurchaseId_eq]
  split
  · rename_i member
    refine ⟨saved.erase purchaseId, rfl, List.erase_sublist, kept.nodup.not_mem_erase, ?_⟩
    have positive := List.length_pos_of_mem member
    rw [List.length_erase_of_mem member]
    omega
  · rename_i new
    refine ⟨_, rfl, ?_⟩
    split
    · rename_i full
      refine ⟨List.tail_sublist saved, fun member => new (List.mem_of_mem_tail member), ?_⟩
      rw [List.length_tail, full]
      exact Nat.lt_of_lt_of_eq (Nat.sub_lt Nat.succ_pos' Nat.one_pos) rfl
    · exact ⟨List.Sublist.refl saved, new, by omega⟩

theorem purchaseIdsKept_use {saved : List Bytes} (kept : PurchaseIdsKept saved)
    (purchaseId : Bytes) : PurchaseIdsKept (usePurchaseId saved purchaseId) := by
  rcases usePurchaseId_eq_append kept purchaseId with ⟨others, equal, sublist, new, room⟩
  rw [equal]
  constructor
  · rw [List.length_append]
    exact room
  · have rest := kept.nodup.sublist sublist
    rw [← List.concat_eq_append]
    exact rest.concat new

/-- A call returns whether its id is new. -/
theorem setPurchaseId_eq_true_iff (c : VCookie) (purchaseId : Bytes) :
    (c.setPurchaseId purchaseId).2 = true ↔ purchaseId ∉ c.purchaseIds := by
  by_cases saved : purchaseId ∈ c.purchaseIds
  · simp [setPurchaseId_of_mem saved, saved]
  · simp [setPurchaseId_of_not_mem saved, saved]

/-- Using distinct ids in order rebuilds their list. -/
theorem run_usePurchaseId (done rest : List Bytes) (kept : PurchaseIdsKept (done ++ rest)) :
    run usePurchaseId done rest = done ++ rest := by
  induction rest generalizing done with
  | nil => simp
  | cons next rest ih =>
      have split : done ++ next :: rest = done ++ [next] ++ rest := by simp
      have bound := kept.length_le
      have new : next ∉ done := by
        have apart := (List.nodup_append.mp kept.nodup).2.2
        exact fun member => apart next member next List.mem_cons_self rfl
      have room : ¬ done.length = numSavedPurchaseIds := by
        rw [List.length_append, List.length_cons] at bound
        omega
      rw [run_cons, usePurchaseId_eq, if_neg new, if_neg room, split]
      exact ih (done ++ [next]) (split ▸ kept)

/-! ## Refinement -/

/-- A projection that looks neither at the table nor at the flags its writers
set. -/
def IgnoresVars {α : Type} (f : VCookie → α) : Prop :=
  ∀ (c : VCookie) (table : RelVarTable) (modified relVarModified : Bool),
    f { c with toRelVarTable := table, modified, relVarModified } = f c

section IgnoresVars

variable {α : Type} {f : VCookie → α} (ignores : IgnoresVars f)

include ignores

theorem IgnoresVars.clearVar (c : VCookie) (relationId : RelationId) :
    f (c.clearVar relationId) = f c := by
  unfold VCookie.clearVar
  dsimp only
  split
  · exact ignores ..
  · rfl

theorem IgnoresVars.setVar (c : VCookie) (relationId : RelationId) (val : Bytes)
    (timestamp : TimeT) (revision : UInt8) (allocType : AllocationType) (maxLinear : UInt32) :
    f (c.setVar relationId val timestamp revision allocType maxLinear).1 = f c := by
  unfold VCookie.setVar
  dsimp only
  split
  · split
    · exact ignores.clearVar c relationId
    · rfl
  · split
    · exact ignores c ..
    · split
      · rfl
      · exact ignores ..

theorem IgnoresVars.addLinearElement (c : VCookie) (vid : Nat) (val : Bytes) (timestamp : TimeT)
    (revision : UInt8) : f (c.addLinearElement vid val timestamp revision) = f c := by
  unfold VCookie.addLinearElement
  split
  · rfl
  · exact ignores ..

end IgnoresVars

theorem ignoresVars_profile : IgnoresVars profile :=
  fun _ _ _ _ => rfl

theorem ignoresVars_id : IgnoresVars id :=
  fun _ _ _ _ => rfl

@[simp]
theorem profile_setPurchaseId (c : VCookie) (purchaseId : Bytes) :
    (c.setPurchaseId purchaseId).1.profile =
      { c.profile with purchaseIds := usePurchaseId c.purchaseIds purchaseId } := by
  by_cases saved : purchaseId ∈ c.purchaseIds
  · rw [setPurchaseId_of_mem saved]
    rfl
  · rw [setPurchaseId_of_not_mem saved]
    rfl

/-- A mutator of the cookie is the mutator of its profile. -/
theorem profile_mutate (c : VCookie) (m : Mutator) : (c.mutate m).profile = c.profile.mutate m := by
  cases m with
  | setPurchaseId purchaseId => exact profile_setPurchaseId c purchaseId
  | setVar relationId val timestamp revision allocType maxLinear =>
      exact ignoresVars_profile.setVar c ..
  | clearVar relationId => exact ignoresVars_profile.clearVar c relationId
  | addLinearElement vid val timestamp revision =>
      exact ignoresVars_profile.addLinearElement c ..
  | _ => rfl

/-- No mutator writes the identity. -/
theorem id_mutate (c : VCookie) (m : Mutator) : (c.mutate m).id = c.id := by
  cases m with
  | setPurchaseId purchaseId =>
      unfold mutate setPurchaseId
      dsimp only
      split <;> rfl
  | setVar relationId val timestamp revision allocType maxLinear =>
      exact ignoresVars_id.setVar c ..
  | clearVar relationId => exact ignoresVars_id.clearVar c relationId
  | addLinearElement vid val timestamp revision => exact ignoresVars_id.addLinearElement c ..
  | _ => rfl

theorem id_run (c : VCookie) (ms : List Mutator) : (run mutate c ms).id = c.id :=
  @run_invariant _ _ mutate (fun d => d.id = c.id)
    (fun d m same => (id_mutate d m).trans same) c rfl ms

theorem profile_run (c : VCookie) (ms : List Mutator) :
    (run mutate c ms).profile = run Profile.mutate c.profile ms :=
  run_map profile_mutate c ms

/-- A call uses its id. -/
theorem purchaseIds_setPurchaseId (c : VCookie) (purchaseId : Bytes) :
    (c.mutate (.setPurchaseId purchaseId)).purchaseIds =
      use numSavedPurchaseIds c.purchaseIds purchaseId :=
  congrArg Profile.purchaseIds (profile_setPurchaseId c purchaseId)

/-- The purchase ids of a cookie are the last five distinct ids used, by their last
use, and a call returns true for the others. -/
theorem purchaseIds_mostRecent (id : VCookieId) (newCookie : Bool) (used : List Bytes) :
    let c := run mutate (fresh id newCookie) (used.map Mutator.setPurchaseId)
    c.purchaseIds = mostRecent numSavedPurchaseIds used ∧
      c.getPurchaseIdCount ≤ numSavedPurchaseIds ∧ c.purchaseIds.Nodup ∧
      ∀ next, (c.setPurchaseId next).2 = true ↔ next ∉ c.purchaseIds := by
  intro c
  have saved : c.purchaseIds = mostRecent numSavedPurchaseIds used := by
    rw [← run_use (by decide) used]
    change (run mutate (fresh id newCookie) (used.map Mutator.setPurchaseId)).purchaseIds = _
    rw [run, List.foldl_map]
    exact run_map purchaseIds_setPurchaseId (fresh id newCookie) used
  constructor
  · exact saved
  constructor
  · rw [getPurchaseIdCount, saved]
    exact length_mostRecent_le _ used
  constructor
  · rw [saved]
    exact nodup_mostRecent _ used
  · exact setPurchaseId_eq_true_iff c

/-- Of seven uses of six ids the id used again outlives an older one. -/
example :
    (run mutate (fresh ⟨1, 2, 3⟩ true)
      ([[1], [2], [3], [2], [4], [5], [6]].map Mutator.setPurchaseId)).purchaseIds =
        [[3], [2], [4], [5], [6]] := by
  decide +kernel

end VCookie

namespace Profile

open VCookie

theorem purchaseIdsKept_mutate {p : Profile} (kept : PurchaseIdsKept p.purchaseIds) (m : Mutator) :
    PurchaseIdsKept (p.mutate m).purchaseIds := by
  cases m with
  | setPurchaseId purchaseId => exact purchaseIdsKept_use kept purchaseId
  | _ => exact kept

/-! ## The value last written -/

/-- The last value that the calls write, if one of them does. -/
def lastWritten {α : Type} (initial : α) (writes : Mutator → Option α) (ms : List Mutator) : α :=
  (ms.filterMap writes).getLast?.getD initial

/-- A member that only its own setter writes holds the value last written. -/
theorem eq_lastWritten {α : Type} (member : Profile → α) (writes : Mutator → Option α)
    (own : ∀ p m, member (p.mutate m) = (writes m).getD (member p)) (p : Profile)
    (ms : List Mutator) :
    member (run mutate p ms) = lastWritten (member p) writes ms := by
  induction ms using List.reverseRecOn with
  | nil => rfl
  | append_singleton ms last ih =>
      rw [run_concat, own, ih, lastWritten, lastWritten, List.filterMap_append]
      cases written : writes last <;> simp [written]

end Profile

end Elevator
