import Elevator.Cookie.Modified
import Elevator.Sequence.Recent

/-!
# Allocation types

A linear variable is a sliding window over the values set, whatever limits and
allocation types its list has seen before, and its handle leads to the same relation
in every later state.  A first allocation keeps what it finds only if that is a single
element: a longer list, left by linear calls, is overwritten.  Without a limit the index
written is cast to 32 bits, so the append to 2^32 elements overwrites the first of them.
-/

namespace Elevator

open Wire Transition Sequence RelVarTable

namespace VCookie

/-! ## Linear allocation -/

theorem evict_eq_rtake {maxLinear : UInt32} (limited : maxLinear ≠ maxLinearInfinite)
    (var : List RelVar) : evict maxLinear var = var.rtake (maxLinear.toNat - 1) := by
  have positive : 0 < maxLinear.toNat := by
    apply Nat.pos_of_ne_zero
    exact fun zero => limited (UInt32.toNat_inj.mp zero)
  induction var with
  | nil => exact (List.rtake_nil _).symm
  | cons oldest rest ih =>
      rw [evict]
      split
      · rename_i full
        have room : maxLinear.toNat - 1 ≤ rest.length := by
          rw [List.length_cons] at full
          omega
        rw [ih, List.rtake, List.rtake, List.length_cons, Nat.succ_sub room, List.drop_succ_cons]
      · rename_i room
        rw [rtake_of_length_le (by omega)]

/-- A limited linear call slides the window. -/
theorem storeElement_eq_push {maxLinear : UInt32} (limited : maxLinear ≠ maxLinearInfinite)
    (var : List RelVar) (element : RelVar) :
    storeElement var element .linear maxLinear = push maxLinear.toNat var element := by
  have positive : 0 < maxLinear.toNat := by
    apply Nat.pos_of_ne_zero
    exact fun zero => limited (UInt32.toNat_inj.mp zero)
  rcases Nat.exists_eq_add_one.mpr positive with ⟨n, size⟩
  rw [storeElement_limited limited, evict_eq_rtake limited, push, size,
    List.rtake_concat_succ, Nat.add_sub_cancel]

/-- An unlimited linear call appends to fewer than 2^32 elements and to no more. -/
theorem storeElement_unlimited_iff (var : List RelVar) {element : RelVar}
    (nonempty : element.value ≠ []) :
    storeElement var element .linear maxLinearInfinite = var ++ [element] ↔
      var.length < 2 ^ 32 := by
  constructor
  · intro appended
    by_contra full
    have inside : unsignedSize var.length < var.length :=
      Nat.lt_of_lt_of_le (unsignedSize_lt _) (Nat.le_of_not_lt full)
    simp only [storeElement_linear, ne_eq, not_true_eq_false, if_false,
      List.set_append_left _ _ inside] at appended
    have last := (List.append_inj' appended rfl).2
    exact nonempty (congrArg RelVar.value (List.cons.inj last).1).symm
  · exact fun small => storeElement_unlimited small element

/-- Its first element is the old one, unless the index wraps to the first place. -/
theorem head?_storeElement_unlimited {var : List RelVar} (nonempty : var ≠ [])
    (element : RelVar) :
    (storeElement var element .linear maxLinearInfinite).head? =
      if unsignedSize var.length = 0 then some element else var.head? := by
  cases var with
  | nil => contradiction
  | cons oldest rest =>
      simp only [storeElement_linear, ne_eq, not_true_eq_false, if_false]
      cases unsignedSize (oldest :: rest).length <;> rfl

/-- An unlimited call that wraps leaves an empty element, which a limit of two brings to
the front. -/
theorem storeElement_wrapped {var : List RelVar} (nonempty : var ≠ [])
    (wraps : unsignedSize var.length = 0) (x y : RelVar) :
    storeElement (storeElement var x .linear maxLinearInfinite) y .linear 2 = [default, y] := by
  have inside : 0 < var.length := List.length_pos_iff.mpr nonempty
  have two : (2 : UInt32).toNat = 0 + 1 + 1 := rfl
  rw [storeElement_eq_push (by decide), push, two, List.rtake_concat_succ]
  simp only [storeElement_linear, ne_eq, not_true_eq_false, if_false, wraps,
    List.set_append_left _ _ inside]
  rw [List.rtake_concat_succ, List.rtake_zero]
  rfl

/-- A linear call that sets relation `r` to an element. -/
def setLinear (r : RelationId) (maxLinear : UInt32) (c : VCookie) (element : RelVar) : VCookie :=
  (c.setVar r element.value element.timestamp element.revision .linear maxLinear).1

theorem elements_setLinear {c : VCookie} (indexed : c.toRelVarTable.Indexed) (r : RelationId)
    (maxLinear : UInt32) {element : RelVar} (nonempty : element.value ≠ []) :
    (setLinear r maxLinear c element).elements r =
      storeElement (c.elements r) element .linear maxLinear := by
  rw [setLinear, elements_setVar indexed r nonempty, if_pos rfl, if_neg (by simp)]

theorem id_setLinear (r : RelationId) (maxLinear : UInt32) (c : VCookie) (element : RelVar) :
    (setLinear r maxLinear c element).id = c.id :=
  id_mutate c (.setVar ..)

theorem profile_setLinear (r : RelationId) (maxLinear : UInt32) (c : VCookie)
    (element : RelVar) : (setLinear r maxLinear c element).profile = c.profile :=
  profile_mutate c (.setVar ..)

theorem elements_setLinear_of_ne {c : VCookie} (indexed : c.toRelVarTable.Indexed)
    {r r' : RelationId} (other : r' ≠ r) {maxLinear : UInt32} {element : RelVar}
    (nonempty : element.value ≠ []) :
    (setLinear r maxLinear c element).elements r' = c.elements r' := by
  rw [setLinear, elements_setVar indexed r nonempty, if_neg other]

/-- An unlimited call appends exactly to fewer than 2^32 elements. -/
theorem elements_setVar_unlimited_iff {c : VCookie} (indexed : c.toRelVarTable.Indexed)
    (r : RelationId) {val : Bytes} (nonempty : val ≠ []) (timestamp : TimeT) (revision : UInt8) :
    (c.setVar r val timestamp revision .linear maxLinearInfinite).1.elements r =
        c.elements r ++ [⟨val, timestamp, revision⟩] ↔
      (c.elements r).length < 2 ^ 32 := by
  rw [elements_setVar indexed r nonempty, if_pos rfl, if_neg (by simp)]
  exact storeElement_unlimited_iff _ nonempty

theorem indexed_setLinear {c : VCookie} (indexed : c.toRelVarTable.Indexed) (r : RelationId)
    (maxLinear : UInt32) (element : RelVar) :
    (setLinear r maxLinear c element).toRelVarTable.Indexed :=
  indexed_setVar indexed r element.value element.timestamp element.revision .linear maxLinear

/-- A run of calls with one limit slides the window. -/
theorem elements_run_setLinear {c : VCookie} (indexed : c.toRelVarTable.Indexed)
    (r : RelationId) {maxLinear : UInt32} (limited : maxLinear ≠ maxLinearInfinite)
    {values : List RelVar} (nonempty : ∀ element ∈ values, element.value ≠ []) :
    (run (setLinear r maxLinear) c values).elements r =
      run (push maxLinear.toNat) (c.elements r) values := by
  induction values generalizing c with
  | nil => rfl
  | cons element values ih =>
      rcases List.forall_mem_cons.mp nonempty with ⟨first, rest⟩
      rw [run_cons, ih (indexed_setLinear indexed r maxLinear element) rest,
        elements_setLinear indexed r maxLinear first, storeElement_eq_push limited, run_cons]

/-- Unlimited calls append as long as the list has fewer than 2^32 elements. -/
theorem elements_run_setLinear_unlimited {c : VCookie} (indexed : c.toRelVarTable.Indexed)
    (r : RelationId) {values : List RelVar} (nonempty : ∀ element ∈ values, element.value ≠ [])
    (room : (c.elements r).length + values.length ≤ 2 ^ 32) :
    (run (setLinear r maxLinearInfinite) c values).elements r = c.elements r ++ values := by
  induction values generalizing c with
  | nil => exact (List.append_nil _).symm
  | cons element values ih =>
      rcases List.forall_mem_cons.mp nonempty with ⟨first, rest⟩
      rw [List.length_cons] at room
      have appended := elements_setLinear indexed r maxLinearInfinite first
      rw [storeElement_unlimited (by omega)] at appended
      have room' : ((setLinear r maxLinearInfinite c element).elements r).length +
          values.length ≤ 2 ^ 32 := by
        rw [appended, List.length_append, List.length_singleton]
        omega
      rw [run_cons, ih (indexed_setLinear indexed r maxLinearInfinite element) rest room',
        appended, List.append_assoc, List.singleton_append]

/-- A limited linear call leaves the last elements of the old list with the new one, and
an unlimited one all of them exactly if the old ones are fewer than 2^32; a run of limited
calls from an unset relation leaves the last values set. -/
theorem linear_slidingWindow (id : VCookieId) (newCookie : Bool) (ops : List CookieOp)
    (r : RelationId) (maxLinear : UInt32) :
    let c := run applyOp (fresh id newCookie) ops
    (∀ element : RelVar, element.value ≠ [] →
      let set := c.setVar r element.value element.timestamp element.revision .linear maxLinear
      if maxLinear = maxLinearInfinite then
        set.1.elements r = c.elements r ++ [element] ↔ (c.elements r).length < 2 ^ 32
      else
        set.1.elements r = (c.elements r ++ [element]).rtake maxLinear.toNat) ∧
      (maxLinear ≠ maxLinearInfinite → c.elements r = [] →
        ∀ values : List RelVar, (∀ element ∈ values, element.value ≠ []) →
          (run (setLinear r maxLinear) c values).elements r =
            values.rtake (min maxLinear.toNat values.length)) := by
  intro c
  have indexed : c.toRelVarTable.Indexed := indexed_run id newCookie ops
  constructor
  · intro element nonempty set
    split
    · rename_i unlimited
      have appends := elements_setVar_unlimited_iff indexed r nonempty element.timestamp
        element.revision
      rwa [← unlimited] at appends
    · rename_i limited
      have stored : set.1.elements r = storeElement (c.elements r) element .linear maxLinear :=
        elements_setLinear indexed r maxLinear nonempty
      rw [stored]
      exact storeElement_eq_push limited _ _
  · intro limited unset values nonempty
    rw [elements_run_setLinear indexed r limited nonempty, unset, run_push]
    rcases Nat.le_total maxLinear.toNat values.length with long | short
    · rw [Nat.min_eq_left long]
    · rw [Nat.min_eq_right short, rtake_of_length_le short, rtake_of_length_le (Nat.le_refl _)]

/-- The cookie after `n` unlimited calls with one value. -/
def filled (c : VCookie) (r : RelationId) (val : Bytes) (timestamp : TimeT) (revision : UInt8)
    (n : Nat) : VCookie :=
  run mutate c (List.replicate n (.setVar r val timestamp revision .linear maxLinearInfinite))

theorem indexed_filled {c : VCookie} (indexed : c.toRelVarTable.Indexed) (r : RelationId)
    (val : Bytes) (timestamp : TimeT) (revision : UInt8) (n : Nat) :
    (filled c r val timestamp revision n).toRelVarTable.Indexed :=
  @run_invariant _ _ mutate (fun c => c.toRelVarTable.Indexed)
    (fun _ m kept => indexed_mutate kept m) c indexed _

/-- Up to 2^32 elements such calls fill the list. -/
theorem elements_filled {c : VCookie} (indexed : c.toRelVarTable.Indexed) (r : RelationId)
    {val : Bytes} (nonempty : val ≠ []) (timestamp : TimeT) (revision : UInt8) {n : Nat}
    (room : (c.elements r).length + n ≤ 2 ^ 32) :
    (filled c r val timestamp revision n).elements r =
      c.elements r ++ List.replicate n ⟨val, timestamp, revision⟩ := by
  have calls := run_comp mutate (fun element : RelVar => Mutator.setVar r element.value
    element.timestamp element.revision .linear maxLinearInfinite) c
    (List.replicate n ⟨val, timestamp, revision⟩)
  have values : ∀ other ∈ List.replicate n (⟨val, timestamp, revision⟩ : RelVar),
      other.value ≠ [] := by
    intro other member
    rw [List.eq_of_mem_replicate member]
    exact nonempty
  rw [List.map_replicate] at calls
  rw [filled, ← calls]
  apply elements_run_setLinear_unlimited indexed r values
  rwa [List.length_replicate]

/-- A list that is not set is filled up to any count within 2^32. -/
theorem length_filled {c : VCookie} (indexed : c.toRelVarTable.Indexed) {r : RelationId}
    (unset : c.elements r = []) {val : Bytes} (nonempty : val ≠ []) (timestamp : TimeT)
    (revision : UInt8) {n : Nat} (room : n ≤ 2 ^ 32) :
    ((filled c r val timestamp revision n).elements r).length = n := by
  rw [elements_filled indexed r nonempty timestamp revision, unset, List.nil_append,
    List.length_replicate]
  rwa [unset, List.length_nil, Nat.zero_add]

/-- Other members and relations stay. -/
theorem profile_filled (c : VCookie) (r : RelationId) (val : Bytes) (timestamp : TimeT)
    (revision : UInt8) (n : Nat) : (filled c r val timestamp revision n).profile = c.profile := by
  rw [filled, profile_run]
  apply @run_invariant_of_forall _ _ Profile.mutate (fun p => p = c.profile)
    (fun m => ∀ p : Profile, p.mutate m = p) (fun p m quiet same => (quiet p).trans same) _ rfl
  intro m member p
  rw [List.eq_of_mem_replicate member]
  rfl

theorem elements_filled_of_ne {c : VCookie} (indexed : c.toRelVarTable.Indexed)
    {r r' : RelationId} (other : r' ≠ r) {val : Bytes} (nonempty : val ≠ []) (timestamp : TimeT)
    (revision : UInt8) (n : Nat) :
    (filled c r val timestamp revision n).elements r' = c.elements r' := by
  induction n generalizing c with
  | zero => rfl
  | succ n ih =>
      have indexed' := indexed_setVar indexed r val timestamp revision .linear maxLinearInfinite
      exact (ih indexed').trans (@elements_setLinear_of_ne _ indexed _ _ other maxLinearInfinite
        ⟨val, timestamp, revision⟩ nonempty)

theorem filled_reachable (id : VCookieId) (newCookie : Bool) (r : RelationId) (val : Bytes)
    (timestamp : TimeT) (revision : UInt8) (n : Nat) :
    ∃ ops, filled (fresh id newCookie) r val timestamp revision n =
      run applyOp (fresh id newCookie) ops :=
  ⟨_, (run_mutators _ _).symm⟩

/-- The call after 2^32 others does not append. -/
theorem elements_setVar_filled_ne {c : VCookie} (indexed : c.toRelVarTable.Indexed)
    {r : RelationId} (unset : c.elements r = []) {val val' : Bytes} (nonempty : val ≠ [])
    (nonempty' : val' ≠ []) (timestamp timestamp' : TimeT) (revision revision' : UInt8) {n : Nat}
    (full : n = 2 ^ 32) :
    ((filled c r val timestamp revision n).setVar r val' timestamp' revision' .linear
        maxLinearInfinite).1.elements r ≠
      (filled c r val timestamp revision n).elements r ++ [⟨val', timestamp', revision'⟩] := by
  intro appended
  have small := (elements_setVar_unlimited_iff (indexed_filled indexed r val timestamp revision n)
    r nonempty' timestamp' revision').mp appended
  rw [length_filled indexed unset nonempty timestamp revision (Nat.le_of_eq full)] at small
  exact Nat.ne_of_lt small full

/-- An unlimited call that finds 2^32 elements does not append. -/
theorem linear_slidingWindow_wraps :
    let c := filled (fresh ⟨1, 2, 3⟩ true) 9 [97] 1 0 (2 ^ 32)
    (∃ ops, c = run applyOp (fresh ⟨1, 2, 3⟩ true) ops) ∧
      (c.setVar 9 [98] 2 0 .linear maxLinearInfinite).1.elements 9 ≠
        c.elements 9 ++ [⟨[98], 2, 0⟩] :=
  ⟨filled_reachable _ _ _ _ _ _ _, elements_setVar_filled_ne (indexed_fresh _ _) rfl (by simp)
    (by simp) _ _ _ _ rfl⟩

/-- Four values at a limit of three. -/
example :
    (run (setLinear 9 3) (fresh ⟨1, 2, 3⟩ true)
      [⟨[97], 1, 0⟩, ⟨[98], 2, 0⟩, ⟨[99], 3, 0⟩, ⟨[100], 4, 0⟩]).elements 9 =
        [⟨[98], 2, 0⟩, ⟨[99], 3, 0⟩, ⟨[100], 4, 0⟩] := by
  decide +kernel

/-! ## Handles -/

/-- A handle outlives every mutator. -/
theorem handle_mutate {c : VCookie} (indexed : c.toRelVarTable.Indexed) {r : RelationId}
    {vid : Nat} (handle : VCookieStore.Handle c.toRelVarTable r vid) (m : Mutator) :
    VCookieStore.Handle (c.mutate m).toRelVarTable r vid := by
  rcases handle with ⟨_, inside, _, rfl⟩
  rcases (rewrites_mutate indexed m).relationId_relVarAt inside with ⟨inside', same⟩
  rw [← same]
  exact VCookieStore.handle_of_lt (indexed_mutate indexed m) inside'

/-- A handle gives access to the elements of its relation. -/
theorem getVarAt_handle {table : RelVarTable} (indexed : table.Indexed) {r : RelationId}
    {vid : Nat} (handle : VCookieStore.Handle table r vid) (index : Nat) :
    table.getVarAt vid index = (table.elements r)[index]? := by
  rcases handle with ⟨_, inside, _, rfl⟩
  rw [Indexed.getVarAt_relVarAt inside, indexed.elements_of_mem (relVarAt_mem table inside)]

/-- Two changes of an entry that do the same to it. -/
theorem modify_congr {α : Type} {l : List α} {i : Nat} {f g : α → α}
    (same : ∀ x, l[i]? = some x → f x = g x) : l.modify i f = l.modify i g := by
  apply List.ext_getElem?
  intro j
  rw [List.getElem?_modify, List.getElem?_modify]
  by_cases here : i = j
  · subst here
    cases found : l[i]? with
    | none => rfl
    | some x => simp [same x found]
  · simp [here]

/-- Appending through a handle is an unlimited linear call as long as the relation has
fewer than 2^32 elements. -/
theorem addLinearElement_eq_setVar_iff {c : VCookie} (indexed : c.toRelVarTable.Indexed)
    {r : RelationId} {vid : Nat} (handle : VCookieStore.Handle c.toRelVarTable r vid)
    {val : Bytes} (nonempty : val ≠ []) (timestamp : TimeT) (revision : UInt8) :
    c.addLinearElement vid val timestamp revision =
        (c.setVar r val timestamp revision .linear maxLinearInfinite).1 ↔
      (c.elements r).length < 2 ^ 32 := by
  rcases handle with ⟨found, inside, _, rfl⟩
  have list := indexed.elements_of_mem (relVarAt_mem c.toRelVarTable inside)
  constructor
  · intro same
    have appended := elements_addLinearElement indexed inside val timestamp revision
      (c.relVarAt vid).relationId
    rw [if_pos rfl, same] at appended
    exact (elements_setVar_unlimited_iff indexed _ nonempty timestamp revision).mp appended
  · intro small
    rw [setVar_of_mem indexed (relVarAt_mem c.toRelVarTable inside) nonempty, if_neg (by simp),
      ← found, addLinearElement, if_neg (Nat.not_le.mpr inside), storeVar]
    have stored : c.relVar.modify vid (fun rv =>
          { rv with var := rv.var ++ [⟨val, timestamp, revision⟩], modified := true }) =
        c.relVar.modify vid fun rv =>
          { rv with
            var := storeElement rv.var ⟨val, timestamp, revision⟩ .linear maxLinearInfinite
            modified := true } := by
      apply modify_congr
      intro rv here
      have entry : c.relVarAt vid = rv := by
        rw [relVarAt, List.getD_eq_getElem?_getD, here]
        rfl
      rw [list, entry] at small
      rw [storeElement_unlimited small]
    simp only [stored]

/-- A linear call fails for an empty value only. -/
theorem setVar_linear_eq_varNotSet_iff {c : VCookie} (indexed : c.toRelVarTable.Indexed)
    (r : RelationId) (val : Bytes) (timestamp : TimeT) (revision : UInt8) (maxLinear : UInt32) :
    (c.setVar r val timestamp revision .linear maxLinear).2 = varNotSet ↔ val = [] := by
  constructor
  · intro notSet
    by_contra nonempty
    have handle := VCookieStore.handle_setVar indexed r nonempty timestamp revision maxLinear
    exact handle.2.2.1 notSet
  · rintro rfl
    rw [setVar_nil]

/-- A handle outlives every run. -/
theorem handle_run {c : VCookie} (indexed : c.toRelVarTable.Indexed) {r : RelationId} {vid : Nat}
    (handle : VCookieStore.Handle c.toRelVarTable r vid) (ms : List Mutator) :
    (run mutate c ms).toRelVarTable.Indexed ∧
      VCookieStore.Handle (run mutate c ms).toRelVarTable r vid :=
  @run_invariant _ _ mutate
    (fun c => c.toRelVarTable.Indexed ∧ VCookieStore.Handle c.toRelVarTable r vid)
    (fun _ m kept => ⟨indexed_mutate kept.1 m, handle_mutate kept.1 kept.2 m⟩) c
    ⟨indexed, handle⟩ ms

/-- A linear call returns a handle, unless its value is empty; in every later state the
handle leads to the elements of the relation, and appending through it does what the
plain call does exactly as long as they are fewer than 2^32. -/
theorem linearHandle_valid (id : VCookieId) (newCookie : Bool) (ops : List CookieOp)
    (r : RelationId) (val : Bytes) (timestamp : TimeT) (revision : UInt8) (maxLinear : UInt32) :
    let set := (run applyOp (fresh id newCookie) ops).setVar r val timestamp revision .linear
      maxLinear
    (set.2 = varNotSet ↔ val = []) ∧
      (set.2 ≠ varNotSet → ∀ ms : List Mutator,
        let c := run mutate set.1 ms
        (∀ index, c.getVarAt set.2 index = (c.elements r)[index]?) ∧
          ∀ val' timestamp' revision', val' ≠ [] →
            (c.addLinearElement set.2 val' timestamp' revision' =
                (c.setVar r val' timestamp' revision' .linear maxLinearInfinite).1 ↔
              (c.elements r).length < 2 ^ 32)) := by
  intro set
  have indexed := indexed_run id newCookie ops
  have unset := setVar_linear_eq_varNotSet_iff indexed r val timestamp revision maxLinear
  constructor
  · exact unset
  · intro isSet ms c
    have nonempty : val ≠ [] := mt unset.mpr isSet
    have indexedSet := indexed_setVar indexed r val timestamp revision .linear maxLinear
    have handle := VCookieStore.handle_setVar indexed r nonempty timestamp revision maxLinear
    rcases handle_run indexedSet handle ms with ⟨indexedLater, handleLater⟩
    constructor
    · exact getVarAt_handle indexedLater handleLater
    · intro val' timestamp' revision' nonempty'
      exact addLinearElement_eq_setVar_iff indexedLater handleLater nonempty' timestamp' revision'

/-- The two calls differ on a list that has grown to 2^32 elements. -/
theorem addLinearElement_filled_ne {c : VCookie} (indexed : c.toRelVarTable.Indexed)
    {r : RelationId} {vid : Nat} (handle : VCookieStore.Handle c.toRelVarTable r vid)
    {val val' : Bytes} (nonempty : val ≠ []) (nonempty' : val' ≠ []) (timestamp timestamp' : TimeT)
    (revision revision' : UInt8) {n : Nat} (full : (c.elements r).length + n = 2 ^ 32) :
    (filled c r val timestamp revision n).addLinearElement vid val' timestamp' revision' ≠
      ((filled c r val timestamp revision n).setVar r val' timestamp' revision' .linear
        maxLinearInfinite).1 := by
  intro same
  have later := handle_run indexed handle
    (List.replicate n (.setVar r val timestamp revision .linear maxLinearInfinite))
  have small := (addLinearElement_eq_setVar_iff later.1 later.2 nonempty' timestamp' revision').mp
    same
  have count := elements_filled indexed r nonempty timestamp revision (Nat.le_of_eq full)
  rw [filled] at count
  rw [count, List.length_append, List.length_replicate] at small
  exact Nat.ne_of_lt small full

/-- With 2^32 elements appending through the handle is not the plain call. -/
theorem linearHandle_valid_full :
    let set := (fresh ⟨1, 2, 3⟩ true).setVar 5 [97] 10 1 .linear maxLinearInfinite
    let c := filled set.1 5 [97] 10 1 (2 ^ 32 - 1)
    set.2 ≠ varNotSet ∧
      c.addLinearElement set.2 [98] 11 1 ≠
        (c.setVar 5 [98] 11 1 .linear maxLinearInfinite).1 := by
  intro set c
  have indexed := indexed_fresh ⟨1, 2, 3⟩ true
  have handle := @VCookieStore.handle_setVar _ indexed 5 [97] (by simp) 10 1 maxLinearInfinite
  have first : set.1.elements 5 = [⟨[97], 10, 1⟩] := by decide
  have full : (set.1.elements 5).length + (2 ^ 32 - 1) = 2 ^ 32 := by rw [first]; rfl
  constructor
  · decide
  · exact addLinearElement_filled_ne (indexed_setVar indexed ..) handle (by simp) (by simp)
      10 11 1 1 full

end VCookie

/-! ## First allocation -/

/-- A call of `SetVar` or `ClearVar`. -/
inductive VarCall
  | setVar (relationId : RelationId) (val : Bytes) (timestamp : TimeT) (revision : UInt8)
      (allocType : AllocationType) (maxLinear : UInt32)
  | clearVar (relationId : RelationId)
  deriving DecidableEq, Repr

def VarCall.mutator : VarCall → Mutator
  | .setVar relationId val timestamp revision allocType maxLinear =>
      .setVar relationId val timestamp revision allocType maxLinear
  | .clearVar relationId => .clearVar relationId

/-- The element that the call sets on relation `r`. -/
def VarCall.sets (r : RelationId) : VarCall → Option RelVar
  | .setVar relationId val timestamp revision _ _ =>
      if relationId = r ∧ val ≠ [] then some ⟨val, timestamp, revision⟩ else none
  | .clearVar _ => none

namespace VCookie

def applyVarCall (c : VCookie) (call : VarCall) : VCookie :=
  c.mutate call.mutator

theorem indexed_applyVarCall {c : VCookie} (indexed : c.toRelVarTable.Indexed) (call : VarCall) :
    (applyVarCall c call).toRelVarTable.Indexed :=
  indexed_mutate indexed call.mutator

/-- The call is a first allocation to relation `r`, which has elements. -/
def Reallocates (r : RelationId) (c : VCookie) : VarCall → Prop
  | .setVar relationId _ _ _ allocType _ =>
      relationId = r ∧ allocType = .first ∧ c.elements r ≠ []
  | .clearVar _ => False

/-- A first allocation to relation `r` finds a single element, if it finds any, or has no
value. -/
def FindsSingle (r : RelationId) (c : VCookie) : VarCall → Prop
  | .setVar relationId val _ _ allocType _ =>
      relationId = r ∧ allocType = .first ∧ c.elements r ≠ [] →
        val = [] ∨ (c.elements r).length = 1
  | .clearVar _ => True

/-- While relation `r` has elements, values are set by first allocations or by linear
ones without a limit. -/
def KeepsFirst (r : RelationId) (c : VCookie) : VarCall → Prop
  | .setVar relationId val _ _ allocType maxLinear =>
      relationId = r ∧ val ≠ [] ∧ c.elements r ≠ [] →
        allocType = .first ∨ allocType = .linear ∧ maxLinear = maxLinearInfinite
  | .clearVar _ => True

/-- An unlimited linear call finds a number of elements that is zero in 32 bits: it
writes the first place. -/
def Wraps (r : RelationId) (c : VCookie) : VarCall → Prop
  | .setVar relationId val _ _ allocType maxLinear =>
      relationId = r ∧ val ≠ [] ∧ allocType = .linear ∧ maxLinear = maxLinearInfinite ∧
        c.elements r ≠ [] ∧ unsignedSize (c.elements r).length = 0
  | .clearVar _ => False

/-- Such a call finds the element it sets. -/
def SparesFirst (r : RelationId) (c : VCookie) (call : VarCall) : Prop :=
  Wraps r c call → (c.elements r).head? = call.sets r

/-- The cookie with the first value set on relation `r` since it was last empty. -/
def trackFirst (r : RelationId) (state : VCookie × Option RelVar) (call : VarCall) :
    VCookie × Option RelVar :=
  let c := applyVarCall state.1 call
  (c, if c.elements r = [] then none else state.2.or (call.sets r))

/-- That value is the first element of the relation. -/
def FirstStays (r : RelationId) (state : VCookie × Option RelVar) : Prop :=
  (state.1.elements r).head? = state.2

section Call

variable {c : VCookie} (indexed : c.toRelVarTable.Indexed) {r : RelationId}

include indexed

theorem sameContent_iff_findsSingle (call : VarCall) :
    (Reallocates r c call → SameContent (applyVarCall c call) c) ↔ FindsSingle r c call := by
  cases call with
  | clearVar relationId => exact iff_of_true False.elim trivial
  | setVar relationId val timestamp revision allocType maxLinear =>
      constructor
      · intro unchanged reallocates
        have same := unchanged reallocates
        rcases reallocates with ⟨rfl, rfl, nonempty⟩
        by_contra overwrites
        rcases not_or.mp overwrites with ⟨value, several⟩
        have stored := elements_setVar indexed relationId value timestamp revision .first
          maxLinear relationId
        rw [if_pos rfl, if_neg fun single => several single.2,
          storeElement_of_ne_linear (by decide)] at stored
        have kept : [(⟨val, timestamp, revision⟩ : RelVar)] = c.elements relationId :=
          stored.symm.trans (same.elements relationId)
        rw [← kept] at several
        exact several rfl
      · intro finds reallocates
        have found := finds reallocates
        rcases reallocates with ⟨rfl, rfl, nonempty⟩
        have unchanged :
            (c.setVar relationId val timestamp revision .first maxLinear).1 = c := by
          by_cases empty : val = []
          · rw [empty, setVar_nil, if_neg (by decide)]
          · have single := found.resolve_left empty
            rcases exists_of_elements_ne_nil nonempty with ⟨rv, member, rfl⟩
            rw [indexed.elements_of_mem member] at single
            rw [setVar_of_mem indexed member empty, if_pos ⟨rfl, single⟩]
        rw [applyVarCall, VarCall.mutator, mutate, unchanged]
        exact ⟨rfl, rfl, fun _ => rfl⟩

/-- A call that wraps leaves its element first, where there was another to keep. -/
theorem head?_of_wraps {call : VarCall} (wraps : Wraps r c call) :
    ((applyVarCall c call).elements r).head? = call.sets r ∧
      (if (applyVarCall c call).elements r = [] then none
        else (c.elements r).head?.or (call.sets r)) = (c.elements r).head? := by
  cases call with
  | clearVar relationId => exact wraps.elim
  | setVar relationId val timestamp revision allocType maxLinear =>
      rcases wraps with ⟨rfl, value, rfl, rfl, nonempty, zero⟩
      rw [applyVarCall, VarCall.mutator, mutate, elements_setVar indexed relationId value,
        if_pos rfl, if_neg (by simp)]
      constructor
      · rw [head?_storeElement_unlimited nonempty, if_pos zero, VarCall.sets, if_pos ⟨rfl, value⟩]
      · rcases List.exists_cons_of_ne_nil nonempty with ⟨first, rest, list⟩
        rw [if_neg (storeElement_ne_nil _ _ _ _), list, List.head?_cons, Option.some_or]

/-- A call that sets no element on the relation leaves its list or empties it. -/
theorem elements_of_sets_none {call : VarCall} (none : call.sets r = none) :
    (applyVarCall c call).elements r = [] ∨
      (applyVarCall c call).elements r = c.elements r := by
  cases call with
  | clearVar relationId => exact elements_clearVar_or indexed relationId r
  | setVar relationId val timestamp revision allocType maxLinear =>
      rw [applyVarCall, VarCall.mutator, mutate]
      by_cases value : val = []
      · rw [value, setVar_nil]
        split
        · exact elements_clearVar_or indexed relationId r
        · exact Or.inr rfl
      · have other : ¬ r = relationId := by
          rintro rfl
          simp [VarCall.sets, value] at none
        rw [elements_setVar indexed relationId value, if_neg other]
        exact Or.inr rfl

/-- Any other call leaves the first element there is, or sets it. -/
theorem head?_of_not_wraps {call : VarCall} (finds : FindsSingle r c call)
    (keeps : KeepsFirst r c call) (noWrap : ¬ Wraps r c call) :
    ((applyVarCall c call).elements r).head? =
      if (applyVarCall c call).elements r = [] then none
      else (c.elements r).head?.or (call.sets r) := by
  cases sets : call.sets r with
  | none =>
      rw [Option.or_none]
      rcases elements_of_sets_none indexed sets with empty | same
      · rw [empty, if_pos rfl, List.head?_nil]
      · rw [same]
        split
        · rename_i empty
          rw [empty, List.head?_nil]
        · rfl
  | some element =>
      cases call with
      | clearVar relationId => contradiction
      | setVar relationId val timestamp revision allocType maxLinear =>
          rw [VarCall.sets] at sets
          split at sets
          · rename_i own
            rcases own with ⟨rfl, value⟩
            cases sets
            have stored := elements_setVar indexed relationId value timestamp revision allocType
              maxLinear relationId
            rw [if_pos rfl] at stored
            rw [applyVarCall, VarCall.mutator, mutate, stored]
            by_cases unset : c.elements relationId = []
            · rw [unset, if_neg (by simp), storeElement_nil]
              rfl
            rcases List.exists_cons_of_ne_nil unset with ⟨first, rest, list⟩
            rcases keeps ⟨rfl, value, unset⟩ with rfl | ⟨rfl, rfl⟩
            · have single := (finds ⟨rfl, rfl, unset⟩).resolve_left value
              rw [if_pos ⟨rfl, single⟩, list]
              rfl
            · have inside : unsignedSize (c.elements relationId).length ≠ 0 := fun zero =>
                noWrap ⟨rfl, value, rfl, rfl, unset, zero⟩
              rw [if_neg (by simp), if_neg (storeElement_ne_nil _ _ _ _),
                head?_storeElement_unlimited unset, if_neg inside, list]
              rfl
          · contradiction

end Call

theorem indexed_run_applyVarCall {c : VCookie} (indexed : c.toRelVarTable.Indexed)
    (calls : List VarCall) : (run applyVarCall c calls).toRelVarTable.Indexed :=
  @run_invariant _ _ applyVarCall (fun c => c.toRelVarTable.Indexed)
    (fun _ call kept => indexed_applyVarCall kept call) c indexed calls

/-- Along guarded steps the first element stays exactly if no call wraps onto another. -/
theorem firstStays_iff {c : VCookie} (indexed : c.toRelVarTable.Indexed) {r : RelationId}
    {calls : List VarCall} (finds : EveryStep applyVarCall (FindsSingle r) c calls)
    (keeps : EveryStep applyVarCall (KeepsFirst r) c calls) :
    Always (trackFirst r) (FirstStays r) (c, (c.elements r).head?) calls ↔
      EveryStep applyVarCall (SparesFirst r) c calls := by
  have commutes (state : VCookie × Option RelVar) (call : VarCall) :
      (trackFirst r state call).1 = applyVarCall state.1 call := rfl
  have step {admits : VCookie → VarCall → Prop} :=
    @everyStep_map_iff _ _ _ (trackFirst r) applyVarCall Prod.fst commutes admits
      (c, (c.elements r).head?) calls
  rw [← step]
  apply @always_iff_everyStep_of_guarded _ _ (trackFirst r) (FirstStays r)
    (fun state => state.1.toRelVarTable.Indexed ∧ FirstStays r state)
    (fun state call => FindsSingle r state.1 call ∧ KeepsFirst r state.1 call)
  · exact fun _ => And.right
  · rintro state call ⟨indexed, stays⟩ ⟨finds, keeps⟩ spares
    constructor
    · exact indexed_applyVarCall indexed call
    · rw [FirstStays, trackFirst, ← stays]
      by_cases wraps : Wraps r state.1 call
      · rcases head?_of_wraps indexed wraps with ⟨first, tracked⟩
        rw [first, tracked, spares wraps]
      · exact head?_of_not_wraps indexed finds keeps wraps
  · rintro state call ⟨indexed, stays⟩ _ overwrites still
    rcases Classical.not_imp.mp overwrites with ⟨wraps, other⟩
    rcases head?_of_wraps indexed wraps with ⟨first, tracked⟩
    rw [FirstStays, trackFirst, ← stays, first, tracked] at still
    exact other still.symm
  · exact ⟨indexed, rfl⟩
  · intro done next isPrefix
    exact ⟨step.mpr finds done next isPrefix, step.mpr keeps done next isPrefix⟩

/-- Along a run from any reachable cookie first allocations leave the content of the
cookie alone, and the first element of the relation stays, exactly when every first
allocation finds at most one element and no unlimited linear call wraps onto a first
element other than its own. -/
theorem firstAllocation_kept_iff (id : VCookieId) (newCookie : Bool) (ops : List CookieOp)
    (r : RelationId) (calls : List VarCall) :
    let c := run applyOp (fresh id newCookie) ops
    EveryStep applyVarCall
        (fun c call => Reallocates r c call → SameContent (applyVarCall c call) c) c calls ∧
        (EveryStep applyVarCall (KeepsFirst r) c calls →
          Always (trackFirst r) (FirstStays r) (c, (c.elements r).head?) calls) ↔
      EveryStep applyVarCall (FindsSingle r) c calls ∧
        (EveryStep applyVarCall (KeepsFirst r) c calls →
          EveryStep applyVarCall (SparesFirst r) c calls) := by
  intro c
  have indexed : c.toRelVarTable.Indexed := indexed_run id newCookie ops
  have unchanged : EveryStep applyVarCall
      (fun c call => Reallocates r c call → SameContent (applyVarCall c call) c) c calls ↔
        EveryStep applyVarCall (FindsSingle r) c calls := by
    have step (done : List VarCall) (next : VarCall) :=
      @sameContent_iff_findsSingle _ (indexed_run_applyVarCall indexed done) r next
    simp only [EveryStep, step]
  rw [unchanged]
  apply and_congr_right
  intro finds
  exact imp_congr_right fun keeps => firstStays_iff indexed finds keeps

/-- A first allocation to a relation with two elements replaces both. -/
theorem firstAllocation_overwrites :
    let c := run applyOp (fresh ⟨1, 2, 3⟩ true)
      [.mutate (.setVar 9 [97] 1 0 .linear 5), .mutate (.setVar 9 [98] 2 0 .linear 5)]
    let call := VarCall.setVar 9 [99] 3 0 .first maxLinearNotSet
    c.elements 9 = [⟨[97], 1, 0⟩, ⟨[98], 2, 0⟩] ∧
      (applyVarCall c call).elements 9 = [⟨[99], 3, 0⟩] ∧ Reallocates 9 c call ∧
      ¬ SameContent (applyVarCall c call) c := by
  intro c call
  have before : c.elements 9 = [⟨[97], 1, 0⟩, ⟨[98], 2, 0⟩] := by decide
  have after : (applyVarCall c call).elements 9 = [⟨[99], 3, 0⟩] := by decide
  have reallocates : Reallocates 9 c call := by
    constructor
    · rfl
    · rw [before]
      exact ⟨rfl, List.cons_ne_nil _ _⟩
  constructor
  · exact before
  constructor
  · exact after
  constructor
  · exact reallocates
  · intro same
    have equal := same.elements 9
    rw [before, after] at equal
    exact absurd equal (by decide)

end VCookie

end Elevator
