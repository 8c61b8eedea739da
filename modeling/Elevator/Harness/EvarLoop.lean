import Elevator.Cookie.Modified

/-!
# Replaying a hit

For every hit the test harness walks its 75 evars: a non-empty one is to be set in
the cookie if it is not set there, an empty one cleared.  Each turn goes through
`FindRelationId` and so answers for the least entry at or above its relation.  An
evar is written only if a value was found that differs from it, so a variable that
is not set stays so unless the entry of another relation is taken for its own.
-/

namespace Elevator

open Wire Transition RelVarTable VCookie

namespace Harness

/-- What the loop reads of a hit. -/
structure Hit where
  hitTimeGmt : TimeT
  evar : Fin 75 → Bytes

/-- The relation of an evar. -/
def relation (i : Fin 75) : RelationId :=
  UInt16.ofNat i

/-- One turn of the loop over the evars. -/
def evarTurn (hit : Hit) (cookie : VCookie) (i : Fin 75) : VCookie :=
  if hit.evar i ≠ [] then
    match cookie.getVar (relation i) 0 with
    | some cVar =>
        if cVar.value ≠ hit.evar i then
          (cookie.setVar (relation i) (hit.evar i) hit.hitTimeGmt 1 .first maxLinearNotSet).1
        else
          cookie
    | none => cookie
  else
    cookie.clearVar (relation i)

/-- The loop over the evars. -/
def evarLoop (hit : Hit) (cookie : VCookie) : VCookie :=
  run (evarTurn hit) cookie (List.finRange 75)

/-- The element that an evar is stored as. -/
def Hit.element (hit : Hit) (i : Fin 75) : RelVar :=
  ⟨hit.evar i, hit.hitTimeGmt, 1⟩

/-- The variables of a cookie after a hit: those of its evars are set, with what
they had or with the evar, and no other relation is touched. -/
structure Updated (hit : Hit) (cookie cookie' : VCookie) : Prop where
  isSet : ∀ i, cookie'.elements (relation i) ≠ [] ↔ hit.evar i ≠ []
  kept : ∀ i, hit.evar i ≠ [] → cookie.elements (relation i) ≠ [] →
    cookie'.elements (relation i) = cookie.elements (relation i)
  stored : ∀ i, hit.evar i ≠ [] → cookie.elements (relation i) = [] →
    cookie'.elements (relation i) = [hit.element i]
  frame : ∀ r : RelationId, 74 < r.toNat → cookie'.elements r = cookie.elements r

/-- An empty evar before turn `n` leads to the entry of `r`. -/
def Emptied (hit : Hit) (cookie : VCookie) (n : Nat) (r : RelationId) : Prop :=
  ∃ k : Fin 75, k < n ∧ hit.evar k = [] ∧ cookie.designatedId (relation k) = some r

/-- An empty evar leads to its own entry, to an empty one, or to the entry of
another empty evar. -/
def ClearsOwn (hit : Hit) (cookie : VCookie) (i : Fin 75) : Prop :=
  ∀ r, cookie.designatedId (relation i) = some r →
    r = relation i ∨ cookie.elements r = [] ∨ ∃ j, r = relation j ∧ hit.evar j = []

/-- An evar leads to an entry that is not empty, nor emptied by an earlier turn:
its own with a single element or with the evar's value first, or another's with
another value first. -/
def FindsValue (hit : Hit) (cookie : VCookie) (i : Fin 75) : Prop :=
  ∃ r head rest, cookie.designatedId (relation i) = some r ∧ cookie.elements r = head :: rest ∧
    ¬ Emptied hit cookie i r ∧
    if r = relation i then rest = [] ∨ head.value = hit.evar i else head.value ≠ hit.evar i

/-- The states in which the loop does what a hit asks for. -/
def Ready (hit : Hit) (cookie : VCookie) : Prop :=
  ∀ i, if hit.evar i = [] then ClearsOwn hit cookie i else FindsValue hit cookie i

instance (hit : Hit) (cookie : VCookie) (n : Nat) (r : RelationId) :
    Decidable (Emptied hit cookie n r) :=
  inferInstanceAs (Decidable (∃ _ : Fin 75, _))

/-! ## The relations of the evars -/

theorem toNat_relation (i : Fin 75) : (relation i).toNat = i := by
  rw [relation, UInt16.toNat_ofNat']
  omega

theorem relation_inj {i j : Fin 75} : relation i = relation j ↔ i = j := by
  rw [← UInt16.toNat_inj, toNat_relation, toNat_relation, Fin.val_inj]

theorem exists_relation {r : RelationId} (low : r.toNat < 75) : ∃ i, relation i = r :=
  ⟨⟨r.toNat, low⟩, by rw [← UInt16.toNat_inj, toNat_relation]⟩

theorem le_of_designatedId {cookie : VCookie} (indexed : cookie.toRelVarTable.Indexed) {i : Fin 75}
    {r : RelationId} (found : cookie.designatedId (relation i) = some r) : i ≤ r.toNat := by
  have above := (indexed.designatedId_eq_some_iff.mp found).2.1
  rwa [UInt16.le_iff_toNat_le, toNat_relation] at above

theorem ne_relation_of_lt {i : Fin 75} {r : RelationId} (behind : i < r.toNat) :
    r ≠ relation i := by
  intro same
  rw [same, toNat_relation] at behind
  exact Nat.lt_irrefl _ behind

/-! ## What each turn leaves -/

section Turns

variable (hit : Hit) (cookie : VCookie)

/-- What `GetVar` finds at the turn of an evar. -/
def found (i : Fin 75) : List RelVar :=
  ((cookie.designatedId (relation i)).map fun r =>
    if Emptied hit cookie i r then [] else cookie.elements r).getD []

/-- What the turn of an evar leaves in its relation. -/
def left (i : Fin 75) : List RelVar :=
  if hit.evar i = [] then
    []
  else
    match found hit cookie i with
    | [] => []
    | head :: rest =>
        if cookie.designatedId (relation i) = some (relation i) then
          if rest = [] ∨ head.value = hit.evar i then head :: rest else [hit.element i]
        else if head.value = hit.evar i then [] else [hit.element i]

/-- The cookie after `n` turns: behind them the entries are the old ones, some of
them emptied. -/
structure After (n : Nat) (cookie' : VCookie) : Prop where
  indexed : cookie'.toRelVarTable.Indexed
  entries : ∀ r : RelationId, n ≤ r.toNat →
    (HasEntry cookie'.toRelVarTable r ↔ HasEntry cookie.toRelVarTable r)
  ahead : ∀ r : RelationId, n ≤ r.toNat →
    cookie'.elements r = if Emptied hit cookie n r then [] else cookie.elements r
  done : ∀ i : Fin 75, i < n → cookie'.elements (relation i) = left hit cookie i

variable {hit cookie}

theorem after_zero (indexed : cookie.toRelVarTable.Indexed) : After hit cookie 0 cookie where
  indexed := indexed
  entries _ _ := Iff.rfl
  ahead r _ := by
    rw [if_neg]
    rintro ⟨k, before, -⟩
    exact Nat.not_lt_zero _ before
  done i before := absurd before (Nat.not_lt_zero _)

variable (indexed : cookie.toRelVarTable.Indexed) {i : Fin 75} {cookie' : VCookie}
  (after : After hit cookie i cookie')

include indexed after

theorem After.designatedId_eq :
    cookie'.designatedId (relation i) = cookie.designatedId (relation i) := by
  apply designatedId_congr after.indexed indexed
  intro d above
  apply after.entries
  rwa [UInt16.le_iff_toNat_le, toNat_relation] at above

theorem After.answer_eq : cookie'.answer (relation i) = found hit cookie i := by
  rw [after.indexed.answer_eq, after.designatedId_eq indexed, found]
  cases leads : cookie.designatedId (relation i) with
  | none => rw [Option.map_none, Option.map_none]
  | some r =>
      rw [Option.map_some, Option.map_some, Option.getD_some, Option.getD_some,
        after.ahead r (le_of_designatedId indexed leads)]

omit indexed in
/-- The relation's own elements, if it is what `GetVar` finds. -/
theorem After.own (own : cookie.designatedId (relation i) = some (relation i)) :
    cookie'.elements (relation i) = found hit cookie i := by
  rw [after.ahead _ (toNat_relation i).ge, found, own, Option.map_some, Option.getD_some]

theorem After.foreign (foreign : cookie.designatedId (relation i) ≠ some (relation i)) :
    cookie'.elements (relation i) = [] := by
  apply elements_of_not_hasEntry
  intro entry
  have own := after.indexed.designatedId_of_hasEntry entry
  rw [after.designatedId_eq indexed] at own
  exact foreign own

theorem After.getVar_eq : cookie'.getVar (relation i) 0 = (found hit cookie i).head? := by
  rw [after.indexed.getVar_eq, after.answer_eq indexed, List.head?_eq_getElem?]

/-- A turn is done if it does to its own relation what it should, to the entries
behind it what clearing does, and nothing to those before it. -/
theorem After.succ {cookie'' : VCookie} (indexed'' : cookie''.toRelVarTable.Indexed)
    (entries : ∀ r : RelationId, r ≠ relation i →
      (HasEntry cookie''.toRelVarTable r ↔ HasEntry cookie'.toRelVarTable r))
    (others : ∀ r : RelationId, r ≠ relation i → cookie''.elements r =
      if hit.evar i = [] ∧ cookie.designatedId (relation i) = some r then []
      else cookie'.elements r)
    (own : cookie''.elements (relation i) = left hit cookie i) :
    After hit cookie (i + 1) cookie'' where
  indexed := indexed''
  entries r behind := by
    rw [entries r (ne_relation_of_lt behind), after.entries r (Nat.le_of_succ_le behind)]
  ahead r behind := by
    rw [others r (ne_relation_of_lt behind), after.ahead r (Nat.le_of_succ_le behind)]
    by_cases here : hit.evar i = [] ∧ cookie.designatedId (relation i) = some r
    · rw [if_pos here, if_pos ⟨i, Nat.lt_succ_self i, here⟩]
    · rw [if_neg here]
      have same : Emptied hit cookie i r ↔ Emptied hit cookie (i + 1) r := by
        constructor
        · rintro ⟨k, before, empties⟩
          exact ⟨k, Nat.lt_succ_of_lt before, empties⟩
        · rintro ⟨k, before, empties⟩
          rcases Nat.lt_or_eq_of_le (Nat.le_of_lt_succ before) with earlier | same
          · exact ⟨k, earlier, empties⟩
          · rw [Fin.ext same] at empties
            exact absurd empties here
      rw [if_congr same rfl rfl]
  done j before := by
    rcases Nat.lt_or_eq_of_le (Nat.le_of_lt_succ before) with earlier | same
    · have other : relation j ≠ relation i := fun same =>
        absurd (relation_inj.mp same) (Fin.ne_of_lt earlier)
      rw [others _ other, if_neg, after.done j earlier]
      rintro ⟨-, leads⟩
      have above := le_of_designatedId indexed leads
      rw [toNat_relation] at above
      omega
    · rw [Fin.ext same]
      exact own

theorem After.clear (empty : hit.evar i = []) :
    After hit cookie (i + 1) (cookie'.clearVar (relation i)) := by
  have cleared (r : RelationId) : (cookie'.clearVar (relation i)).elements r =
      if cookie.designatedId (relation i) = some r then [] else cookie'.elements r := by
    rw [← after.designatedId_eq indexed]
    exact elements_clearVar after.indexed (relation i) r
  apply after.succ indexed (indexed_clearVar after.indexed (relation i))
  · intro r _
    have turned := hasEntry_mutate_iff after.indexed (.clearVar (relation i)) r
    exact turned.trans (or_iff_left_of_imp (hasEntry_of_designated after.indexed))
  · intro r _
    rw [cleared]
    simp only [empty, true_and]
  · rw [cleared, left, if_pos empty]
    split
    · rfl
    · rename_i foreign
      exact after.foreign indexed foreign

/-- A turn that leaves the cookie alone. -/
theorem After.skip (nonempty : hit.evar i ≠ [])
    (own : cookie'.elements (relation i) = left hit cookie i) :
    After hit cookie (i + 1) cookie' := by
  apply after.succ indexed after.indexed (fun _ _ => Iff.rfl) _ own
  intro r _
  rw [if_neg fun both => nonempty both.1]

theorem After.set (nonempty : hit.evar i ≠ []) {head : RelVar} {rest : List RelVar}
    (finds : found hit cookie i = head :: rest) (other : head.value ≠ hit.evar i) :
    After hit cookie (i + 1)
      (cookie'.setVar (relation i) (hit.evar i) hit.hitTimeGmt 1 .first maxLinearNotSet).1 := by
  have set := elements_setVar after.indexed (relation i) nonempty hit.hitTimeGmt 1 .first
    maxLinearNotSet
  apply after.succ indexed (indexed_setVar after.indexed (relation i) ..)
  · intro r different
    have turned := hasEntry_mutate_iff after.indexed
      (.setVar (relation i) (hit.evar i) hit.hitTimeGmt 1 .first maxLinearNotSet) r
    have untouched : ¬ Touches cookie'
        (.setVar (relation i) (hit.evar i) hit.hitTimeGmt 1 .first maxLinearNotSet) r := by
      rw [Touches, if_neg nonempty]
      exact fun touched => different touched.2
    exact turned.trans (or_iff_left untouched)
  · intro r different
    rw [set, if_neg different, if_neg fun both => nonempty both.1]
  · rw [set, if_pos rfl, left, if_neg nonempty, finds]
    dsimp only
    by_cases own : cookie.designatedId (relation i) = some (relation i)
    · rw [after.own own, finds, if_pos own]
      simp only [true_and, List.length_cons, Nat.add_eq_right, List.length_eq_zero_iff, other,
        or_false]
      split
      · rfl
      · exact storeElement_of_ne_linear (by decide) _ _ _
    · rw [after.foreign indexed own, if_neg own, if_neg other, if_neg (by simp)]
      exact storeElement_of_ne_linear (by decide) _ _ _

/-- Every turn leaves what it should. -/
theorem After.turn : After hit cookie (i + 1) (evarTurn hit cookie' i) := by
  by_cases empty : hit.evar i = []
  · rw [evarTurn, if_neg (not_not.mpr empty)]
    exact after.clear indexed empty
  · rw [evarTurn, if_pos empty, after.getVar_eq indexed]
    have own : cookie'.elements (relation i) =
        if cookie.designatedId (relation i) = some (relation i) then found hit cookie i
        else [] := by
      split
      · rename_i own
        exact after.own own
      · rename_i foreign
        exact after.foreign indexed foreign
    cases finds : found hit cookie i with
    | nil =>
        apply after.skip indexed empty
        rw [own, left, if_neg empty, finds]
        exact ite_self _
    | cons head rest =>
        rw [List.head?_cons]
        dsimp only
        by_cases other : head.value ≠ hit.evar i
        · rw [if_pos other]
          exact after.set indexed empty finds other
        · rw [if_neg other]
          apply after.skip indexed empty
          rw [own, left, if_neg empty, finds]
          dsimp only
          rw [if_pos (Or.inr (not_not.mp other)), if_pos (not_not.mp other)]

end Turns

/-! ## The loop -/

section Loop

variable {hit : Hit} {cookie : VCookie} (indexed : cookie.toRelVarTable.Indexed)

theorem found_eq_cons_iff {i : Fin 75} {head : RelVar} {rest : List RelVar} :
    found hit cookie i = head :: rest ↔
      ∃ r, cookie.designatedId (relation i) = some r ∧ cookie.elements r = head :: rest ∧
        ¬ Emptied hit cookie i r := by
  rw [found]
  cases leads : cookie.designatedId (relation i) with
  | none => simp
  | some r =>
      by_cases emptied : Emptied hit cookie i r <;> simp [emptied]

include indexed

theorem after_evarLoop (hit : Hit) : After hit cookie 75 (evarLoop hit cookie) :=
  run_finRange (fun _ _ after => after.turn indexed) (after_zero indexed)

/-- A relation with elements is what its evar leads to. -/
theorem designatedId_of_set {i : Fin 75} (set : cookie.elements (relation i) ≠ []) :
    cookie.designatedId (relation i) = some (relation i) :=
  indexed.designatedId_of_hasEntry (exists_of_elements_ne_nil set)

theorem clearsOwn_of_updated (updated : Updated hit cookie (evarLoop hit cookie)) {i : Fin 75}
    (empty : hit.evar i = []) : ClearsOwn hit cookie i := by
  intro r leads
  by_contra spoils
  simp only [not_or, not_exists, not_and] at spoils
  rcases spoils with ⟨foreign, set, used⟩
  have after := after_evarLoop indexed hit
  have above := le_of_designatedId indexed leads
  by_cases high : 74 < r.toNat
  · have emptied := after.ahead r high
    rw [if_pos ⟨i, i.isLt, empty, leads⟩, updated.frame r high] at emptied
    exact set emptied
  · rcases exists_relation (Nat.lt_of_not_le high) with ⟨j, rfl⟩
    have later : i.val < j := by
      rw [toNat_relation] at above
      exact Nat.lt_of_le_of_ne above fun same => foreign (by rw [Fin.ext same])
    have emptied : Emptied hit cookie j (relation j) := ⟨i, later, empty, leads⟩
    have lost : left hit cookie j = [] := by
      rw [left, if_neg (used j rfl), found, designatedId_of_set indexed set, Option.map_some,
        if_pos emptied, Option.getD_some]
    exact (updated.isSet j).mpr (used j rfl) ((after.done j j.isLt).trans lost)

theorem findsValue_of_updated (updated : Updated hit cookie (evarLoop hit cookie)) {i : Fin 75}
    (nonempty : hit.evar i ≠ []) : FindsValue hit cookie i := by
  have result := (after_evarLoop indexed hit).done i i.isLt
  have set := (updated.isSet i).mpr nonempty
  have kept := updated.kept i nonempty
  rw [result, left, if_neg nonempty] at set kept
  cases finds : found hit cookie i with
  | nil =>
      rw [finds] at set
      exact absurd rfl set
  | cons head rest =>
      rcases found_eq_cons_iff.mp finds with ⟨r, leads, holds, full⟩
      refine ⟨r, head, rest, leads, holds, full, ?_⟩
      rw [finds] at set kept
      dsimp only at set kept
      split
      · rename_i own
        subst own
        rw [if_pos leads] at kept
        by_contra open'
        rw [if_neg open', holds] at kept
        have single := kept (List.cons_ne_nil head rest)
        exact open' (Or.inl (List.cons.inj single).2.symm)
      · rename_i foreign
        rw [if_neg (by rw [leads, Option.some.injEq]; exact foreign)] at set
        intro same
        rw [if_pos same] at set
        exact absurd rfl set

/-- What a turn that finds its value leaves: the old elements, or the new one. -/
theorem left_of_findsValue {i : Fin 75} (nonempty : hit.evar i ≠ [])
    (finds : FindsValue hit cookie i) :
    left hit cookie i ≠ [] ∧
      left hit cookie i =
        if cookie.elements (relation i) = [] then [hit.element i]
        else cookie.elements (relation i) := by
  rcases finds with ⟨r, head, rest, leads, holds, full, value⟩
  have found := found_eq_cons_iff.mpr ⟨r, leads, holds, full⟩
  rw [left, if_neg nonempty, found]
  dsimp only
  by_cases own : r = relation i
  · subst own
    rw [if_pos rfl] at value
    rw [if_pos leads, if_pos value, holds]
    exact ⟨List.cons_ne_nil _ _, rfl⟩
  · have foreign : cookie.designatedId (relation i) ≠ some (relation i) := by
      rw [leads, ne_eq, Option.some.injEq]
      exact own
    have unset : cookie.elements (relation i) = [] := by
      by_contra set
      exact foreign (designatedId_of_set indexed set)
    rw [if_neg own] at value
    rw [if_neg foreign, if_neg value, unset]
    exact ⟨List.cons_ne_nil _ _, rfl⟩

theorem updated_of_ready (ready : Ready hit cookie) :
    Updated hit cookie (evarLoop hit cookie) := by
  have after := after_evarLoop indexed hit
  have finds (i : Fin 75) (nonempty : hit.evar i ≠ []) : FindsValue hit cookie i := by
    have turn := ready i
    rwa [if_neg nonempty] at turn
  constructor
  · intro i
    rw [after.done i i.isLt]
    by_cases empty : hit.evar i = []
    · simp [left, empty]
    · exact iff_of_true (left_of_findsValue indexed empty (finds i empty)).1 empty
  · intro i nonempty set
    rw [after.done i i.isLt, (left_of_findsValue indexed nonempty (finds i nonempty)).2,
      if_neg set]
  · intro i nonempty unset
    rw [after.done i i.isLt, (left_of_findsValue indexed nonempty (finds i nonempty)).2,
      if_pos unset]
  · intro r high
    rw [after.ahead r high]
    split
    · rename_i emptied
      rcases emptied with ⟨k, -, empty, leads⟩
      have clears := ready k
      rw [if_pos empty] at clears
      rcases clears r leads with rfl | vacant | ⟨j, rfl, -⟩
      · rw [toNat_relation] at high
        omega
      · exact vacant.symm
      · rw [toNat_relation] at high
        omega
    · rfl

theorem updated_iff_ready : Updated hit cookie (evarLoop hit cookie) ↔ Ready hit cookie := by
  constructor
  · intro updated i
    split
    · rename_i empty
      exact clearsOwn_of_updated indexed updated empty
    · rename_i nonempty
      exact findsValue_of_updated indexed updated nonempty
  · exact updated_of_ready indexed

end Loop

/-! ## Visits -/

/-- A hit, or anything else that writes to a cookie. -/
inductive VisitOp
  | hit (hit : Hit)
  | other (op : CookieOp)

def visit (cookie : VCookie) : VisitOp → VCookie
  | .hit hit => evarLoop hit cookie
  | .other op => applyOp cookie op

theorem indexed_visit {cookie : VCookie} (indexed : cookie.toRelVarTable.Indexed)
    (op : VisitOp) : (visit cookie op).toRelVarTable.Indexed := by
  cases op with
  | hit hit => exact (after_evarLoop indexed hit).indexed
  | other op => exact indexed_applyOp indexed op

/-- In every state that hits and other calls lead to, the loop does what its hit
asks for exactly when the state is ready for it. -/
theorem everyHit_updated_iff (id : VCookieId) (newCookie : Bool) (ops : List VisitOp) :
    EveryStep visit
        (fun cookie op => ∀ hit, op = .hit hit → Updated hit cookie (evarLoop hit cookie))
        (fresh id newCookie) ops ↔
      EveryStep visit (fun cookie op => ∀ hit, op = .hit hit → Ready hit cookie)
        (fresh id newCookie) ops := by
  have indexed (done : List VisitOp) :
      (run visit (fresh id newCookie) done).toRelVarTable.Indexed :=
    @run_invariant _ _ visit (fun cookie => cookie.toRelVarTable.Indexed)
      (fun _ op kept => indexed_visit kept op) _ (indexed_fresh id newCookie) done
  constructor
  · intro every done op isPrefix hit same
    exact (updated_iff_ready (indexed done)).mp (every done op isPrefix hit same)
  · intro every done op isPrefix hit same
    exact (updated_iff_ready (indexed done)).mpr (every done op isPrefix hit same)

/-- The first hit of a visitor sets none of its evars. -/
theorem firstHit_sets_nothing :
    let hit : Hit := ⟨10, fun i => if i = 0 then [97] else []⟩
    let cookie := fresh ⟨1, 2, 3⟩ true
    (evarLoop hit cookie).elements 0 = [] ∧
      ¬ EveryStep visit
        (fun cookie op => ∀ hit, op = .hit hit → Updated hit cookie (evarLoop hit cookie))
        cookie [.hit hit] := by
  intro hit cookie
  have unset : (evarLoop hit cookie).elements 0 = [] := by decide +kernel
  constructor
  · exact unset
  · intro every
    have updated := every [] (.hit hit) (List.prefix_refl _) hit rfl
    exact (updated.isSet 0).mpr (by decide) unset

end Harness

end Elevator
