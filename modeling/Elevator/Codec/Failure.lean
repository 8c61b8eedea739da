import Elevator.Codec.Calls
import Elevator.Codec.Rejection
import Elevator.Cookie.Modified

/-!
# Rejected buffers

The decoder writes each value as it is read, so a buffer that is rejected later
leaves behind what was read before.  The content of a cookie is safe from a
rejected buffer exactly when the parts in front of the break say nothing that the
cookie does not hold, and a constructor that reports a new cookie after a failed
load is blank only if the last-hit time of the record is zero or overwritten.
-/

namespace Elevator

open Wire Transition RelVarTable VCookie

/-! ## Fields with one value -/

/-- The number of the field with one value that a setter is for. -/
def Mutator.scalar : Mutator → Option UInt8
  | .setFirstHitTimeGMT _ => some 1
  | .setLastHitTimeGMT _ => some 2
  | .setLastHitTimeVisitorLocal _ => some 3
  | .setLastVisitNum _ => some 4
  | .setLastPurchaseTimeGMT _ => some 5
  | .setFirstHitReferrer _ => some 6
  | .setFirstHitUrl _ => some 7
  | .setFirstHitPagename _ => some 8
  | .setLastPurchaseNum _ => some 9
  | .setMerchandising _ => some 10
  | .setPurchaseId _ => none
  | .setVar .. => none
  | .clearVar _ => none
  | .addLinearElement .. => none

namespace Profile

variable {m m' : Mutator} (own : m.scalar ≠ none) (p : Profile)

include own

end Profile

namespace VCookieStore

def Call.scalar : Call → Option UInt8
  | .mutate m => m.scalar
  | .setVar .. => none
  | .append .. => none

theorem filterMap_scalar_purchaseCalls (ids : List Bytes) :
    (purchaseCalls ids).filterMap Call.scalar = [] := by
  rw [purchaseCalls, List.filterMap_map, List.filterMap_eq_nil_iff]
  exact fun _ _ => rfl

theorem filterMap_scalar_elementCalls (rid : RelationId) (cnt : UInt32) (stored : Bool)
    (var : List RelVar) : (elementCalls rid cnt stored var).filterMap Call.scalar = [] := by
  induction var generalizing stored with
  | nil => rw [elementCalls_nil, List.filterMap_nil]
  | cons rv var ih =>
      cases stored with
      | false => exact (List.filterMap_cons_none rfl).trans (ih _)
      | true => exact (List.filterMap_cons_none rfl).trans (ih _)

theorem filterMap_scalar_varCalls (sets : List (RelationId × List RelVar)) :
    (sets.flatMap varCalls).filterMap Call.scalar = [] := by
  induction sets with
  | nil => rfl
  | cons set sets ih =>
      rw [List.flatMap_cons, List.filterMap_append, ih, varCalls, filterMap_scalar_elementCalls,
        List.append_nil]

/-- The field makes calls for its own number only, and at most one for a value. -/
structure Own (field : KnownField) : Prop where
  entry : ∀ {bytes calls}, field.Entry bytes calls →
    (calls.filterMap Call.scalar).Sublist [field.number]
  cut : ∀ {rest calls stop}, field.Cut rest calls stop →
    (calls.filterMap Call.scalar).Sublist [field.number]

theorem own_itemField {α : Type} {number : UInt8} {item : Item α} {set : α → Mutator}
    (sets : ∀ val, (set val).scalar = some number) : Own (itemField number item set) := by
  have single (val : α) :
      ([Call.mutate (set val)].filterMap Call.scalar).Sublist [number] := by
    simp [Call.scalar, sets]
  constructor
  · rintro _ _ ⟨val, _, _, rfl⟩
    exact single val
  · rintro _ _ _ (⟨_, rfl, _⟩ | ⟨val, _, _, rfl, _⟩)
    · exact List.nil_sublist _
    · exact single val

theorem own_purchaseIdField : Own purchaseIdField := by
  constructor
  · rintro _ _ ⟨ids, _, _, _, rfl⟩
    rw [filterMap_scalar_purchaseCalls]
    exact List.nil_sublist _
  · rintro _ _ _ (⟨_, rfl, _⟩ | ⟨_, ids, _, _, _, rfl, _⟩)
    · exact List.nil_sublist _
    · rw [filterMap_scalar_purchaseCalls]
      exact List.nil_sublist _

theorem own_knownFields : ∀ field ∈ knownFields, Own field := by
  simp only [knownFields, List.forall_mem_cons]
  exact ⟨own_itemField fun _ => rfl, own_itemField fun _ => rfl, own_itemField fun _ => rfl,
    own_itemField fun _ => rfl, own_itemField fun _ => rfl, own_itemField fun _ => rfl,
    own_itemField fun _ => rfl, own_itemField fun _ => rfl, own_itemField fun _ => rfl,
    own_itemField fun _ => rfl, own_purchaseIdField, List.forall_mem_nil _⟩

theorem scalars_fields {fields : List KnownField} {bytes : Bytes} {calls : List Call}
    {next : UInt8} (all : ∀ field ∈ fields, Own field) (made : Fields fields bytes calls next) :
    (calls.filterMap Call.scalar).Sublist (fields.map KnownField.number) := by
  induction made with
  | done next => exact List.nil_sublist _
  | absent other rest ih => exact (ih (List.forall_mem_cons.mp all).2).cons _
  | present entry rest ih =>
      rcases List.forall_mem_cons.mp all with ⟨own, others⟩
      rw [List.filterMap_append]
      exact (own.entry entry).append (ih others)

theorem scalars_fieldsCut {fields : List KnownField} {rest : Bytes} {calls : List Call}
    {stop : Stop} (all : ∀ field ∈ fields, Own field) (cut : FieldsCut fields rest calls stop) :
    (calls.filterMap Call.scalar).Sublist (fields.map KnownField.number) := by
  induction cut with
  | here cut =>
      exact ((List.forall_mem_cons.mp all).1.cut cut).trans ((List.nil_sublist _).cons_cons _)
  | absent other later ih => exact (ih (List.forall_mem_cons.mp all).2).cons _
  | present entry later ih =>
      rcases List.forall_mem_cons.mp all with ⟨own, others⟩
      rw [List.filterMap_append]
      exact (own.entry entry).append (ih others)

/-- No field with one value is set twice. -/
theorem BreaksOff.nodup {buffer : Bytes} {calls : List Call} {stop : Stop}
    (breaks : BreaksOff buffer calls stop) : (calls.filterMap Call.scalar).Nodup := by
  have numbers : (knownFields.map KnownField.number).Nodup := by decide
  cases breaks with
  | header => exact List.nodup_nil
  | version => exact List.nodup_nil
  | opening => exact List.nodup_nil
  | fields _ cut => exact numbers.sublist (scalars_fieldsCut own_knownFields cut)
  | offset _ made _ => exact numbers.sublist (scalars_fields own_knownFields made)
  | vars _ made _ _ _ _ cut =>
      have behind : ∀ {rest calls stop}, VarCut rest calls stop →
          calls.filterMap Call.scalar = [] := by
        intro _ _ _ cut
        cases cut with
        | relationId => rfl
        | count => rfl
        | element => exact filterMap_scalar_elementCalls _ _ _ _
      rw [List.filterMap_append, List.filterMap_append, filterMap_scalar_varCalls, behind cut,
        List.append_nil, List.append_nil]
      exact numbers.sublist (scalars_fields own_knownFields made)

theorem BreaksOff.decoded {buffer : Bytes} {calls : List Call} {stop : Stop}
    (breaks : BreaksOff buffer calls stop) : ∀ call ∈ calls, call.Decoded := by
  have decoded := decoded_of_mem_scan buffer
  rwa [scan_of_breaksOff breaks] at decoded

/-! ## The profile -/

section Overwritten

variable {m : Mutator} (own : m.scalar ≠ none)

include own

end Overwritten

/-- The variables of a cookie as a map: the relations that have an entry, and the
elements of each. -/
structure Vars where
  has : RelationId → Prop
  elements : RelationId → List RelVar

namespace Vars

/-- A relation is found at the least entry at or above it. -/
def Leads (vars : Vars) (rid r : RelationId) : Prop :=
  vars.has r ∧ rid ≤ r ∧ ∀ r', vars.has r' → rid ≤ r' → r ≤ r'

open Classical in
/-- The entry where a relation is found gets other elements. -/
noncomputable def write (vars : Vars) (rid : RelationId) (f : List RelVar → List RelVar) : Vars :=
  ⟨vars.has, fun r => if vars.Leads rid r then f (vars.elements r) else vars.elements r⟩

/-- A relation gets an entry if it has none, and an element is stored there. -/
def store (vars : Vars) (rid : RelationId) (rv : RelVar) (allocType : AllocationType)
    (maxLinear : UInt32) : Vars :=
  ⟨fun r => vars.has r ∨ r = rid, fun r =>
    if r = rid then storeElement (vars.elements rid) rv allocType maxLinear
    else vars.elements r⟩

/-- What a call of the decoder makes of the variables. -/
noncomputable def take (vars : Vars) : Call → Vars
  | .mutate _ => vars
  | .setVar rid rv allocType maxLinear =>
      if rv.value = [] then
        if allocType = .last then vars.write rid fun _ => [] else vars
      else
        vars.store rid rv allocType maxLinear
  | .append rid rv => vars.write rid (· ++ [rv])

end Vars

/-- The variables that a table holds. -/
def vars (table : RelVarTable) : Vars :=
  ⟨HasEntry table, table.elements⟩

end VCookieStore

end Elevator
