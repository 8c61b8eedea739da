import Elevator.Codec.Forward

/-!
# What the bytes determine

Texts are written with the bytes they hold and one zero byte behind them, so a
zero byte inside a text ends it early for a reader.  Without zero bytes every part
of an encoding is told apart from what follows, and equal encodings show equal
cookies; as soon as zero bytes are allowed, two cookies share their bytes.
-/

namespace Elevator

open Wire Transition RelVarTable VCookie

/-- A string of allowed bytes and a relation other than the invalid one. -/
structure Mutator.Over (allowed : UInt8 → Prop) (m : Mutator) : Prop where
  text : ∀ byte ∈ m.text, allowed byte
  stores : m.StoresIn (fun r => r ≠ invalidRid) fun _ => True

namespace VCookieStore

/-- The string and scalar getters, the purchase ids and the elements of every
relation agree.  The identity is not part of a record. -/
structure ShowsSame (a b : VCookie) : Prop where
  gotten : gottenProfile a = gottenProfile b
  elements : ∀ r, a.elements r = b.elements r

/-! ## Variables -/

theorem serializeElement_append_inj {rv rv' : RelVar} (fits : 0 ∉ rv.value)
    (fits' : 0 ∉ rv'.value) {rest rest' : Bytes}
    (same : serializeElement rv ++ rest = serializeElement rv' ++ rest') :
    rv = rv' ∧ rest = rest' := by
  simp only [serializeElement, List.append_assoc] at same
  rcases text.put_append_inj fits fits' same with ⟨value, same₁⟩
  rcases i64.put_append_inj trivial trivial same₁ with ⟨timestamp, same₂⟩
  rcases u8.put_append_inj trivial trivial same₂ with ⟨revision, same₃⟩
  constructor
  · cases rv
    cases rv'
    rw [RelVar.mk.injEq]
    exact ⟨value, timestamp, revision⟩
  · exact same₃

theorem elements_append_inj {var var' : List RelVar} (fits : ∀ element ∈ var, 0 ∉ element.value)
    (fits' : ∀ element ∈ var', 0 ∉ element.value) (length : var.length = var'.length)
    {rest rest' : Bytes}
    (same : var.flatMap serializeElement ++ rest = var'.flatMap serializeElement ++ rest') :
    var = var' ∧ rest = rest' := by
  induction var generalizing var' with
  | nil =>
      rw [List.eq_nil_of_length_eq_zero length.symm] at same ⊢
      exact ⟨rfl, same⟩
  | cons rv var ih =>
      cases var' with
      | nil => contradiction
      | cons rv' var' =>
          rcases List.forall_mem_cons.mp fits with ⟨fitsHead, fitsRest⟩
          rcases List.forall_mem_cons.mp fits' with ⟨fitsHead', fitsRest'⟩
          simp only [List.flatMap_cons, List.append_assoc] at same
          rcases serializeElement_append_inj fitsHead fitsHead' same with ⟨head, behind⟩
          rcases ih fitsRest fitsRest' (Nat.succ.inj length) behind with ⟨tail, after⟩
          exact ⟨by rw [head, tail], after⟩

theorem encodeVars_inj {sets sets' : List (RelationId × List RelVar)}
    (fits : ∀ set ∈ sets, SetFits set) (fits' : ∀ set ∈ sets', SetFits set)
    (same : encodeVars sets = encodeVars sets') : sets = sets' := by
  induction sets generalizing sets' with
  | nil =>
      cases sets' with
      | nil => rfl
      | cons set' sets' =>
          have fitsHead' := fits' set' List.mem_cons_self
          rw [encodeVars_nil, encodeVars_cons fitsHead'] at same
          exact absurd (u16.put_append_inj trivial trivial same).1.symm fitsHead'.valid
  | cons set sets ih =>
      have fitsHead := fits set List.mem_cons_self
      cases sets' with
      | nil =>
          rw [encodeVars_nil, encodeVars_cons fitsHead] at same
          exact absurd (u16.put_append_inj trivial trivial same).1 fitsHead.valid
      | cons set' sets' =>
          have fitsHead' := fits' set' List.mem_cons_self
          rw [encodeVars_cons fitsHead, encodeVars_cons fitsHead'] at same
          rcases u16.put_append_inj trivial trivial same with ⟨relation, same₁⟩
          rcases u32.put_append_inj trivial trivial same₁ with ⟨count, same₂⟩
          have length : set.2.length = set'.2.length := by
            rw [← fitsHead.count, ← fitsHead'.count, count]
          obtain ⟨var, same₃⟩ := elements_append_inj fitsHead.values fitsHead'.values length same₂
          rw [Prod.ext relation var, ih (List.forall_mem_cons.mp fits).2
            (List.forall_mem_cons.mp fits').2 same₃]

/-! ## Whole encodings -/

/-- The fields of an encoding end at the same place for whoever reads them. -/
theorem fields_append_inj {a b : VCookie} (encodableA : Encodable a) (encodableB : Encodable b)
    (saveLastHitTime : Bool) {varsA varsB : Bytes}
    (same : serializeFields a saveLastHitTime ++ 0 :: varsA =
      serializeFields b saveLastHitTime ++ 0 :: varsB) :
    headerCalls a saveLastHitTime = headerCalls b saveLastHitTime ∧ varsA = varsB := by
  have ends (vars : Bytes) : OpensAbove 11 (0 :: vars) := ⟨0, vars, rfl, Or.inl rfl⟩
  obtain ⟨next, buffer, opens, _⟩ :=
    (consumes_readFields encodableA saveLastHitTime []).opens _ (ends varsA)
  have startA : next :: buffer.drop 0 = serializeFields a saveLastHitTime ++ 0 :: varsA :=
    opens.symm
  obtain ⟨s, readA, standsA, callsA⟩ :=
    (consumes_readFields encodableA saveLastHitTime buffer).reads ⟨[], 0, next⟩ _ (ends varsA)
      startA
  obtain ⟨s', readB, standsB, callsB⟩ :=
    (consumes_readFields encodableB saveLastHitTime buffer).reads ⟨[], 0, next⟩ _ (ends varsB)
      (startA.trans same)
  cases readA.symm.trans readB
  constructor
  · exact List.append_cancel_left (callsA.symm.trans callsB)
  · exact (List.cons.inj (standsA.symm.trans standsB)).2

/-- Cookies without zero bytes that encode alike show the same. -/
theorem showsSame_of_encode {a b : VCookie} (encodableA : Encodable a) (encodableB : Encodable b)
    (validA : ∀ rv ∈ a.relVar, rv.relationId ≠ invalidRid)
    (validB : ∀ rv ∈ b.relVar, rv.relationId ≠ invalidRid)
    (smallA : ∀ r, (a.elements r).length < 2 ^ 32) (smallB : ∀ r, (b.elements r).length < 2 ^ 32)
    (same : encode a true = encode b true) : ShowsSame a b := by
  have behind (c : VCookie) : (encode c true).drop 7 =
      serializeFields c true ++ 0 :: encodeVars c.countedVars := by
    have split : encode c true =
        ([0, 0, 0] ++ u32.put (UInt32.ofNat (7 + (encodeFields c true).length))) ++
          (serializeFields c true ++ 0 :: encodeVars c.countedVars) := by
      simp [encode, encodeFields]
    rw [split]
    apply List.drop_left'
    rw [List.length_append, length_u32_put]
    rfl
  have fields : serializeFields a true ++ 0 :: encodeVars a.countedVars =
      serializeFields b true ++ 0 :: encodeVars b.countedVars := by
    rw [← behind, ← behind, same]
  obtain ⟨calls, vars⟩ := fields_append_inj encodableA encodableB true fields
  have sets := encodeVars_inj (setFits_of_mem encodableA) (setFits_of_mem encodableB) vars
  constructor
  · have gottenA := run_headerCalls encodableA.purchaseIds true
    have gottenB := run_headerCalls encodableB.purchaseIds true
    rw [← calls] at gottenB
    exact gottenA.symm.trans gottenB
  · intro r
    by_cases valid : r = invalidRid
    · subst valid
      rw [elements_of_absent validA, elements_of_absent validB]
    · have list := (countedVars_eq_iff encodableA.indexed encodableB.indexed).mp sets r valid
      rwa [counted_of_lt (smallA r), counted_of_lt (smallB r)] at list

/-- Equal encodings show equal cookies, whatever calls with these bytes in their
strings have made them. -/
def Determined (allowed : UInt8 → Prop) : Prop :=
  ∀ (idA idB : VCookieId) (newA newB : Bool) (msA msB : List Mutator),
    (∀ m ∈ msA, m.Over allowed) → (∀ m ∈ msB, m.Over allowed) →
      let a := run mutate (fresh idA newA) msA
      let b := run mutate (fresh idB newB) msB
      (∀ r, (a.elements r).length < 2 ^ 32) → (∀ r, (b.elements r).length < 2 ^ 32) →
        serialize a true = serialize b true → ShowsSame a b

/-- Encodings determine what a cookie shows exactly when strings hold no zero
byte. -/
theorem determined_iff (allowed : UInt8 → Prop) : Determined allowed ↔ ¬ allowed 0 := by
  constructor
  · -- two purchase ids of one and of two zero bytes, in either order
    intro determined zero
    have within (text : Bytes) (zeros : ∀ byte ∈ text, byte = 0) :
        (Mutator.setPurchaseId text).Over allowed :=
      ⟨fun byte member => zeros byte member ▸ zero, trivial⟩
    have one := within [0] (by simp)
    have two := within [0, 0] (by simp)
    have shows := determined ⟨1, 2, 3⟩ ⟨1, 2, 3⟩ true true
      [.setPurchaseId [0], .setPurchaseId [0, 0]] [.setPurchaseId [0, 0], .setPurchaseId [0]]
      (by simp [one, two]) (by simp [one, two]) (fun _ => Nat.two_pow_pos 32)
      (fun _ => Nat.two_pow_pos 32) (by decide +kernel)
    exact absurd (congrArg Profile.purchaseIds shows.gotten) (by decide)
  · intro noZero idA idB newA newB msA msB overA overB a b smallA smallB same
    have nulFree {ms : List Mutator} (within : ∀ m ∈ ms, m.Over allowed) :
        ∀ m ∈ ms, 0 ∉ m.text :=
      fun m member zero => noZero ((within m member).text 0 zero)
    have encodable (id : VCookieId) (newCookie : Bool) {ms : List Mutator}
        (within : ∀ m ∈ ms, m.Over allowed) : Encodable (run mutate (fresh id newCookie) ms) := by
      have kept := nulFree_mutators id newCookie (nulFree within)
      rw [← run_mutators] at kept ⊢
      exact encodable_run kept
    have valid (id : VCookieId) (newCookie : Bool) {ms : List Mutator}
        (within : ∀ m ∈ ms, m.Over allowed) :
        ∀ rv ∈ (run mutate (fresh id newCookie) ms).relVar, rv.relationId ≠ invalidRid := by
      intro rv member
      have stores : ∀ m ∈ ms, m.StoresIn (fun r => r ≠ invalidRid) fun _ => True :=
        fun m member => (within m member).stores
      exact (within_run trivial id newCookie stores rv member).1
    have encodableA := encodable idA newA overA
    have encodableB := encodable idB newB overB
    rw [serialize_eq encodableA.indexed, serialize_eq encodableB.indexed] at same
    exact showsSame_of_encode encodableA encodableB (valid idA newA overA) (valid idB newB overB)
      smallA smallB (Option.some.inj same)

/-- A referrer with a zero byte is written like a referrer and a page URL. -/
theorem referrer_read_as_url :
    let a := run mutate (fresh ⟨1, 2, 3⟩ true) [.setFirstHitReferrer [120, 0, 7, 121]]
    let b := run mutate (fresh ⟨1, 2, 3⟩ true) [.setFirstHitReferrer [120], .setFirstHitUrl [121]]
    serialize a true = some [0, 0, 0, 14, 0, 0, 0, 6, 120, 0, 7, 121, 0, 0, 255, 255] ∧
      serialize b true = serialize a true ∧ b.getFirstHitUrl ≠ a.getFirstHitUrl ∧
      ¬ ShowsSame a b := by
  constructor
  · decide +kernel
  constructor
  · decide +kernel
  constructor
  · decide
  · intro shows
    exact absurd (congrArg Profile.firstHitPageUrl shows.gotten) (by decide)

end VCookieStore

end Elevator
