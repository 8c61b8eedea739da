import Elevator.Codec.Truncation
import Elevator.Wire.Exact

/-!
# The layout of accepted records

`Deserialize` accepts a buffer exactly if it is laid out as a record: a header of a
compatible version, known fields in ascending order and each at most once, a byte that
opens none of the fields left, and at the offset of the header the variables up to the
invalid relation id.  What lies between the fields and the offset, and what follows the
variables, is not looked at.
-/

namespace Elevator

open Wire Transition VCookie

namespace VCookieStore

/-- Why the decoder gives up: a word runs past the end of the buffer, a text has no zero
byte, or what the buffer holds is refused. -/
inductive Stop
  | short
  | unended
  | refused
  deriving DecidableEq, Repr

end VCookieStore

/-- What a missing item is. -/
def Wire.Item.stop {α : Type} (item : Item α) : VCookieStore.Stop :=
  if item.ahead = 0 then .unended else .short

namespace VCookieStore

/-! ## Fields -/

/-- Between two fields the decoder gets past `bytes` and makes `calls`. -/
structure Advances (buffer : Bytes) (s s' : Cursor (List Call)) (bytes : Bytes)
    (calls : List Call) : Prop where
  stands : s.next :: buffer.drop s.b = bytes ++ s'.next :: buffer.drop s'.b
  cookie : s'.cookie = s.cookie ++ calls
  position : s'.b = s.b + bytes.length

theorem Advances.trans {buffer : Bytes} {s s₁ s₂ : Cursor (List Call)} {bytes bytes' : Bytes}
    {calls calls' : List Call} (first : Advances buffer s s₁ bytes calls)
    (second : Advances buffer s₁ s₂ bytes' calls') :
    Advances buffer s s₂ (bytes ++ bytes') (calls ++ calls') where
  stands := by rw [first.stands, second.stands, List.append_assoc]
  cookie := by rw [second.cookie, first.cookie, List.append_assoc]
  position := by rw [second.position, first.position, List.length_append, Nat.add_assoc]

/-- The decoder can get past bytes that stand in front of another. -/
theorem advances_of_stands {buffer : Bytes} {s : Cursor (List Call)} {bytes after : Bytes}
    {next : UInt8} (stands : s.next :: buffer.drop s.b = bytes ++ next :: after)
    (calls : List Call) :
    buffer.drop (s.b + bytes.length) = after ∧
      Advances buffer s ⟨s.cookie ++ calls, s.b + bytes.length, next⟩ bytes calls := by
  have behind := congrArg (List.drop (bytes.length + 1)) stands
  rw [List.drop_succ_cons, List.drop_drop, List.drop_length_add_append] at behind
  have rest : buffer.drop (s.b + bytes.length) = after := behind
  refine ⟨rest, ?_, rfl, rfl⟩
  rw [rest]
  exact stands

theorem Advances.split {buffer : Bytes} {s s' : Cursor (List Call)} {bytes bytes' : Bytes}
    {calls calls' : List Call} (both : Advances buffer s s' (bytes ++ bytes') (calls ++ calls')) :
    ∃ s₁, Advances buffer s s₁ bytes calls ∧ Advances buffer s₁ s' bytes' calls' := by
  have stands := both.stands
  rw [List.append_assoc] at stands
  cases left : bytes' ++ s'.next :: buffer.drop s'.b with
  | nil => simp at left
  | cons next tail =>
      rw [left] at stands
      rcases advances_of_stands stands calls with ⟨rest, first⟩
      refine ⟨_, first, ?_, ?_, ?_⟩
      · rw [rest]
        exact left.symm
      · rw [both.cookie, List.append_assoc]
      · rw [both.position, List.length_append, Nat.add_assoc]

/-- Nothing read is nothing done. -/
theorem advances_nil_iff {buffer : Bytes} {s s' : Cursor (List Call)} :
    Advances buffer s s' [] [] ↔ s' = s := by
  constructor
  · intro advances
    rcases s with ⟨cookie, b, next⟩
    rcases s' with ⟨cookie', b', next'⟩
    have same := advances.cookie
    have position := advances.position
    have first := (List.cons.inj advances.stands).1
    simp only [List.append_nil, List.length_nil, Nat.add_zero] at same position first
    rw [same, position, first]
  · rintro rfl
    exact ⟨rfl, (List.append_nil _).symm, rfl⟩

/-- A known field: its number, what follows the number with the calls it makes, and how
a buffer ends in it. -/
structure KnownField where
  number : UInt8
  Entry : Bytes → List Call → Prop
  Cut : Bytes → List Call → Stop → Prop

/-- Known fields in their order, up to the byte `next`.  A field is left out unless what
follows opens with its number. -/
inductive Fields : List KnownField → Bytes → List Call → UInt8 → Prop
  | done (next : UInt8) : Fields [] [] [] next
  | absent {field : KnownField} {fields : List KnownField} {bytes : Bytes} {calls : List Call}
      {next : UInt8} (other : (bytes ++ [next]).head? ≠ some field.number)
      (rest : Fields fields bytes calls next) : Fields (field :: fields) bytes calls next
  | present {field : KnownField} {fields : List KnownField} {bytes bytes' : Bytes}
      {calls calls' : List Call} {next : UInt8} (entry : field.Entry bytes calls)
      (rest : Fields fields bytes' calls' next) :
      Fields (field :: fields) (field.number :: bytes ++ bytes') (calls ++ calls') next

/-- `f` reads the field if its number comes next. -/
def Reads (buffer : Bytes) (field : KnownField)
    (f : Cursor (List Call) → Except (List Call) (Cursor (List Call))) : Prop :=
  ∀ s s', f s = .ok s' ↔
    s.next ≠ field.number ∧ s' = s ∨
      ∃ bytes calls, field.Entry bytes calls ∧
        Advances buffer s s' (field.number :: bytes) calls

/-- The byte that comes next opens what is read. -/
theorem Advances.head? {buffer : Bytes} {s s' : Cursor (List Call)} {bytes : Bytes}
    {calls : List Call} (advances : Advances buffer s s' bytes calls) :
    (bytes ++ [s'.next]).head? = some s.next := by
  have stands := advances.stands
  cases bytes with
  | nil => rw [List.nil_append, List.head?_cons, (List.cons.inj stands).1]
  | cons byte bytes =>
      rw [List.cons_append, List.head?_cons, ← (List.cons.inj stands).1]

/-- Readers of fields one after the other. -/
theorem foldlM_eq_ok_iff {buffer : Bytes} {fields : List KnownField}
    {readers : List (Cursor (List Call) → Except (List Call) (Cursor (List Call)))}
    (reads : List.Forall₂ (Reads buffer) fields readers) (s s' : Cursor (List Call)) :
    readers.foldlM (fun s f => f s) s = .ok s' ↔
      ∃ bytes calls, Fields fields bytes calls s'.next ∧ Advances buffer s s' bytes calls := by
  induction reads generalizing s with
  | nil =>
      constructor
      · rintro ⟨⟩
        exact ⟨[], [], .done _, advances_nil_iff.mpr rfl⟩
      · rintro ⟨_, _, ⟨⟩, advances⟩
        rw [advances_nil_iff.mp advances]
        rfl
  | @cons field f fields readers first _ ih =>
      have bound : (f s >>= fun s => readers.foldlM (fun s f => f s) s) = .ok s' ↔
          ∃ s₁, f s = .ok s₁ ∧ readers.foldlM (fun s f => f s) s₁ = .ok s' := by
        cases f s with
        | error left => simp [bind, Except.bind]
        | ok s₁ => simp [bind, Except.bind]
      rw [List.foldlM_cons, bound]
      constructor
      · rintro ⟨s₁, read, rest⟩
        rcases (ih s₁).mp rest with ⟨bytes, calls, fields, advances⟩
        rcases (first s s₁).mp read with ⟨other, rfl⟩ | ⟨own, calls', entry, before⟩
        · refine ⟨bytes, calls, .absent ?_ fields, advances⟩
          rw [advances.head?]
          exact fun same => other (Option.some.inj same)
        · exact ⟨_, _, .present entry fields, before.trans advances⟩
      · rintro ⟨bytes, calls, fields, advances⟩
        cases fields with
        | absent other rest =>
            refine ⟨s, (first s s).mpr (Or.inl ⟨?_, rfl⟩), (ih s).mpr ⟨_, _, rest, advances⟩⟩
            rintro same
            rw [advances.head?, same] at other
            exact other rfl
        | present entry rest =>
            rcases advances.split with ⟨s₁, before, behind⟩
            exact ⟨s₁, (first s s₁).mpr (Or.inr ⟨_, _, entry, before⟩),
              (ih s₁).mpr ⟨_, _, rest, behind⟩⟩

/-- A field with one value. -/
def itemField {α : Type} (number : UInt8) (item : Item α) (set : α → Mutator) : KnownField where
  number := number
  Entry bytes calls := ∃ val, item.Fits val ∧ bytes = item.put val ∧ calls = [.mutate (set val)]
  Cut rest calls stop :=
    (Missing item.ahead rest ∧ calls = [] ∧ stop = item.stop) ∨
      ∃ val, item.Fits val ∧ rest = item.put val ∧ calls = [.mutate (set val)] ∧ stop = .short

theorem reads_itemField {α : Type} {item : Item α} (exact : item.Exact) (buffer : Bytes)
    (number : UInt8) (set : α → Mutator) :
    Reads buffer (itemField number item set)
      (readField traceSetters buffer item number set) := by
  intro s s'
  constructor
  · intro read
    rw [readField] at read
    split at read
    · rename_i present
      split at read
      · cases read
      · rename_i val b found
        rcases exact found with ⟨fits, stands, rfl⟩
        dsimp only at read
        split at read
        · cases read
        · rename_i next b' behind
          rcases exact_u8 behind with ⟨_, standsNext, rfl⟩
          cases read
          right
          refine ⟨_, _, ⟨val, fits, rfl, rfl⟩, ?_, rfl, ?_⟩
          · rw [stands, standsNext, u8_put, present]
            rfl
          · rw [u8_put, List.length_cons]
            rfl
    · rename_i other
      cases read
      exact Or.inl ⟨other, rfl⟩
  · rintro (⟨other, rfl⟩ | ⟨_, _, ⟨val, fits, rfl, rfl⟩, advances⟩)
    · exact if_neg other
    · have present : s.next = number := (List.cons.inj advances.stands).1
      have behind := (List.cons.inj advances.stands).2
      rcases item.read_of_drop fits behind with ⟨found, standsNext⟩
      rcases u8_read_of_drop standsNext with ⟨readNext, _⟩
      have position := advances.position
      have cookie := advances.cookie
      rw [readField, if_pos present, found]
      dsimp only
      rw [readNext]
      rcases s' with ⟨cookie', b', next'⟩
      dsimp only at position cookie ⊢
      rw [cookie, position, List.length_cons, ← Nat.add_assoc]
      rfl

theorem readPurchaseLoop_eq_ok_iff {buffer : Bytes} {count : Nat} {calls calls' : List Call}
    {b b' : Nat} :
    readPurchaseLoop traceSetters buffer count calls b = .ok (calls', b') ↔
      ∃ ids : List Bytes, ids.length = count ∧ (∀ id ∈ ids, 0 ∉ id) ∧
        buffer.drop b = ids.flatMap text.put ++ buffer.drop b' ∧
        b' = b + (ids.flatMap text.put).length ∧ calls' = calls ++ purchaseCalls ids := by
  induction count generalizing calls b with
  | zero =>
      constructor
      · rintro ⟨⟩
        exact ⟨[], rfl, List.forall_mem_nil _, rfl, rfl, (List.append_nil _).symm⟩
      · rintro ⟨ids, none, _, _, position, same⟩
        cases List.length_eq_zero_iff.mp none
        rw [same, position]
        exact congrArg (fun calls => Except.ok (calls, b)) (List.append_nil _).symm
  | succ count ih =>
      rw [readPurchaseLoop]
      constructor
      · intro read
        split at read
        · cases read
        · rename_i id b₁ found
          rcases exact_text found with ⟨fits, stands, rfl⟩
          rcases ih.mp read with ⟨ids, length, rest, standsRest, rfl, rfl⟩
          refine ⟨id :: ids, congrArg Nat.succ length, List.forall_mem_cons.mpr ⟨fits, rest⟩, ?_⟩
          rw [stands, standsRest]
          simp [purchaseCalls, traceSetters, Nat.add_assoc]
      · rintro ⟨_ | ⟨id, ids⟩, length, nulFree, stands, position, same⟩
        · cases length
        · rcases List.forall_mem_cons.mp nulFree with ⟨fits, rest⟩
          rw [List.flatMap_cons, List.append_assoc] at stands
          rcases text.read_of_drop fits stands with ⟨found, standsRest⟩
          rw [found]
          apply ih.mpr
          refine ⟨ids, Nat.succ.inj length, rest, standsRest, ?_, ?_⟩
          · rw [position, List.flatMap_cons, List.length_append, Nat.add_assoc]
          · simp [same, purchaseCalls, traceSetters]

/-- Field 11. -/
def purchaseIdField : KnownField where
  number := 11
  Entry bytes calls := ∃ ids : List Bytes, ids.length < 2 ^ 8 ∧ (∀ id ∈ ids, 0 ∉ id) ∧
    bytes = u8.put (UInt8.ofNat ids.length) ++ ids.flatMap text.put ∧ calls = purchaseCalls ids
  Cut rest calls stop := (rest = [] ∧ calls = [] ∧ stop = .short) ∨
    ∃ (cnt : UInt8) (ids : List Bytes) (tail : Bytes), (∀ id ∈ ids, 0 ∉ id) ∧
      rest = cnt :: (ids.flatMap text.put ++ tail) ∧ calls = purchaseCalls ids ∧
        (ids.length < cnt.toNat ∧ 0 ∉ tail ∧ stop = .unended ∨
          ids.length = cnt.toNat ∧ tail = [] ∧ stop = .short)

theorem reads_purchaseIdField (buffer : Bytes) :
    Reads buffer purchaseIdField (readPurchaseIds traceSetters buffer) := by
  intro s s'
  constructor
  · intro read
    rw [readPurchaseIds] at read
    split at read
    · rename_i present
      split at read
      · cases read
      · rename_i cnt b counted
        rcases exact_u8 counted with ⟨_, standsCount, rfl⟩
        split at read
        · cases read
        · rename_i calls b₁ loop
          rcases readPurchaseLoop_eq_ok_iff.mp loop with ⟨ids, length, nulFree, standsIds, rfl, rfl⟩
          split at read
          · cases read
          · rename_i next b₂ behind
            rcases exact_u8 behind with ⟨_, standsNext, rfl⟩
            cases read
            have count : UInt8.ofNat ids.length = cnt := by rw [length, UInt8.ofNat_toNat]
            right
            refine ⟨_, _, ⟨ids, length ▸ cnt.toNat_lt, nulFree, rfl, rfl⟩, ?_, rfl, ?_⟩
            · rw [standsCount, standsIds, standsNext, present, count, u8_put]
              simp [purchaseIdField]
            · simp
              omega
    · rename_i other
      cases read
      exact Or.inl ⟨other, rfl⟩
  · rintro (⟨other, rfl⟩ | ⟨_, _, ⟨ids, few, nulFree, rfl, rfl⟩, advances⟩)
    · exact if_neg other
    · have present : s.next = 11 := (List.cons.inj advances.stands).1
      have behind := (List.cons.inj advances.stands).2
      have count : (UInt8.ofNat ids.length).toNat = ids.length := by
        rw [UInt8.toNat_ofNat']
        exact Nat.mod_eq_of_lt few
      rw [List.append_eq, u8_put, List.append_assoc, List.singleton_append] at behind
      rcases u8_read_of_drop behind with ⟨counted, standsIds⟩
      have standsNext := drop_behind standsIds
      rcases u8_read_of_drop standsNext with ⟨readNext, _⟩
      have loop : readPurchaseLoop traceSetters buffer ids.length s.cookie (s.b + 1) =
          .ok (s.cookie ++ purchaseCalls ids, s.b + 1 + (ids.flatMap text.put).length) :=
        readPurchaseLoop_eq_ok_iff.mpr
          ⟨ids, rfl, nulFree, by rw [standsNext]; exact standsIds, rfl, rfl⟩
      have position := advances.position
      have cookie := advances.cookie
      rw [u8_put, List.length_cons, List.length_append, List.length_singleton] at position
      simp only [readPurchaseIds, if_pos present, counted, count, loop, readNext]
      rcases s' with ⟨cookie', b', next'⟩
      dsimp only at position cookie ⊢
      rw [cookie, position, ← Nat.add_assoc, ← Nat.add_assoc]

/-! ## Variables -/

theorem stands_of_readElement {buffer : Bytes} {b b' : Nat} {rv : RelVar}
    (read : readElement buffer b = some (rv, b')) :
    0 ∉ rv.value ∧ buffer.drop b = serializeElement rv ++ buffer.drop b' ∧
      b' = b + (serializeElement rv).length := by
  simp only [readElement, Option.bind_eq_bind, Option.pure_def] at read
  rcases Option.bind_eq_some_iff.mp read with ⟨⟨value, b₁⟩, first, read⟩
  rcases Option.bind_eq_some_iff.mp read with ⟨⟨timestamp, b₂⟩, second, read⟩
  rcases Option.bind_eq_some_iff.mp read with ⟨⟨revision, b₃⟩, third, read⟩
  rcases exact_text first with ⟨fits, stands₁, rfl⟩
  rcases exact_i64 second with ⟨_, stands₂, rfl⟩
  rcases exact_u8 third with ⟨_, stands₃, rfl⟩
  cases read
  constructor
  · exact fits
  constructor
  · rw [stands₁, stands₂, stands₃]
    simp [serializeElement]
  · simp [serializeElement, Nat.add_assoc]

/-- The elements that are read stand in the buffer, and the calls are theirs. -/
theorem stands_of_readElements {buffer : Bytes} {rid : RelationId} {cnt : UInt32}
    {remaining : Nat} {calls calls' : List Call} {stored : Bool} {b b' : Nat}
    (read : readElements traceSetters buffer rid cnt remaining calls (tracedVid rid stored) b =
      .ok (calls', b')) :
    ∃ var : List RelVar, var.length = remaining ∧ (∀ element ∈ var, 0 ∉ element.value) ∧
      buffer.drop b = var.flatMap serializeElement ++ buffer.drop b' ∧
      calls' = calls ++ elementCalls rid cnt stored var := by
  induction remaining generalizing calls stored b with
  | zero =>
      cases read
      refine ⟨[], rfl, List.forall_mem_nil _, rfl, ?_⟩
      rw [elementCalls_nil, List.append_nil]
  | succ remaining ih =>
      cases found : readElement buffer b with
      | none =>
          rw [readElements, found] at read
          cases read
      | some result =>
          rcases result with ⟨rv, b₁⟩
          rcases stands_of_readElement found with ⟨fits, stands, rfl⟩
          obtain ⟨call, stored', split, step⟩ :=
            readElements_step found rid cnt remaining calls stored
          rw [step] at read
          rcases ih read with ⟨var, length, rest, standsRest, rfl⟩
          refine ⟨rv :: var, congrArg Nat.succ length, List.forall_mem_cons.mpr ⟨fits, rest⟩,
            ?_, ?_⟩
          · rw [stands, standsRest, List.flatMap_cons, List.append_assoc]
          · rw [split, List.append_assoc, List.singleton_append]

/-- A relation of the variable section, as it is read: it may have no elements. -/
structure VarFits (set : RelationId × List RelVar) : Prop where
  valid : set.1 ≠ invalidRid
  small : set.2.length < 2 ^ 32
  values : ∀ element ∈ set.2, 0 ∉ element.value

def varBytes (set : RelationId × List RelVar) : Bytes :=
  u16.put set.1 ++ (u32.put (UInt32.ofNat set.2.length) ++ set.2.flatMap serializeElement)

/-- One relation is read from where it stands. -/
theorem readVars_set {buffer : Bytes} {set : RelationId × List RelVar} (fits : VarFits set)
    (calls : List Call) {b : Nat} {rest : Bytes}
    (stands : buffer.drop b = varBytes set ++ rest) :
    ∃ b₁ b₂, u16.read buffer b = some (set.1, b₁) ∧ buffer.drop b₂ = rest ∧
      readVars traceSetters buffer calls set.1 b₁ =
        match u16.read buffer b₂ with
        | none => .error (calls ++ varCalls set)
        | some (rid, b₃) => readVars traceSetters buffer (calls ++ varCalls set) rid b₃ := by
  rw [varBytes, List.append_assoc, List.append_assoc] at stands
  rcases u16.read_of_drop trivial stands with ⟨readRid, stands₁⟩
  rcases u32.read_of_drop trivial stands₁ with ⟨readCnt, stands₂⟩
  have count : (UInt32.ofNat set.2.length).toNat = set.2.length := by
    rw [UInt32.toNat_ofNat']
    exact Nat.mod_eq_of_lt fits.small
  obtain ⟨b₂, readAll, stands₃⟩ := readElements_encoded buffer set.1
    (UInt32.ofNat set.2.length) fits.values calls false _ stands₂
  rw [show tracedVid set.1 false = varNotSet from rfl] at readAll
  refine ⟨_, b₂, readRid, stands₃, ?_⟩
  rw [readVars_eq, if_neg fits.valid, readCnt]
  dsimp only
  rw [count, readAll]
  rfl

/-- The variables are read from where they stand, with the id that was read before. -/
theorem readVars_of_stands {buffer : Bytes} {sets : List (RelationId × List RelVar)}
    (fits : ∀ set ∈ sets, VarFits set) (calls : List Call) {b : Nat} {tail : Bytes}
    (stands : buffer.drop b = sets.flatMap varBytes ++ (u16.put invalidRid ++ tail)) :
    ∃ rid b', u16.read buffer b = some (rid, b') ∧
      readVars traceSetters buffer calls rid b' = .ok (calls ++ sets.flatMap varCalls) := by
  induction sets generalizing calls b with
  | nil =>
      rcases u16.read_of_drop trivial stands with ⟨read, _⟩
      exact ⟨invalidRid, _, read, by simp [readVars_eq]⟩
  | cons set sets ih =>
      rcases List.forall_mem_cons.mp fits with ⟨fitsHead, fitsRest⟩
      rw [List.flatMap_cons, List.append_assoc] at stands
      rcases readVars_set fitsHead calls stands with ⟨b₁, b₂, readRid, standsRest, readSet⟩
      rcases ih fitsRest (calls ++ varCalls set) standsRest with ⟨rid, b₃, readNext, rest⟩
      refine ⟨set.1, b₁, readRid, ?_⟩
      rw [readSet, readNext]
      apply rest.trans
      simp

/-- What the variables are read from. -/
theorem stands_of_readVars {buffer : Bytes} {calls calls' : List Call} {rid : RelationId}
    {b b₀ : Nat} (found : u16.read buffer b₀ = some (rid, b))
    (read : readVars traceSetters buffer calls rid b = .ok calls') :
    ∃ (sets : List (RelationId × List RelVar)) (tail : Bytes), (∀ set ∈ sets, VarFits set) ∧
      buffer.drop b₀ = sets.flatMap varBytes ++ (u16.put invalidRid ++ tail) ∧
      calls' = calls ++ sets.flatMap varCalls := by
  generalize left : buffer.length - b = measure
  induction measure using Nat.strong_induction_on generalizing calls rid b b₀ with
  | _ measure ih =>
      rcases exact_u16 found with ⟨_, stands, rfl⟩
      rw [readVars_eq] at read
      split at read
      · rename_i invalid
        cases read
        exact ⟨[], buffer.drop (b₀ + (u16.put rid).length), List.forall_mem_nil _,
          invalid ▸ stands, (List.append_nil _).symm⟩
      · rename_i valid
        split at read
        · cases read
        · rename_i cnt b₁ counted
          have bounds₁ := u32.read_bounds counted
          rcases exact_u32 counted with ⟨_, standsCnt, rfl⟩
          split at read
          · cases read
          · rename_i calls₁ b₂ loop
            have bounds₂ := readElements_le loop
            obtain ⟨var, length, nulFree, standsVar, rfl⟩ :=
              @stands_of_readElements _ _ _ _ _ _ false _ _ loop
            split at read
            · cases read
            · rename_i rid' b₃ again
              have bounds₃ := u16.read_bounds again
              obtain ⟨sets, tail, fits, standsRest, rfl⟩ :=
                ih (buffer.length - b₃) (by omega) again read rfl
              have count : UInt32.ofNat var.length = cnt := by rw [length, UInt32.ofNat_toNat]
              refine ⟨(rid, var) :: sets, tail, ?_, ?_, ?_⟩
              · rw [List.forall_mem_cons]
                exact ⟨⟨valid, length ▸ cnt.toNat_lt, nulFree⟩, fits⟩
              · rw [stands, standsCnt, standsVar, standsRest, List.flatMap_cons, varBytes, count]
                simp only [List.append_assoc]
              · rw [List.flatMap_cons, varCalls, count, List.append_assoc]

/-! ## Records -/

/-- The known fields in the order of the serializer. -/
def knownFields : List KnownField :=
  [itemField 1 i64 .setFirstHitTimeGMT, itemField 2 i64 .setLastHitTimeGMT,
    itemField 3 i64 .setLastHitTimeVisitorLocal, itemField 4 u32 .setLastVisitNum,
    itemField 5 i64 .setLastPurchaseTimeGMT, itemField 6 text .setFirstHitReferrer,
    itemField 7 text .setFirstHitUrl, itemField 8 text .setFirstHitPagename,
    itemField 9 u32 .setLastPurchaseNum, itemField 10 text .setMerchandising, purchaseIdField]

theorem readFields_eq_ok_iff {buffer : Bytes} {s s' : Cursor (List Call)} :
    readFields traceSetters buffer s = .ok s' ↔
      ∃ bytes calls, Fields knownFields bytes calls s'.next ∧
        Advances buffer s s' bytes calls := by
  have reads := List.Forall₂.cons (reads_itemField exact_i64 buffer 1 .setFirstHitTimeGMT) <|
    .cons (reads_itemField exact_i64 buffer 2 .setLastHitTimeGMT) <|
    .cons (reads_itemField exact_i64 buffer 3 .setLastHitTimeVisitorLocal) <|
    .cons (reads_itemField exact_u32 buffer 4 .setLastVisitNum) <|
    .cons (reads_itemField exact_i64 buffer 5 .setLastPurchaseTimeGMT) <|
    .cons (reads_itemField exact_text buffer 6 .setFirstHitReferrer) <|
    .cons (reads_itemField exact_text buffer 7 .setFirstHitUrl) <|
    .cons (reads_itemField exact_text buffer 8 .setFirstHitPagename) <|
    .cons (reads_itemField exact_u32 buffer 9 .setLastPurchaseNum) <|
    .cons (reads_itemField exact_text buffer 10 .setMerchandising) <|
    .cons (reads_purchaseIdField buffer) .nil
  have sequence := foldlM_eq_ok_iff reads s s'
  simp only [List.foldlM_cons, List.foldlM_nil, bind_pure] at sequence
  exact sequence

/-- The parts of a record that are looked at. -/
structure Record where
  version : UInt8
  compatible : UInt8
  flag : UInt8
  offset : UInt32
  fieldBytes : Bytes
  fieldCalls : List Call
  next : UInt8
  sets : List (RelationId × List RelVar)

namespace Record

def calls (r : Record) : List Call :=
  r.fieldCalls ++ r.sets.flatMap varCalls

/-- The buffer is laid out as this record. -/
structure LaidOut (r : Record) (buffer : Bytes) : Prop where
  readable : r.compatible ≤ vcSerialVersion
  bytes : ∃ rest, buffer = r.version :: r.compatible :: r.flag ::
    (u32.put r.offset ++ (r.fieldBytes ++ r.next :: rest))
  fields : Fields knownFields r.fieldBytes r.fieldCalls r.next
  behind : 8 + r.fieldBytes.length ≤ r.offset.toNat
  vars : ∃ tail, buffer.drop r.offset.toNat =
    r.sets.flatMap varBytes ++ (u16.put invalidRid ++ tail)
  fits : ∀ set ∈ r.sets, VarFits set

end Record

/-- The header bytes of a buffer that has them. -/
theorem readHeader (version compatible flag : UInt8) (rest : Bytes) (junk : UInt8) :
    let buffer := version :: compatible :: flag :: rest
    readHeaderByte buffer junk 0 = (version, 1) ∧ readHeaderByte buffer junk 1 = (compatible, 2) ∧
      readHeaderByte buffer junk 2 = (flag, 3) := by
  intro buffer
  rw [readHeaderByte, readHeaderByte, readHeaderByte, u8_read_of_lt (by simp [buffer]),
    u8_read_of_lt (by simp [buffer]), u8_read_of_lt (by simp [buffer])]
  exact ⟨rfl, rfl, rfl⟩

theorem exists_header {buffer : Bytes} (long : 3 ≤ buffer.length) :
    ∃ version compatible flag content, buffer = version :: compatible :: flag :: content := by
  rcases buffer with _ | ⟨version, _ | ⟨compatible, _ | ⟨flag, content⟩⟩⟩
  · simp at long
  · simp at long
  · simp at long
  · exact ⟨_, _, _, _, rfl⟩

/-- The offset and the byte ahead are read from behind the header. -/
theorem reads_of_opens {buffer : Bytes} {version compatible flag byte : UInt8} {offset : UInt32}
    {after : Bytes}
    (opens : buffer = version :: compatible :: flag :: (u32.put offset ++ byte :: after)) :
    u32.read buffer 3 = some (offset, 7) ∧ u8.read buffer 7 = some (byte, 8) ∧
      buffer.drop 8 = after := by
  have standsOffset : buffer.drop 3 = u32.put offset ++ byte :: after := by
    rw [opens]
    rfl
  rcases u32.read_of_drop trivial standsOffset with ⟨readOffset, standsNext⟩
  rw [length_u32_put] at readOffset standsNext
  rcases u8_read_of_drop standsNext with ⟨readNext, standsAfter⟩
  exact ⟨readOffset, readNext, standsAfter⟩

/-- What the offset and the byte ahead are read from. -/
theorem opens_of_reads {version compatible flag byte : UInt8} {content : Bytes}
    {offset : UInt32} {b b' : Nat}
    (readOffset : u32.read (version :: compatible :: flag :: content) 3 = some (offset, b))
    (readNext : u8.read (version :: compatible :: flag :: content) b = some (byte, b')) :
    b' = 8 ∧ content = u32.put offset ++
      byte :: (version :: compatible :: flag :: content).drop 8 := by
  rcases exact_u32 readOffset with ⟨_, standsOffset, rfl⟩
  rcases exact_u8 readNext with ⟨_, standsNext, rfl⟩
  rw [length_u32_put] at standsOffset standsNext ⊢
  rw [standsNext, u8_put] at standsOffset
  exact ⟨rfl, standsOffset⟩

/-- Behind a header the fields are read from where they stand. -/
theorem readFields_of_opens {buffer : Bytes} {version compatible flag next : UInt8}
    {offset : UInt32} {bytes rest : Bytes} {calls : List Call}
    (opens : buffer = version :: compatible :: flag ::
      (u32.put offset ++ (bytes ++ next :: rest)))
    (fields : Fields knownFields bytes calls next) :
    ∃ byte, u32.read buffer 3 = some (offset, 7) ∧ u8.read buffer 7 = some (byte, 8) ∧
      readFields traceSetters buffer ⟨[], 8, byte⟩ = .ok ⟨calls, 8 + bytes.length, next⟩ := by
  obtain ⟨byte, after, opening⟩ : ∃ byte after, bytes ++ next :: rest = byte :: after :=
    List.exists_cons_of_ne_nil (by simp)
  rw [opening] at opens
  rcases reads_of_opens opens with ⟨readOffset, readByte, standsAfter⟩
  have advances := (@advances_of_stands buffer ⟨[], 8, byte⟩ bytes rest next (by
    rw [opening, ← standsAfter]) calls).2
  exact ⟨byte, readOffset, readByte,
    readFields_eq_ok_iff.mpr ⟨bytes, calls, fields, advances⟩⟩

/-- A buffer with a header and fields is decoded up to the offset. -/
theorem decode_of_opens {buffer : Bytes} {version compatible flag next : UInt8}
    {offset : UInt32} {bytes rest : Bytes} {calls : List Call}
    (readable : compatible ≤ vcSerialVersion)
    (opens : buffer = version :: compatible :: flag ::
      (u32.put offset ++ (bytes ++ next :: rest)))
    (fields : Fields knownFields bytes calls next) :
    decode traceSetters 0 [] buffer =
      if 8 + bytes.length > offset.toNat then .error calls
      else
        match u16.read buffer offset.toNat with
        | none => .error calls
        | some (rid, b) => readVars traceSetters buffer calls rid b := by
  obtain ⟨first, second, third⟩ := readHeader version compatible flag
    (u32.put offset ++ (bytes ++ next :: rest)) 0
  rw [← opens] at first second third
  rcases readFields_of_opens opens fields with ⟨byte, readOffset, readByte, read⟩
  cases jumped : u16.read buffer offset.toNat <;>
    simp only [decode, first, second, third, if_neg (UInt8.not_lt.mpr readable), readOffset,
      readByte, read, jumped]

theorem decode_of_accepted {buffer : Bytes} {calls : List Call}
    (accepted : scan buffer = (calls, true)) : decode traceSetters 0 [] buffer = .ok calls := by
  rw [scan] at accepted
  split at accepted
  · cases accepted
  · rename_i result done
    cases accepted
    exact done

/-- A record is accepted. -/
theorem scan_of_laidOut {r : Record} {buffer : Bytes} (laidOut : r.LaidOut buffer) :
    scan buffer = (r.calls, true) := by
  rcases laidOut.bytes with ⟨rest, opens⟩
  rcases laidOut.vars with ⟨tail, vars⟩
  rcases readVars_of_stands laidOut.fits r.fieldCalls vars with ⟨rid, b, readRid, readAll⟩
  rw [scan, decode_of_opens laidOut.readable opens laidOut.fields,
    if_neg (Nat.not_lt.mpr laidOut.behind), readRid]
  dsimp only
  rw [readAll]
  rfl

/-- What is accepted is a record. -/
theorem laidOut_of_scan {buffer : Bytes} {calls : List Call}
    (accepted : scan buffer = (calls, true)) :
    ∃ r : Record, r.LaidOut buffer ∧ r.calls = calls := by
  have decoded := decode_of_accepted accepted
  have long : 7 ≤ buffer.length := by
    by_contra short
    rcases decode_of_length_lt traceSetters 0 [] (Nat.not_le.mp short) with ⟨left, rejected⟩
    rw [rejected] at decoded
    cases decoded
  obtain ⟨version, compatible, flag, content, rfl⟩ := exists_header (Nat.le_trans (by decide) long)
  rcases readHeader version compatible flag content 0 with ⟨first, second, third⟩
  simp only [decode, first, second, third] at decoded
  split at decoded
  · cases decoded
  · rename_i readable
    split at decoded
    · cases decoded
    · rename_i offset b readOffset
      split at decoded
      · cases decoded
      · rename_i next b readNext
        rcases opens_of_reads readOffset readNext with ⟨rfl, opens⟩
        split at decoded
        · cases decoded
        · rename_i s fields
          rcases readFields_eq_ok_iff.mp fields with ⟨bytes, fieldCalls, sequence, advances⟩
          split at decoded
          · cases decoded
          · rename_i behind
            split at decoded
            · cases decoded
            · rename_i rid b readRid
              rcases stands_of_readVars readRid decoded with ⟨sets, tail, fits, vars, rfl⟩
              refine ⟨⟨version, compatible, flag, offset, bytes, fieldCalls, s.next, sets⟩,
                ⟨UInt8.not_lt.mp readable,
                  ⟨(version :: compatible :: flag :: content).drop s.b, ?_⟩, sequence, ?_,
                  ⟨tail, vars⟩, fits⟩, ?_⟩
              · rw [advances.stands] at opens
                exact congrArg (fun rest => version :: compatible :: flag :: rest) opens
              · exact advances.position.symm.trans_le (Nat.not_lt.mp behind)
              · rw [advances.cookie]
                rfl

/-- `Deserialize` accepts exactly the records. -/
theorem scan_eq_iff {buffer : Bytes} {calls : List Call} :
    scan buffer = (calls, true) ↔ ∃ r : Record, r.LaidOut buffer ∧ r.calls = calls := by
  constructor
  · exact laidOut_of_scan
  · rintro ⟨r, laidOut, rfl⟩
    exact scan_of_laidOut laidOut

/-- A cookie is decoded from a buffer exactly if the buffer is laid out as a record, and
then by the calls that the record stands for, whatever else the buffer holds. -/
theorem deserialize_accepts_iff (c : IndexedCookie) (junk : UInt8) (buffer : Bytes)
    (c' : VCookie) :
    deserialize junk c.1 buffer = (c', true) ↔
      ∃ r : Record, r.LaidOut buffer ∧ c' = replay c.1 r.calls := by
  rw [deserialize_eq_replay c.2]
  constructor
  · intro accepted
    rcases Prod.mk.inj accepted with ⟨replayed, passed⟩
    rcases scan_eq_iff.mp (Prod.ext rfl passed : scan buffer = (_, true)) with ⟨r, laidOut, calls⟩
    exact ⟨r, laidOut, calls ▸ replayed.symm⟩
  · rintro ⟨r, laidOut, rfl⟩
    rw [scan_of_laidOut laidOut]

/-- What follows a record does not belong to it. -/
theorem Record.LaidOut.append {r : Record} {buffer : Bytes} (laidOut : r.LaidOut buffer)
    (more : Bytes) : r.LaidOut (buffer ++ more) := by
  rcases laidOut.bytes with ⟨rest, bytes⟩
  rcases laidOut.vars with ⟨tail, vars⟩
  have inside : r.offset.toNat ≤ buffer.length := by
    by_contra outside
    rw [List.drop_eq_nil_of_le (Nat.le_of_not_le outside)] at vars
    have lengths := congrArg List.length vars
    have mark : (u16.put invalidRid).length = 2 := rfl
    rw [List.length_nil, List.length_append, List.length_append, mark] at lengths
    omega
  constructor
  · exact laidOut.readable
  · exact ⟨rest ++ more, by rw [bytes]; simp⟩
  · exact laidOut.fields
  · exact laidOut.behind
  · exact ⟨tail ++ more, by rw [List.drop_append_of_le_length inside, vars]; simp⟩
  · exact laidOut.fits

/-- Whatever is appended to an accepted buffer, it is decoded alike. -/
theorem deserialize_append (c : IndexedCookie) (junk : UInt8) {buffer : Bytes}
    (accepted : (deserialize junk c.1 buffer).2 = true) (more : Bytes) :
    deserialize junk c.1 (buffer ++ more) = deserialize junk c.1 buffer := by
  rw [deserialize_eq_replay c.2] at accepted
  rcases scan_eq_iff.mp (Prod.ext rfl accepted : scan buffer = (_, true)) with ⟨r, laidOut, -⟩
  have same : scan (buffer ++ more) = scan buffer := by
    rw [scan_of_laidOut (laidOut.append more), scan_of_laidOut laidOut]
  rw [deserialize_eq_replay c.2, deserialize_eq_replay c.2, same]

/-- An empty record of a version that nobody wrote. -/
theorem deserialize_append_empty :
    deserialize 0 (fresh ⟨1, 2, 3⟩ true) ([9, 0, 7, 8, 0, 0, 0, 12, 255, 255] ++ [1, 2]) =
      deserialize 0 (fresh ⟨1, 2, 3⟩ true) [9, 0, 7, 8, 0, 0, 0, 12, 255, 255] :=
  deserialize_append ⟨fresh ⟨1, 2, 3⟩ true, indexed_fresh _ _⟩ 0 (by decide +kernel) [1, 2]

end VCookieStore

end Elevator
