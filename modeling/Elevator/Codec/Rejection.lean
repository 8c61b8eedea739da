import Elevator.Codec.Layout

/-!
# The layout of rejected records

`Deserialize` rejects a buffer exactly if it breaks off as a record: in its header, in a
known field or in a variable, or at a version that is too new or an offset in front of
the end of the fields, which are refused.  The parts of the record in front of the break
give the calls that the decoder has made by then.
-/

namespace Elevator

open Wire Transition VCookie

namespace VCookieStore

/-! ## Missing items -/

theorem missing_word_iff {ahead : Nat} (word : ahead ≠ 0) {rest : Bytes} :
    Missing ahead rest ↔ rest.length < ahead := by
  rw [Missing, if_neg word]

theorem u8_read_eq_none_iff {buffer : Bytes} {b : Nat} :
    u8.read buffer b = none ↔ buffer.drop b = [] := by
  rw [u8.read_eq_none_iff, missing_word_iff (by decide)]
  exact Nat.lt_one_iff.trans List.length_eq_zero_iff

theorem u16_read_eq_none_iff {buffer : Bytes} {b : Nat} :
    u16.read buffer b = none ↔ (buffer.drop b).length < 2 := by
  rw [u16.read_eq_none_iff, missing_word_iff (by decide)]
  rfl

theorem u32_read_eq_none_iff {buffer : Bytes} {b : Nat} :
    u32.read buffer b = none ↔ (buffer.drop b).length < 4 := by
  rw [u32.read_eq_none_iff, missing_word_iff (by decide)]
  rfl

theorem i64_read_eq_none_iff {buffer : Bytes} {b : Nat} :
    i64.read buffer b = none ↔ (buffer.drop b).length < 8 := by
  rw [i64.read_eq_none_iff, missing_word_iff (by decide)]
  rfl

theorem text_read_eq_none_iff {buffer : Bytes} {b : Nat} :
    text.read buffer b = none ↔ 0 ∉ buffer.drop b := by
  rw [text.read_eq_none_iff, Missing]
  exact iff_of_eq (if_pos rfl)

/-! ## Fields -/

/-- Known fields of which the buffer holds some and then ends in one. -/
inductive FieldsCut : List KnownField → Bytes → List Call → Stop → Prop
  | here {field : KnownField} {fields : List KnownField} {rest : Bytes} {calls : List Call}
      {stop : Stop} (cut : field.Cut rest calls stop) :
      FieldsCut (field :: fields) (field.number :: rest) calls stop
  | absent {field : KnownField} {fields : List KnownField} {rest : Bytes} {calls : List Call}
      {stop : Stop} (other : rest.head? ≠ some field.number)
      (later : FieldsCut fields rest calls stop) : FieldsCut (field :: fields) rest calls stop
  | present {field : KnownField} {fields : List KnownField} {bytes rest : Bytes}
      {calls calls' : List Call} {stop : Stop} (entry : field.Entry bytes calls)
      (later : FieldsCut fields rest calls' stop) :
      FieldsCut (field :: fields) (field.number :: bytes ++ rest) (calls ++ calls') stop

theorem FieldsCut.exists_cons {fields : List KnownField} {rest : Bytes} {calls : List Call}
    {stop : Stop} (cut : FieldsCut fields rest calls stop) :
    ∃ next after, rest = next :: after := by
  induction cut with
  | here cut => exact ⟨_, _, rfl⟩
  | absent other later ih => exact ih
  | present entry later ih => exact ⟨_, _, rfl⟩

/-- `f` fails on the field where the buffer ends in it. -/
def Cuts (buffer : Bytes) (field : KnownField)
    (f : Cursor (List Call) → Except (List Call) (Cursor (List Call))) : Prop :=
  ∀ s left, f s = .error left ↔
    s.next = field.number ∧
      ∃ calls stop, field.Cut (buffer.drop s.b) calls stop ∧ left = s.cookie ++ calls

/-- `f` reads the field and fails on it as laid out. -/
structure Follows (buffer : Bytes) (field : KnownField)
    (f : Cursor (List Call) → Except (List Call) (Cursor (List Call))) : Prop where
  reads : Reads buffer field f
  cuts : Cuts buffer field f

/-- Readers of fields one after the other fail where the buffer ends in one. -/
theorem foldlM_eq_error_iff {buffer : Bytes} {fields : List KnownField}
    {readers : List (Cursor (List Call) → Except (List Call) (Cursor (List Call)))}
    (follow : List.Forall₂ (Follows buffer) fields readers) (s : Cursor (List Call))
    (left : List Call) :
    readers.foldlM (fun s f => f s) s = .error left ↔
      ∃ calls stop, FieldsCut fields (s.next :: buffer.drop s.b) calls stop ∧
        left = s.cookie ++ calls := by
  induction follow generalizing s with
  | nil =>
      constructor
      · rintro ⟨⟩
      · rintro ⟨_, _, ⟨⟩, _⟩
  | @cons field f fields readers first _ ih =>
      rcases first with ⟨read, fails⟩
      rw [List.foldlM_cons]
      constructor
      · intro failed
        cases result : f s with
        | error left' =>
            rw [result] at failed
            cases failed
            rcases (fails s _).mp result with ⟨own, calls, stop, cut, same⟩
            exact ⟨calls, stop, own ▸ .here cut, same⟩
        | ok s₁ =>
            rw [result] at failed
            rcases (ih s₁).mp failed with ⟨calls, stop, later, rfl⟩
            rcases (read s s₁).mp result with ⟨other, rfl⟩ | ⟨bytes, calls', entry, advances⟩
            · exact ⟨calls, stop, .absent (fun same => other (Option.some.inj same)) later, rfl⟩
            · refine ⟨calls' ++ calls, stop, ?_, ?_⟩
              · rw [advances.stands]
                exact .present entry later
              · rw [advances.cookie, List.append_assoc]
      · rintro ⟨calls, stop, cut, rfl⟩
        generalize stands : s.next :: buffer.drop s.b = rest at cut
        cases cut with
        | here cut =>
            rcases List.cons.inj stands with ⟨own, behind⟩
            rw [(fails s _).mpr ⟨own, calls, stop, behind ▸ cut, rfl⟩]
            rfl
        | absent other later =>
            have kept : f s = .ok s := by
              refine (read s s).mpr (Or.inl ⟨fun own => other ?_, rfl⟩)
              rw [← stands, own]
              rfl
            rw [kept]
            exact (ih s).mpr ⟨calls, stop, stands ▸ later, rfl⟩
        | present entry later =>
            rcases later.exists_cons with ⟨next, after, rfl⟩
            rcases advances_of_stands stands _ with ⟨behind, advances⟩
            rw [(read s _).mpr (Or.inr ⟨_, _, entry, advances⟩)]
            refine (ih _).mpr ⟨_, stop, ?_, (List.append_assoc ..).symm⟩
            rw [behind]
            exact later

theorem cuts_itemField {α : Type} {item : Item α} (exact : item.Exact) (buffer : Bytes)
    (number : UInt8) (set : α → Mutator) :
    Cuts buffer (itemField number item set) (readField traceSetters buffer item number set) := by
  intro s left
  constructor
  · intro failed
    rw [readField] at failed
    split at failed
    · rename_i own
      refine ⟨own, ?_⟩
      split at failed
      · rename_i missing
        cases failed
        exact ⟨[], item.stop, Or.inl ⟨item.read_eq_none_iff.mp missing, rfl, rfl⟩,
          (List.append_nil _).symm⟩
      · rename_i val b found
        rcases exact found with ⟨fits, stands, rfl⟩
        dsimp only at failed
        split at failed
        · rename_i missing
          cases failed
          refine ⟨_, .short, Or.inr ⟨val, fits, ?_, rfl, rfl⟩, rfl⟩
          rw [stands, u8_read_eq_none_iff.mp missing, List.append_nil]
        · cases failed
    · cases failed
  · rintro ⟨own, calls, stop, cut, rfl⟩
    have present : s.next = number := own
    rw [readField, if_pos present]
    rcases cut with ⟨missing, rfl, -⟩ | ⟨val, fits, stands, rfl, -⟩
    · rw [item.read_eq_none_iff.mpr missing, List.append_nil]
    · rw [← List.append_nil (item.put val)] at stands
      rcases item.read_of_drop fits stands with ⟨found, ends⟩
      rw [found]
      dsimp only
      rw [u8_read_eq_none_iff.mpr ends]
      rfl

/-- The ids are read up to a text without its zero byte. -/
theorem readPurchaseLoop_eq_error_iff {buffer : Bytes} {count : Nat} {calls left : List Call}
    {b : Nat} :
    readPurchaseLoop traceSetters buffer count calls b = .error left ↔
      ∃ (ids : List Bytes) (tail : Bytes), ids.length < count ∧ (∀ id ∈ ids, 0 ∉ id) ∧
        buffer.drop b = ids.flatMap text.put ++ tail ∧ 0 ∉ tail ∧
        left = calls ++ purchaseCalls ids := by
  induction count generalizing calls b with
  | zero =>
      constructor
      · rintro ⟨⟩
      · rintro ⟨ids, tail, none, _⟩
        contradiction
  | succ count ih =>
      rw [readPurchaseLoop]
      constructor
      · intro failed
        split at failed
        · rename_i missing
          cases failed
          exact ⟨[], buffer.drop b, Nat.succ_pos _, List.forall_mem_nil _, rfl,
            text_read_eq_none_iff.mp missing, (List.append_nil _).symm⟩
        · rename_i id b₁ found
          rcases exact_text found with ⟨fits, stands, rfl⟩
          rcases ih.mp failed with ⟨ids, tail, few, rest, standsRest, unended, rfl⟩
          refine ⟨id :: ids, tail, Nat.succ_lt_succ few, List.forall_mem_cons.mpr ⟨fits, rest⟩,
            ?_, unended, ?_⟩
          · rw [stands, standsRest, List.flatMap_cons, List.append_assoc]
          · simp [purchaseCalls, traceSetters]
      · rintro ⟨_ | ⟨id, ids⟩, tail, few, nulFree, stands, unended, rfl⟩
        · have missing : text.read buffer b = none := by
            rw [text_read_eq_none_iff, stands]
            exact unended
          rw [missing]
          exact congrArg Except.error (List.append_nil _).symm
        · rcases List.forall_mem_cons.mp nulFree with ⟨fits, rest⟩
          rw [List.flatMap_cons, List.append_assoc] at stands
          rcases text.read_of_drop fits stands with ⟨found, standsRest⟩
          rw [found]
          refine ih.mpr ⟨ids, tail, Nat.lt_of_succ_lt_succ few, rest, standsRest, unended, ?_⟩
          simp [purchaseCalls, traceSetters]

theorem cuts_purchaseIdField (buffer : Bytes) :
    Cuts buffer purchaseIdField (readPurchaseIds traceSetters buffer) := by
  intro s left
  constructor
  · intro failed
    rw [readPurchaseIds] at failed
    split at failed
    · rename_i own
      refine ⟨own, ?_⟩
      split at failed
      · rename_i missing
        cases failed
        exact ⟨[], .short, Or.inl ⟨u8_read_eq_none_iff.mp missing, rfl, rfl⟩,
          (List.append_nil _).symm⟩
      · rename_i cnt b counted
        rcases exact_u8 counted with ⟨_, standsCount, rfl⟩
        rw [u8_put, List.singleton_append] at standsCount
        split at failed
        · rename_i calls stopped
          cases failed
          obtain ⟨ids, tail, few, nulFree, standsIds, unended, rfl⟩ :=
            readPurchaseLoop_eq_error_iff.mp stopped
          exact ⟨_, .unended, Or.inr ⟨cnt, ids, tail, nulFree, standsIds ▸ standsCount, rfl,
            Or.inl ⟨few, unended, rfl⟩⟩, rfl⟩
        · rename_i calls b₁ loop
          rcases readPurchaseLoop_eq_ok_iff.mp loop with ⟨ids, length, nulFree, standsIds, rfl, rfl⟩
          split at failed
          · rename_i missing
            cases failed
            rw [u8_read_eq_none_iff.mp missing] at standsIds
            exact ⟨_, .short, Or.inr ⟨cnt, ids, [], nulFree, standsIds ▸ standsCount, rfl,
              Or.inr ⟨length, rfl, rfl⟩⟩, rfl⟩
          · cases failed
    · cases failed
  · rintro ⟨own, calls, stop, cut, rfl⟩
    have present : s.next = 11 := own
    rw [readPurchaseIds, if_pos present]
    rcases cut with ⟨ends, rfl, -⟩ | ⟨cnt, ids, tail, nulFree, stands, rfl, broken⟩
    · rw [u8_read_eq_none_iff.mpr ends, List.append_nil]
    · rcases u8_read_of_drop stands with ⟨counted, standsIds⟩
      rw [counted]
      dsimp only
      rcases broken with ⟨few, unended, -⟩ | ⟨all, rfl, -⟩
      · rw [readPurchaseLoop_eq_error_iff.mpr ⟨ids, tail, few, nulFree, standsIds, unended, rfl⟩]
      · have ends : buffer.drop (s.b + 1 + (ids.flatMap text.put).length) = [] :=
          drop_behind standsIds
        rw [readPurchaseLoop_eq_ok_iff.mpr
          ⟨ids, all, nulFree, by rw [ends]; exact standsIds, rfl, rfl⟩]
        dsimp only
        rw [u8_read_eq_none_iff.mpr ends]

theorem readFields_eq_error_iff {buffer : Bytes} {s : Cursor (List Call)} {left : List Call} :
    readFields traceSetters buffer s = .error left ↔
      ∃ calls stop, FieldsCut knownFields (s.next :: buffer.drop s.b) calls stop ∧
        left = s.cookie ++ calls := by
  have item {α : Type} {item : Item α} (exact : item.Exact) (number : UInt8)
      (set : α → Mutator) : Follows buffer (itemField number item set)
        (readField traceSetters buffer item number set) :=
    ⟨reads_itemField exact buffer number set, cuts_itemField exact buffer number set⟩
  have follow := List.Forall₂.cons (item exact_i64 1 .setFirstHitTimeGMT) <|
    .cons (item exact_i64 2 .setLastHitTimeGMT) <|
    .cons (item exact_i64 3 .setLastHitTimeVisitorLocal) <|
    .cons (item exact_u32 4 .setLastVisitNum) <|
    .cons (item exact_i64 5 .setLastPurchaseTimeGMT) <|
    .cons (item exact_text 6 .setFirstHitReferrer) <|
    .cons (item exact_text 7 .setFirstHitUrl) <|
    .cons (item exact_text 8 .setFirstHitPagename) <|
    .cons (item exact_u32 9 .setLastPurchaseNum) <|
    .cons (item exact_text 10 .setMerchandising) <|
    .cons ⟨reads_purchaseIdField buffer, cuts_purchaseIdField buffer⟩ .nil
  have sequence := foldlM_eq_error_iff follow s left
  simp only [List.foldlM_cons, List.foldlM_nil, bind_pure] at sequence
  exact sequence

/-! ## Variables -/

/-- The buffer ends in an element. -/
inductive ElementCut : Bytes → Stop → Prop
  | value {rest : Bytes} (unended : 0 ∉ rest) : ElementCut rest .unended
  | timestamp {value rest : Bytes} (fits : 0 ∉ value) (short : rest.length < 8) :
      ElementCut (text.put value ++ rest) .short
  | revision {value : Bytes} {timestamp : TimeT} (fits : 0 ∉ value) :
      ElementCut (text.put value ++ i64.put timestamp) .short

/-- The buffer ends in a relation or in front of one, behind some of the elements. -/
inductive VarCut : Bytes → List Call → Stop → Prop
  | relationId {rest : Bytes} (short : rest.length < 2) : VarCut rest [] .short
  | count {rid : RelationId} {rest : Bytes} (valid : rid ≠ invalidRid) (short : rest.length < 4) :
      VarCut (u16.put rid ++ rest) [] .short
  | element {rid : RelationId} {cnt : UInt32} {var : List RelVar} {rest : Bytes} {stop : Stop}
      (valid : rid ≠ invalidRid) (few : var.length < cnt.toNat)
      (values : ∀ element ∈ var, 0 ∉ element.value) (cut : ElementCut rest stop) :
      VarCut (u16.put rid ++ (u32.put cnt ++ (var.flatMap serializeElement ++ rest)))
        (elementCalls rid cnt false var) stop

theorem readElement_eq_none_iff {buffer : Bytes} {b : Nat} :
    readElement buffer b = none ↔ ∃ stop, ElementCut (buffer.drop b) stop := by
  constructor
  · intro failed
    simp only [readElement, Option.bind_eq_bind, Option.pure_def] at failed
    cases first : text.read buffer b with
    | none => exact ⟨_, .value (text_read_eq_none_iff.mp first)⟩
    | some result =>
        rcases result with ⟨value, b₁⟩
        rcases exact_text first with ⟨fits, stands, rfl⟩
        rw [stands]
        cases second : i64.read buffer (b + (text.put value).length) with
        | none => exact ⟨_, .timestamp fits (i64_read_eq_none_iff.mp second)⟩
        | some result =>
            rcases result with ⟨timestamp, b₂⟩
            rcases exact_i64 second with ⟨_, standsTime, rfl⟩
            rw [first, Option.bind_some, second, Option.bind_some] at failed
            cases third : u8.read buffer
                (b + (text.put value).length + (i64.put timestamp).length) with
            | none =>
                rw [standsTime, u8_read_eq_none_iff.mp third, List.append_nil]
                exact ⟨_, .revision fits⟩
            | some result => simp [third] at failed
  · rintro ⟨stop, cut⟩
    generalize stands : buffer.drop b = rest at cut
    simp only [readElement, Option.bind_eq_bind, Option.pure_def]
    cases cut with
    | value unended => rw [text_read_eq_none_iff.mpr (stands ▸ unended), Option.bind_none]
    | timestamp fits short =>
        rcases text.read_of_drop fits stands with ⟨found, standsTime⟩
        rw [found, Option.bind_some, i64_read_eq_none_iff.mpr (standsTime ▸ short),
          Option.bind_none]
    | revision fits =>
        rcases text.read_of_drop fits stands with ⟨found, standsTime⟩
        rw [← List.append_nil (i64.put _)] at standsTime
        rcases i64.read_of_drop trivial standsTime with ⟨timed, ends⟩
        rw [found, Option.bind_some, timed, Option.bind_some, u8_read_eq_none_iff.mpr ends,
          Option.bind_none]

/-- The elements in front of the one that is cut are stored. -/
theorem readElements_eq_error_iff {buffer : Bytes} {rid : RelationId} {cnt : UInt32}
    {remaining : Nat} {calls left : List Call} {stored : Bool} {b : Nat} :
    readElements traceSetters buffer rid cnt remaining calls (tracedVid rid stored) b =
        .error left ↔
      ∃ (var : List RelVar) (rest : Bytes) (stop : Stop), var.length < remaining ∧
        (∀ element ∈ var, 0 ∉ element.value) ∧
        buffer.drop b = var.flatMap serializeElement ++ rest ∧ ElementCut rest stop ∧
        left = calls ++ elementCalls rid cnt stored var := by
  induction remaining generalizing calls stored b with
  | zero =>
      constructor
      · rintro ⟨⟩
      · rintro ⟨var, rest, stop, none, _⟩
        contradiction
  | succ remaining ih =>
      constructor
      · intro failed
        cases found : readElement buffer b with
        | none =>
            rw [readElements, found] at failed
            cases failed
            rcases readElement_eq_none_iff.mp found with ⟨stop, cut⟩
            refine ⟨[], _, stop, Nat.succ_pos _, List.forall_mem_nil _, rfl, cut, ?_⟩
            rw [elementCalls_nil, List.append_nil]
        | some result =>
            rcases result with ⟨rv, b₁⟩
            rcases stands_of_readElement found with ⟨fits, stands, rfl⟩
            obtain ⟨call, stored', split, step⟩ :=
              readElements_step found rid cnt remaining calls stored
            rw [step] at failed
            rcases ih.mp failed with ⟨var, rest, stop, few, values, standsRest, cut, rfl⟩
            refine ⟨rv :: var, rest, stop, Nat.succ_lt_succ few,
              List.forall_mem_cons.mpr ⟨fits, values⟩, ?_, cut, ?_⟩
            · rw [stands, standsRest, List.flatMap_cons, List.append_assoc]
            · rw [split, List.append_assoc, List.singleton_append]
      · rintro ⟨_ | ⟨rv, var⟩, rest, stop, few, values, stands, cut, rfl⟩
        · have missing : readElement buffer b = none :=
            readElement_eq_none_iff.mpr ⟨stop, stands ▸ cut⟩
          rw [readElements, missing, elementCalls_nil, List.append_nil]
        · rcases List.forall_mem_cons.mp values with ⟨fits, valuesRest⟩
          rw [List.flatMap_cons, List.append_assoc] at stands
          rcases readElement_encoded fits stands with ⟨b₁, found, standsRest⟩
          obtain ⟨call, stored', split, step⟩ :=
            readElements_step found rid cnt remaining calls stored
          rw [step]
          refine ih.mpr ⟨var, rest, stop, Nat.lt_of_succ_lt_succ few, valuesRest, standsRest,
            cut, ?_⟩
          rw [split, List.append_assoc, List.singleton_append]

/-- The relations in front of the one that is cut are set. -/
theorem readVars_of_cut {buffer : Bytes} {sets : List (RelationId × List RelVar)}
    (fits : ∀ set ∈ sets, VarFits set) (calls : List Call) {calls' : List Call} {b : Nat}
    {tail : Bytes} {stop : Stop} (cut : VarCut tail calls' stop)
    (stands : buffer.drop b = sets.flatMap varBytes ++ tail) :
    (match u16.read buffer b with
      | none => Except.error calls
      | some (rid, b) => readVars traceSetters buffer calls rid b) =
        .error (calls ++ sets.flatMap varCalls ++ calls') := by
  induction sets generalizing calls b with
  | nil =>
      have stands : buffer.drop b = tail := stands
      rw [List.flatMap_nil, List.append_nil]
      cases cut with
      | relationId short =>
          rw [u16_read_eq_none_iff.mpr (stands ▸ short), List.append_nil]
      | count valid short =>
          rcases u16.read_of_drop trivial stands with ⟨found, standsCount⟩
          rw [found]
          dsimp only
          rw [readVars_eq, if_neg valid, u32_read_eq_none_iff.mpr (standsCount ▸ short),
            List.append_nil]
      | @element rid cnt var rest stop valid few values cut =>
          rcases u16.read_of_drop trivial stands with ⟨found, standsCount⟩
          rcases u32.read_of_drop trivial standsCount with ⟨counted, standsVar⟩
          have stopped := (@readElements_eq_error_iff _ rid cnt _ calls _ false _).mpr
            ⟨var, rest, stop, few, values, standsVar, cut, rfl⟩
          rw [show tracedVid rid false = varNotSet from rfl] at stopped
          rw [found]
          dsimp only
          rw [readVars_eq, if_neg valid, counted]
          dsimp only
          rw [stopped]
  | cons set sets ih =>
      rcases List.forall_mem_cons.mp fits with ⟨fitsHead, fitsRest⟩
      rw [List.flatMap_cons, List.append_assoc] at stands
      rcases readVars_set fitsHead calls stands with ⟨b₁, b₂, found, standsRest, readSet⟩
      rw [found, List.flatMap_cons, ← List.append_assoc calls]
      exact readSet.trans (ih fitsRest (calls ++ varCalls set) standsRest)

/-- Variables that are not read are cut. -/
theorem cut_of_readVars {buffer : Bytes} {calls left : List Call} {rid : RelationId}
    {b b₀ : Nat} (found : u16.read buffer b₀ = some (rid, b))
    (failed : readVars traceSetters buffer calls rid b = .error left) :
    ∃ (sets : List (RelationId × List RelVar)) (tail : Bytes) (calls' : List Call) (stop : Stop),
      (∀ set ∈ sets, VarFits set) ∧ buffer.drop b₀ = sets.flatMap varBytes ++ tail ∧
        VarCut tail calls' stop ∧ left = calls ++ sets.flatMap varCalls ++ calls' := by
  generalize remaining : buffer.length - b = measure
  induction measure using Nat.strong_induction_on generalizing calls rid b b₀ with
  | _ measure ih =>
      rcases exact_u16 found with ⟨_, stands, rfl⟩
      rw [readVars_eq] at failed
      split at failed
      · cases failed
      · rename_i valid
        split at failed
        · rename_i missing
          cases failed
          exact ⟨[], _, [], .short, List.forall_mem_nil _, stands,
            .count valid (u32_read_eq_none_iff.mp missing), by simp⟩
        · rename_i cnt b₁ counted
          have bounds₁ := u32.read_bounds counted
          rcases exact_u32 counted with ⟨_, standsCnt, rfl⟩
          split at failed
          · rename_i stopped
            cases failed
            obtain ⟨var, rest, stop, few, values, standsVar, cut, rfl⟩ :=
              (@readElements_eq_error_iff _ _ _ _ _ _ false _).mp stopped
            rw [standsVar] at standsCnt
            exact ⟨[], _, _, stop, List.forall_mem_nil _, standsCnt ▸ stands,
              .element valid few values cut, by simp⟩
          · rename_i calls₁ b₂ loop
            have bounds₂ := readElements_le loop
            obtain ⟨var, length, nulFree, standsVar, rfl⟩ :=
              @stands_of_readElements _ _ _ _ _ _ false _ _ loop
            have count : UInt32.ofNat var.length = cnt := by rw [length, UInt32.ofNat_toNat]
            have fits : VarFits (rid, var) := ⟨valid, length ▸ cnt.toNat_lt, nulFree⟩
            have front : buffer.drop b₀ = varBytes (rid, var) ++ buffer.drop b₂ := by
              rw [stands, standsCnt, standsVar, varBytes, count]
              simp only [List.append_assoc]
            have made : elementCalls rid cnt false var = varCalls (rid, var) := by
              rw [varCalls, count]
            rw [made] at failed
            split at failed
            · rename_i missing
              cases failed
              refine ⟨[(rid, var)], _, [], .short, List.forall_mem_singleton.mpr fits, ?_,
                .relationId (u16_read_eq_none_iff.mp missing), by simp⟩
              rw [front, List.flatMap_singleton]
            · rename_i rid' b₃ again
              have bounds₃ := u16.read_bounds again
              obtain ⟨sets, tail, calls', stop, rest, standsRest, cut, rfl⟩ :=
                ih (buffer.length - b₃) (by omega) again failed rfl
              refine ⟨(rid, var) :: sets, tail, calls', stop,
                List.forall_mem_cons.mpr ⟨fits, rest⟩, ?_, cut, ?_⟩
              · rw [front, standsRest, List.flatMap_cons, List.append_assoc]
              · simp only [List.flatMap_cons, List.append_assoc]

/-! ## Records -/

/-- The buffer breaks off as a record, behind the parts that make these calls. -/
inductive BreaksOff : Bytes → List Call → Stop → Prop
  | header {buffer : Bytes} (short : buffer.length < 3) : BreaksOff buffer [] .short
  | version {version compatible flag : UInt8} {rest : Bytes}
      (newer : vcSerialVersion < compatible) :
      BreaksOff (version :: compatible :: flag :: rest) [] .refused
  | opening {version compatible flag : UInt8} {rest : Bytes}
      (readable : compatible ≤ vcSerialVersion) (short : rest.length < 5) :
      BreaksOff (version :: compatible :: flag :: rest) [] .short
  | fields {version compatible flag : UInt8} {offset : UInt32} {rest : Bytes} {calls : List Call}
      {stop : Stop} (readable : compatible ≤ vcSerialVersion)
      (cut : FieldsCut knownFields rest calls stop) :
      BreaksOff (version :: compatible :: flag :: (u32.put offset ++ rest)) calls stop
  | offset {version compatible flag next : UInt8} {offset : UInt32} {bytes rest : Bytes}
      {calls : List Call} (readable : compatible ≤ vcSerialVersion)
      (fields : Fields knownFields bytes calls next) (inFront : offset.toNat < 8 + bytes.length) :
      BreaksOff (version :: compatible :: flag :: (u32.put offset ++ (bytes ++ next :: rest)))
        calls .refused
  | vars {version compatible flag next : UInt8} {offset : UInt32} {buffer bytes rest tail : Bytes}
      {calls calls' : List Call} {sets : List (RelationId × List RelVar)} {stop : Stop}
      (readable : compatible ≤ vcSerialVersion) (fields : Fields knownFields bytes calls next)
      (opens : buffer = version :: compatible :: flag ::
        (u32.put offset ++ (bytes ++ next :: rest)))
      (behind : 8 + bytes.length ≤ offset.toNat) (fits : ∀ set ∈ sets, VarFits set)
      (stands : buffer.drop offset.toNat = sets.flatMap varBytes ++ tail)
      (cut : VarCut tail calls' stop) :
      BreaksOff buffer (calls ++ sets.flatMap varCalls ++ calls') stop

/-- Behind the header the offset is missing, or the byte ahead. -/
theorem missing_of_opening (version compatible flag : UInt8) {rest : Bytes}
    (short : rest.length < 5) :
    u32.read (version :: compatible :: flag :: rest) 3 = none ∨
      ∃ offset, u32.read (version :: compatible :: flag :: rest) 3 = some (offset, 7) ∧
        u8.read (version :: compatible :: flag :: rest) 7 = none := by
  cases readOffset : u32.read (version :: compatible :: flag :: rest) 3 with
  | none => exact Or.inl rfl
  | some result =>
      rcases result with ⟨offset, b⟩
      rcases exact_u32 readOffset with ⟨_, _, rfl⟩
      refine Or.inr ⟨offset, by rw [length_u32_put], u8_read_of_ge ?_⟩
      simp only [List.length_cons]
      omega

/-- A buffer that breaks off is rejected behind the calls of its parts. -/
theorem scan_of_breaksOff {buffer : Bytes} {calls : List Call} {stop : Stop}
    (breaks : BreaksOff buffer calls stop) : scan buffer = (calls, false) := by
  cases breaks with
  | header short =>
      have missing (b : Nat) : u32.read buffer b = none := u32_read_of_lt (by omega)
      simp [scan, decode, missing]
  | @version version compatible flag rest newer =>
      rcases readHeader version compatible flag rest 0 with ⟨first, second, third⟩
      simp only [scan, decode, first, second, third, if_pos newer]
  | @opening version compatible flag rest readable short =>
      rcases readHeader version compatible flag rest 0 with ⟨first, second, third⟩
      simp only [scan, decode, first, second, third, if_neg (UInt8.not_lt.mpr readable)]
      rcases missing_of_opening version compatible flag short with
        missing | ⟨offset, readOffset, missing⟩
      · simp only [missing]
      · simp only [readOffset, missing]
  | @fields version compatible flag offset rest calls stop readable cut =>
      obtain ⟨first, second, third⟩ := readHeader version compatible flag (u32.put offset ++ rest) 0
      rcases cut.exists_cons with ⟨next, after, rfl⟩
      obtain ⟨readOffset, readNext, standsAfter⟩ :=
        @reads_of_opens _ version compatible flag next offset after rfl
      have failed := (@readFields_eq_error_iff _ ⟨[], 8, next⟩ calls).mpr
        ⟨calls, stop, standsAfter ▸ cut, rfl⟩
      simp only [scan, decode, first, second, third, if_neg (UInt8.not_lt.mpr readable),
        readOffset, readNext, failed]
  | offset readable fields inFront =>
      rw [scan, decode_of_opens readable rfl fields, if_pos inFront]
  | vars readable fields opens behind fits stands cut =>
      have failed := decode_of_opens readable opens fields
      rw [if_neg (Nat.not_lt.mpr behind)] at failed
      rw [scan, failed.trans (readVars_of_cut fits _ cut stands)]

/-- A buffer with a header and fields that is rejected is refused or cut behind them. -/
theorem breaksOff_of_opens {buffer : Bytes} {version compatible flag next : UInt8}
    {offset : UInt32} {bytes rest : Bytes} {calls left : List Call}
    (readable : compatible ≤ vcSerialVersion)
    (opens : buffer = version :: compatible :: flag ::
      (u32.put offset ++ (bytes ++ next :: rest)))
    (fields : Fields knownFields bytes calls next)
    (failed : decode traceSetters 0 [] buffer = .error left) :
    ∃ stop, BreaksOff buffer left stop := by
  rw [decode_of_opens readable opens fields] at failed
  split at failed
  · rename_i inFront
    cases failed
    rw [opens]
    exact ⟨_, .offset readable fields inFront⟩
  · rename_i notInFront
    have behind := Nat.not_lt.mp notInFront
    split at failed
    · rename_i missing
      cases failed
      have cut : VarCut (buffer.drop offset.toNat) [] .short :=
        .relationId (u16_read_eq_none_iff.mp missing)
      have breaks := BreaksOff.vars readable fields opens behind (List.forall_mem_nil _)
        (List.nil_append _).symm cut
      rw [List.flatMap_nil, List.append_nil, List.append_nil] at breaks
      exact ⟨_, breaks⟩
    · rename_i rid b found
      rcases cut_of_readVars found failed with ⟨sets, tail, calls', stop, fits, stands, cut, rfl⟩
      exact ⟨stop, .vars readable fields opens behind fits stands cut⟩

/-- A buffer that is rejected breaks off. -/
theorem breaksOff_of_scan {buffer : Bytes} {left : List Call}
    (rejected : scan buffer = (left, false)) : ∃ stop, BreaksOff buffer left stop := by
  rcases Nat.lt_or_ge buffer.length 3 with short | long
  · have breaks : BreaksOff buffer [] .short := .header short
    cases (scan_of_breaksOff breaks).symm.trans rejected
    exact ⟨_, breaks⟩
  · have failed : decode traceSetters 0 [] buffer = .error left := by
      rw [scan] at rejected
      split at rejected
      · rename_i stopped
        cases rejected
        exact stopped
      · cases rejected
    rcases exists_header long with ⟨version, compatible, flag, content, rfl⟩
    rcases readHeader version compatible flag content 0 with ⟨first, second, third⟩
    have stepped := failed
    simp only [decode, first, second, third] at stepped
    split at stepped
    · rename_i newer
      cases stepped
      exact ⟨_, .version newer⟩
    · rename_i notNewer
      have readable := UInt8.not_lt.mp notNewer
      split at stepped
      · rename_i missing
        cases stepped
        exact ⟨_, .opening readable (Nat.lt_succ_of_lt (u32_read_eq_none_iff.mp missing))⟩
      · rename_i offset b readOffset
        split at stepped
        · rename_i missing
          cases stepped
          rcases exact_u32 readOffset with ⟨_, stands, rfl⟩
          have whole : content = u32.put offset ++ _ := stands
          refine ⟨_, .opening readable ?_⟩
          rw [whole, u8_read_eq_none_iff.mp missing, List.append_nil, length_u32_put]
          exact Nat.lt_succ_self 4
        · rename_i next b readNext
          rcases opens_of_reads readOffset readNext with ⟨rfl, whole⟩
          split at stepped
          · rename_i stopped
            cases stepped
            rcases readFields_eq_error_iff.mp stopped with ⟨calls, stop, cut, rfl⟩
            rw [whole]
            exact ⟨stop, .fields readable cut⟩
          · rename_i s fields
            rcases readFields_eq_ok_iff.mp fields with ⟨bytes, calls, sequence, advances⟩
            have opens := congrArg (fun rest => version :: compatible :: flag :: rest)
              (whole.trans (congrArg (u32.put offset ++ ·) advances.stands))
            exact breaksOff_of_opens readable opens sequence failed

/-- `Deserialize` rejects exactly the buffers that break off. -/
theorem scan_eq_false_iff {buffer : Bytes} {calls : List Call} :
    scan buffer = (calls, false) ↔ ∃ stop, BreaksOff buffer calls stop := by
  constructor
  · exact breaksOff_of_scan
  · rintro ⟨stop, breaks⟩
    exact scan_of_breaksOff breaks

end VCookieStore

end Elevator
