import Elevator.Codec.Rejection
import Elevator.Codec.Watch

/-!
# Bounds of the decoder

`ReadItem` forms the end of a word before it checks that the word is there, so what
it forms is in the buffer or at its end exactly if the word is.  The header is read
without a check, and the jump to an offset behind the end is followed by the read of
a word.  A buffer is decoded safely exactly if no word of it is missing.
-/

namespace Elevator

open Wire

namespace VCookieStore

/-! ## Positions -/

/-- A position within the buffer or at its end, a branch on a variable that is
set. -/
def Access.Safe (size : Nat) : Access → Prop
  | .index i => i ≤ size
  | .branch set => set = true

namespace Watched

variable {α β : Type}

def Safe (size : Nat) (x : Watched α) : Prop :=
  ∀ access ∈ x.accesses, access.Safe size

theorem safe_bind_iff {size : Nat} {x : Watched α} {k : α → Watched β} :
    Safe size (x >>= k) ↔ Safe size x ∧ ∀ a, x.result = .ok a → Safe size (k a) := by
  have unfolded : x >>= k = bind x k := rfl
  rw [unfolded, bind]
  cases x.result with
  | error stop => simp [Safe]
  | ok a =>
      simp only [Except.ok.injEq, forall_eq']
      exact List.forall_mem_append

/-- Behind a safe part only the rest matters. -/
theorem safe_bind_of_safe {size : Nat} {x : Watched α} {k : α → Watched β} (safe : Safe size x) :
    Safe size (x >>= k) ↔ ∀ a, x.result = .ok a → Safe size (k a) := by
  rw [safe_bind_iff]
  exact and_iff_right safe

/-- What is touched is safe unless a word is missing, and the result stops within the
buffer. -/
structure Inside (size : Nat) (stop : α → Nat) (x : Watched α) : Prop where
  safe_iff : Safe size x ↔ x.result ≠ .error .short
  stops : ∀ a, x.result = .ok a → stop a ≤ size

/-- What fails is not followed by anything. -/
theorem Inside.failed {size : Nat} {stop : α → Nat} (stop' : β → Nat) {x : Watched α}
    (first : Inside size stop x) {left : Stop} (result : x.result = .error left)
    (k : α → Watched β) : Inside size stop' (x >>= k) := by
  have failed : (x >>= k).result = .error left := by
    rw [result_bind, result]
    rfl
  constructor
  · rw [safe_bind_iff, first.safe_iff, result, failed]
    simp
  · intro b done
    cases failed.symm.trans done

theorem Inside.bind {size : Nat} {stop : α → Nat} {stop' : β → Nat} {x : Watched α}
    {k : α → Watched β} (first : Inside size stop x)
    (rest : ∀ a, stop a ≤ size → Inside size stop' (k a)) : Inside size stop' (x >>= k) := by
  cases result : x.result with
  | error left => exact first.failed stop' result k
  | ok a =>
      have passed : (x >>= k).result = (k a).result := by
        rw [result_bind, result]
        rfl
      have behind := rest a (first.stops a result)
      have safe : Safe size x := first.safe_iff.mpr fun failed => by
        cases result.symm.trans failed
      constructor
      · rw [safe_bind_of_safe safe, result, passed, ← behind.safe_iff]
        simp only [Except.ok.injEq, forall_eq']
      · intro b done
        exact behind.stops b (passed.symm.trans done)

theorem inside_pure {size : Nat} {stop : α → Nat} {a : α} (within : stop a ≤ size) :
    Inside size stop (pure a : Watched α) where
  safe_iff := iff_of_true (List.forall_mem_nil _) (by rintro ⟨⟩)
  stops _ result := Except.ok.inj result ▸ within

theorem inside_refused (size : Nat) (stop : α → Nat) :
    Inside size stop (fail .refused : Watched α) where
  safe_iff := iff_of_true (List.forall_mem_nil _) (by rintro ⟨⟩)
  stops := by rintro _ ⟨⟩

theorem inside_branchOn (size : Nat) (a : α) : Inside size (fun _ => 0) (branchOn (some a)) where
  safe_iff := iff_of_true (List.forall_mem_singleton.mpr rfl) (by rintro ⟨⟩)
  stops _ _ := Nat.zero_le _

variable {buffer : Bytes} {b : Nat}

/-- A word that is read ends within the buffer. -/
theorem ahead_le {item : Item α} {result : α × Nat} (within : b ≤ buffer.length)
    (read : item.read buffer b = some result) : b + item.ahead ≤ buffer.length := by
  by_contra outside
  have missing : item.read buffer b = none := by
    rw [item.read_eq_none_iff, Missing, if_neg (by omega), List.length_drop]
    omega
  cases missing.symm.trans read

theorem safe_readItem_iff (item : Item α) (within : b ≤ buffer.length) :
    Safe buffer.length (readItem item buffer b) ↔ b + item.ahead ≤ buffer.length := by
  rw [readItem]
  cases read : item.read buffer b with
  | none => simp [Safe, Access.Safe, within]
  | some result =>
      have bounds := item.read_bounds read
      simp [Safe, Access.Safe, within, bounds.2]

/-- An item is missing as a word exactly if its end is outside the buffer. -/
theorem stop_ne_short_iff {item : Item α} (within : b ≤ buffer.length)
    (missing : item.read buffer b = none) :
    item.stop ≠ .short ↔ b + item.ahead ≤ buffer.length := by
  rw [item.read_eq_none_iff, Missing, List.length_drop] at missing
  rw [Item.stop]
  by_cases unended : item.ahead = 0
  · simp [unended, within]
  · rw [if_neg unended] at missing
    simp only [if_neg unended, ne_eq, not_true_eq_false, false_iff]
    omega

theorem inside_readOrFail (item : Item α) (within : b ≤ buffer.length) :
    Inside buffer.length Prod.snd (readOrFail item buffer b) where
  safe_iff := by
    rw [result_readOrFail, readOrFail, safe_bind_iff, safe_readItem_iff item within]
    refine (and_iff_left ?_).trans ?_
    · rintro ⟨_ | val, b'⟩ _ <;> exact List.forall_mem_nil _
    · cases read : item.read buffer b with
      | none =>
          rw [← stop_ne_short_iff within read]
          exact not_congr (by rw [Except.error.injEq])
      | some result => exact iff_of_true (ahead_le within read) (by rintro ⟨⟩)
  stops result read := by
    have read : (readOrFail item buffer b).value = some result := congrArg Except.toOption read
    rw [value_readOrFail] at read
    exact (item.read_bounds read).2

theorem inside_watchField (item : Item α) (field : UInt8) {s : Place}
    (within : s.b ≤ buffer.length) :
    Inside buffer.length Cursor.b (watchField buffer item field s) := by
  apply (inside_branchOn _ s.next).bind
  intro _ _
  split
  · apply (inside_readOrFail item within).bind
    rintro ⟨_, b⟩ within
    apply (inside_readOrFail u8 within).bind
    rintro ⟨next, b⟩ within
    exact inside_pure within
  · exact inside_pure within

theorem inside_watchPurchaseLoop (cnt : UInt8) (count : Nat) (within : b ≤ buffer.length) :
    Inside buffer.length id (watchPurchaseLoop buffer cnt count b) := by
  induction count generalizing b with
  | zero =>
      apply (inside_branchOn _ cnt).bind
      intro _ _
      exact inside_pure within
  | succ count ih =>
      apply (inside_branchOn _ cnt).bind
      intro _ _
      apply (inside_readOrFail text within).bind
      rintro ⟨_, b⟩ within
      exact ih within

theorem inside_watchPurchaseIds {s : Place} (within : s.b ≤ buffer.length) :
    Inside buffer.length Cursor.b (watchPurchaseIds buffer s) := by
  apply (inside_branchOn _ s.next).bind
  intro _ _
  split
  · apply (inside_readOrFail u8 within).bind
    rintro ⟨cnt, b⟩ within
    apply (inside_watchPurchaseLoop cnt cnt.toNat within).bind
    intro b within
    apply (inside_readOrFail u8 within).bind
    rintro ⟨next, b⟩ within
    exact inside_pure within
  · exact inside_pure within

theorem inside_watchFields {s : Place} (within : s.b ≤ buffer.length) :
    Inside buffer.length Cursor.b (watchFields buffer s) := by
  apply (inside_watchField i64 1 within).bind
  intro s within
  apply (inside_watchField i64 2 within).bind
  intro s within
  apply (inside_watchField i64 3 within).bind
  intro s within
  apply (inside_watchField u32 4 within).bind
  intro s within
  apply (inside_watchField i64 5 within).bind
  intro s within
  apply (inside_watchField text 6 within).bind
  intro s within
  apply (inside_watchField text 7 within).bind
  intro s within
  apply (inside_watchField text 8 within).bind
  intro s within
  apply (inside_watchField u32 9 within).bind
  intro s within
  apply (inside_watchField text 10 within).bind
  intro s within
  exact inside_watchPurchaseIds within

theorem inside_watchElement (within : b ≤ buffer.length) :
    Inside buffer.length id (watchElement buffer b) := by
  apply (inside_readOrFail text within).bind
  rintro ⟨_, b⟩ within
  apply (inside_readOrFail i64 within).bind
  rintro ⟨_, b⟩ within
  apply (inside_readOrFail u8 within).bind
  rintro ⟨_, b⟩ within
  exact inside_pure within

theorem inside_watchElements (cnt : UInt32) (remaining : Nat) (within : b ≤ buffer.length) :
    Inside buffer.length id (watchElements buffer cnt remaining b) := by
  induction remaining generalizing b with
  | zero =>
      apply (inside_branchOn _ cnt).bind
      intro _ _
      exact inside_pure within
  | succ remaining ih =>
      apply (inside_branchOn _ cnt).bind
      intro _ _
      apply (inside_watchElement within).bind
      intro b within
      exact ih within

theorem inside_watchVar (within : b ≤ buffer.length) :
    Inside buffer.length Prod.snd (watchVar buffer b) := by
  apply (inside_readOrFail u32 within).bind
  rintro ⟨cnt, b⟩ within
  apply (inside_watchElements cnt cnt.toNat within).bind
  intro b within
  exact inside_readOrFail u16 within

/-- The loop over the variables is safe unless it stops at a missing word. -/
theorem inside_watchVars (rid : RelationId) (within : b ≤ buffer.length) :
    Inside buffer.length (fun _ => 0) (watchVars buffer rid b) := by
  fun_induction watchVars buffer rid b with
  | case1 b => exact inside_branchOn _ invalidRid
  | case2 rid b valid stop turn =>
      apply (inside_branchOn _ rid).bind
      intro _ _
      exact (inside_watchVar within).failed _ turn _
  | case3 rid b valid next b' turn ih =>
      apply (inside_branchOn _ rid).bind
      intro _ _
      apply (inside_watchVar within).bind
      intro _ _
      exact ih (watchVar_bounds turn).2

/-- The jump is safe unless the first word behind it is missing. -/
theorem inside_jump (offset : UInt32) : Inside buffer.length (fun _ => 0) (do
    index offset.toNat
    let (rid, b) ← readOrFail u16 buffer offset.toNat
    watchVars buffer rid b) := by
  by_cases within : offset.toNat ≤ buffer.length
  · have formed : Inside buffer.length (fun _ => 0) (index offset.toNat) :=
      ⟨iff_of_true (List.forall_mem_singleton.mpr within) (by rintro ⟨⟩), fun _ _ => Nat.zero_le _⟩
    apply formed.bind
    intro _ _
    apply (inside_readOrFail u16 within).bind
    rintro ⟨rid, b⟩ within
    exact inside_watchVars rid within
  · have missing : u16.read buffer offset.toNat = none := by
      rw [u16_read_eq_none_iff, List.length_drop]
      omega
    have failed : (do
        index offset.toNat
        let (rid, b) ← readOrFail u16 buffer offset.toNat
        watchVars buffer rid b).result = .error .short := by
      simp only [result_bind, result_readOrFail, missing]
      rfl
    constructor
    · rw [failed]
      apply iff_of_false
      · exact fun safe => within ((safe_bind_iff.mp safe).1 _ (List.mem_singleton_self _))
      · exact fun other => other rfl
    · intro _ done
      cases failed.symm.trans done

theorem inside_watchBody (within : b ≤ buffer.length) :
    Inside buffer.length (fun _ => 0) (watchBody buffer b) := by
  apply (inside_readOrFail u32 within).bind
  rintro ⟨offset, b⟩ within
  apply (inside_readOrFail u8 within).bind
  rintro ⟨next, b⟩ within
  apply (@inside_watchFields buffer ⟨(), b, next⟩ within).bind
  intro s within
  apply (inside_branchOn _ offset).bind
  intro _ _
  split
  · exact inside_refused _ _
  · exact inside_jump offset

theorem ok_bind {ε : Type} (a : α) (k : α → Except ε β) : (Except.ok a >>= k) = k a :=
  rfl

theorem result_readItem_u8 (inside : b < buffer.length) :
    (readItem u8 buffer b).result = .ok (some buffer[b], b + 1) := by
  rw [readItem, u8_read_of_lt inside]

/-- The header is safe if it is there. -/
theorem safe_watchHeader_iff (buffer : Bytes) :
    Safe buffer.length (watchHeader buffer) ↔ 3 ≤ buffer.length := by
  have formed : Safe buffer.length (index 0) := List.forall_mem_singleton.mpr (Nat.zero_le _)
  have byte {b : Nat} (within : b ≤ buffer.length) :
      Safe buffer.length (readItem u8 buffer b) ↔ b < buffer.length :=
    safe_readItem_iff u8 within
  constructor
  · intro safe
    have reads := safe_bind_iff.mp ((safe_bind_of_safe formed).mp safe () rfl)
    have first := (byte (Nat.zero_le _)).mp reads.1
    have reads := safe_bind_iff.mp (reads.2 _ (result_readItem_u8 first))
    have second := (byte first).mp reads.1
    have reads := safe_bind_iff.mp (reads.2 _ (result_readItem_u8 second))
    exact (byte second).mp reads.1
  · intro long
    rw [watchHeader, safe_bind_of_safe formed]
    intro _ _
    rw [safe_bind_of_safe ((byte (Nat.zero_le _)).mpr (by omega))]
    intro result read
    cases (result_readItem_u8 (by omega)).symm.trans read
    rw [safe_bind_of_safe ((byte (by omega)).mpr (by omega))]
    intro result read
    cases (result_readItem_u8 (by omega)).symm.trans read
    rw [safe_bind_of_safe ((byte (by omega)).mpr (by omega))]
    exact fun _ _ => List.forall_mem_nil _

theorem result_watchHeader (version compatible flag : UInt8) (rest : Bytes) :
    (watchHeader (version :: compatible :: flag :: rest)).result = .ok (some compatible, 3) := by
  have byte {b : Nat} (within : b < 3) : b < (version :: compatible :: flag :: rest).length := by
    simp only [List.length_cons]
    omega
  have first := result_readItem_u8 (byte (show 0 < 3 by decide))
  have second := result_readItem_u8 (byte (show 1 < 3 by decide))
  have third := result_readItem_u8 (byte (show 2 < 3 by decide))
  rw [watchHeader, result_bind, index, ok_bind, result_bind, first, ok_bind, result_bind, second,
    ok_bind, result_bind, third]
  rfl

/-- A decoder with a header in front of it is safe unless it stops at a missing word. -/
theorem safe_watchDecode_iff (junk : UInt8) (buffer : Bytes) :
    Safe buffer.length (watchDecode junk buffer) ↔
      3 ≤ buffer.length ∧ (watchDecode junk buffer).result ≠ .error .short := by
  rw [watchDecode, safe_bind_iff, safe_watchHeader_iff]
  apply and_congr_right
  intro long
  rcases exists_header long with ⟨version, compatible, flag, rest, rfl⟩
  have header := result_watchHeader version compatible flag rest
  have body : Inside (version :: compatible :: flag :: rest).length (fun _ => 0) (do
      branchOn (some compatible)
      if (some compatible).getD junk > vcSerialVersion then
        fail .refused
      else
        watchBody (version :: compatible :: flag :: rest) 3) := by
    apply (inside_branchOn _ compatible).bind
    intro _ _
    split
    · exact inside_refused _ _
    · exact inside_watchBody (by simp)
  rw [result_bind, header]
  simp only [Except.ok.injEq, forall_eq']
  exact body.safe_iff

/-! ## Where the decoder stops -/

theorem value_eq_some_iff {x : Watched α} {a : α} : x.value = some a ↔ x.result = .ok a := by
  rw [value]
  cases x.result with
  | error stop => simp [Except.toOption]
  | ok b => simp [Except.toOption]

/-- `w` leaves a field out, gets past it and stops in it as it is laid out. -/
structure Watches (buffer : Bytes) (field : KnownField) (w : Place → Watched Place) : Prop where
  skips : ∀ {s : Cursor (List Call)}, s.next ≠ field.number →
    (w (place s)).result = .ok (place s)
  passes : ∀ {s s' : Cursor (List Call)} {bytes : Bytes} {calls : List Call},
    field.Entry bytes calls → Advances buffer s s' (field.number :: bytes) calls →
      (w (place s)).result = .ok (place s')
  stops : ∀ {s : Cursor (List Call)} {calls : List Call} {stop : Stop}, s.next = field.number →
    field.Cut (buffer.drop s.b) calls stop → (w (place s)).result = .error stop

/-- A part of the decoder that reads a field leaves it out and gets past it. -/
theorem watches_of_reads {field : KnownField} {w : Place → Watched Place}
    {f : Cursor (List Call) → Except (List Call) (Cursor (List Call))}
    (reads : Reads buffer field f) (erases : ∀ s, Erases (w (place s)) place (f s))
    (stops : ∀ {s : Cursor (List Call)} {calls : List Call} {stop : Stop},
      s.next = field.number → field.Cut (buffer.drop s.b) calls stop →
        (w (place s)).result = .error stop) : Watches buffer field w := by
  have passes {s s' : Cursor (List Call)} (read : f s = .ok s') :
      (w (place s)).result = .ok (place s') := by
    rw [← value_eq_some_iff, erases s, read]
    rfl
  constructor
  · intro s other
    exact passes ((reads s s).mpr (Or.inl ⟨other, rfl⟩))
  · intro s s' bytes calls entry advances
    exact passes ((reads s s').mpr (Or.inr ⟨bytes, calls, entry, advances⟩))
  · exact stops

/-- Fields one after the other stop where the buffer ends in one. -/
theorem foldlM_eq_stop {fields : List KnownField} {watchers : List (Place → Watched Place)}
    (watch : List.Forall₂ (Watches buffer) fields watchers) {s : Cursor (List Call)}
    {calls : List Call} {stop : Stop}
    (cut : FieldsCut fields (s.next :: buffer.drop s.b) calls stop) :
    (watchers.foldlM (fun s (w : Place → Watched Place) => w s) (place s)).result =
      .error stop := by
  induction watch generalizing s calls with
  | nil => cases cut
  | @cons field w fields watchers first _ ih =>
      rw [List.foldlM_cons, result_bind]
      generalize stands : s.next :: buffer.drop s.b = rest at cut
      cases cut with
      | here cut =>
          rcases List.cons.inj stands with ⟨own, behind⟩
          rw [first.stops own (behind ▸ cut)]
          rfl
      | absent other later =>
          have skipped : s.next ≠ field.number := fun own => other (by rw [← stands, own]; rfl)
          rw [first.skips skipped]
          exact ih (stands ▸ later)
      | present entry later =>
          rcases later.exists_cons with ⟨next, after, rfl⟩
          rcases advances_of_stands stands _ with ⟨behind, advances⟩
          rw [first.passes entry advances]
          exact ih (behind ▸ later)

theorem watches_itemField {item : Item α} (exact : item.Exact) (number : UInt8)
    (set : α → Mutator) :
    Watches buffer (itemField number item set) (watchField buffer item number) := by
  apply watches_of_reads (reads_itemField exact buffer number set)
    (erases_watchField traceSetters buffer item number set)
  intro s calls stop own cut
  have present : s.next = number := own
  rw [watchField, result_bind, branchOn, ok_bind, place, if_pos present, result_bind,
    result_readOrFail]
  rcases cut with ⟨missing, -, rfl⟩ | ⟨val, fits, stands, -, rfl⟩
  · rw [item.read_eq_none_iff.mpr missing]
    rfl
  · rw [← List.append_nil (item.put val)] at stands
    rcases item.read_of_drop fits stands with ⟨found, ends⟩
    rw [found, ok_bind, result_bind, result_readOrFail, u8_read_eq_none_iff.mpr ends]
    rfl

theorem watchPurchaseLoop_of_cut (cnt : UInt8) {count : Nat} {ids : List Bytes} {tail : Bytes}
    (few : ids.length < count) (nulFree : ∀ id ∈ ids, 0 ∉ id)
    (stands : buffer.drop b = ids.flatMap text.put ++ tail) (unended : 0 ∉ tail) :
    (watchPurchaseLoop buffer cnt count b).result = .error .unended := by
  induction ids generalizing count b with
  | nil =>
      rcases Nat.exists_eq_add_one.mpr few with ⟨count, rfl⟩
      have missing : text.read buffer b = none := text_read_eq_none_iff.mpr (stands ▸ unended)
      rw [watchPurchaseLoop, result_bind, branchOn, ok_bind, result_bind, result_readOrFail,
        missing]
      rfl
  | cons id ids ih =>
      rcases Nat.exists_eq_add_one.mpr (Nat.zero_lt_of_lt few) with ⟨count, rfl⟩
      rcases List.forall_mem_cons.mp nulFree with ⟨fits, rest⟩
      rw [List.flatMap_cons, List.append_assoc] at stands
      rcases text.read_of_drop fits stands with ⟨found, standsRest⟩
      rw [watchPurchaseLoop, result_bind, branchOn, ok_bind, result_bind, result_readOrFail,
        found, ok_bind]
      exact ih (Nat.lt_of_succ_lt_succ few) rest standsRest

theorem watches_purchaseIdField : Watches buffer purchaseIdField (watchPurchaseIds buffer) := by
  apply watches_of_reads (reads_purchaseIdField buffer)
    (erases_watchPurchaseIds traceSetters buffer)
  intro s calls stop own cut
  have present : s.next = 11 := own
  rw [watchPurchaseIds, result_bind, branchOn, ok_bind, place, if_pos present, result_bind,
    result_readOrFail]
  rcases cut with ⟨ends, -, rfl⟩ | ⟨cnt, ids, tail, nulFree, stands, -, broken⟩
  · rw [u8_read_eq_none_iff.mpr ends]
    rfl
  · rcases u8_read_of_drop stands with ⟨counted, standsIds⟩
    rw [counted, ok_bind, result_bind]
    rcases broken with ⟨few, unended, rfl⟩ | ⟨all, rfl, rfl⟩
    · rw [watchPurchaseLoop_of_cut cnt few nulFree standsIds unended]
      rfl
    · have ends : buffer.drop (s.b + 1 + (ids.flatMap text.put).length) = [] :=
        drop_behind standsIds
      have read : readPurchaseLoop traceSetters buffer cnt.toNat [] (s.b + 1) = .ok _ :=
        readPurchaseLoop_eq_ok_iff.mpr
          ⟨ids, all, nulFree, by rw [ends]; exact standsIds, rfl, rfl⟩
      have passed : (watchPurchaseLoop buffer cnt cnt.toNat (s.b + 1)).result =
          .ok (s.b + 1 + (ids.flatMap text.put).length) := by
        rw [← value_eq_some_iff, erases_watchPurchaseLoop traceSetters buffer cnt _ [], read]
        rfl
      rw [passed, ok_bind, result_bind, result_readOrFail, u8_read_eq_none_iff.mpr ends]
      rfl

theorem watchFields_of_cut {s : Cursor (List Call)} {calls : List Call} {stop : Stop}
    (cut : FieldsCut knownFields (s.next :: buffer.drop s.b) calls stop) :
    (watchFields buffer (place s)).result = .error stop := by
  have watch : List.Forall₂ (Watches buffer) knownFields _ :=
    .cons (watches_itemField exact_i64 1 .setFirstHitTimeGMT) <|
    .cons (watches_itemField exact_i64 2 .setLastHitTimeGMT) <|
    .cons (watches_itemField exact_i64 3 .setLastHitTimeVisitorLocal) <|
    .cons (watches_itemField exact_u32 4 .setLastVisitNum) <|
    .cons (watches_itemField exact_i64 5 .setLastPurchaseTimeGMT) <|
    .cons (watches_itemField exact_text 6 .setFirstHitReferrer) <|
    .cons (watches_itemField exact_text 7 .setFirstHitUrl) <|
    .cons (watches_itemField exact_text 8 .setFirstHitPagename) <|
    .cons (watches_itemField exact_u32 9 .setLastPurchaseNum) <|
    .cons (watches_itemField exact_text 10 .setMerchandising) <|
    .cons watches_purchaseIdField .nil
  have sequence := foldlM_eq_stop watch cut
  simp only [List.foldlM_cons, List.foldlM_nil, result_bind, result_pure, bind_pure] at sequence
  simp only [watchFields, result_bind]
  exact sequence

theorem watchElement_of_cut {stop : Stop} (cut : ElementCut (buffer.drop b) stop) :
    (watchElement buffer b).result = .error stop := by
  generalize stands : buffer.drop b = rest at cut
  rw [watchElement, result_bind, result_readOrFail]
  cases cut with
  | value unended =>
      rw [text_read_eq_none_iff.mpr (stands ▸ unended)]
      rfl
  | timestamp fits short =>
      rcases text.read_of_drop fits stands with ⟨found, standsTime⟩
      rw [found, ok_bind, result_bind, result_readOrFail,
        i64_read_eq_none_iff.mpr (standsTime ▸ short)]
      rfl
  | revision fits =>
      rcases text.read_of_drop fits stands with ⟨found, standsTime⟩
      rw [← List.append_nil (i64.put _)] at standsTime
      rcases i64.read_of_drop trivial standsTime with ⟨timed, ends⟩
      rw [found, ok_bind, result_bind, result_readOrFail, timed, ok_bind, result_bind,
        result_readOrFail, u8_read_eq_none_iff.mpr ends]
      rfl

/-- The elements in front of the one that is cut are read. -/
theorem watchElements_of_cut (cnt : UInt32) {remaining : Nat} {var : List RelVar} {rest : Bytes}
    {stop : Stop} (few : var.length < remaining) (values : ∀ element ∈ var, 0 ∉ element.value)
    (stands : buffer.drop b = var.flatMap serializeElement ++ rest) (cut : ElementCut rest stop) :
    (watchElements buffer cnt remaining b).result = .error stop := by
  induction var generalizing remaining b with
  | nil =>
      rcases Nat.exists_eq_add_one.mpr few with ⟨remaining, rfl⟩
      have cut : ElementCut (buffer.drop b) stop := stands ▸ cut
      rw [watchElements, result_bind, branchOn, ok_bind, result_bind, watchElement_of_cut cut]
      rfl
  | cons rv var ih =>
      rcases Nat.exists_eq_add_one.mpr (Nat.zero_lt_of_lt few) with ⟨remaining, rfl⟩
      rcases List.forall_mem_cons.mp values with ⟨fits, valuesRest⟩
      rw [List.flatMap_cons, List.append_assoc] at stands
      rcases readElement_encoded fits stands with ⟨b₁, found, standsRest⟩
      have passed : (watchElement buffer b).result = .ok b₁ := by
        rw [← value_eq_some_iff, value_watchElement, found]
        rfl
      rw [watchElements, result_bind, branchOn, ok_bind, result_bind, passed, ok_bind]
      exact ih (Nat.lt_of_succ_lt_succ few) valuesRest standsRest

/-- A relation of the variable section is read, and the next id. -/
theorem watchVar_of_fits {set : RelationId × List RelVar} (fits : VarFits set) {after : Bytes}
    (stands : buffer.drop b = u32.put (UInt32.ofNat set.2.length) ++
      (set.2.flatMap serializeElement ++ after)) :
    ∃ b', buffer.drop b' = after ∧
      (watchVar buffer b).result = (readOrFail u16 buffer b').result := by
  rcases u32.read_of_drop trivial stands with ⟨counted, standsVar⟩
  obtain ⟨b', read, behind⟩ := readElements_encoded buffer set.1
    (UInt32.ofNat set.2.length) fits.values [] false _ standsVar
  have count : (UInt32.ofNat set.2.length).toNat = set.2.length := by
    rw [UInt32.toNat_ofNat']
    exact Nat.mod_eq_of_lt fits.small
  have passed : (watchElements buffer (UInt32.ofNat set.2.length) set.2.length
      (b + (u32.put (UInt32.ofNat set.2.length)).length)).result = .ok b' := by
    rw [← value_eq_some_iff, erases_watchElements traceSetters buffer set.1 _ _ [] varNotSet]
    exact congrArg (fun result => result.toOption.map Prod.snd) read
  refine ⟨b', behind, ?_⟩
  rw [watchVar, result_bind, result_readOrFail, counted, ok_bind, result_bind, count, passed,
    ok_bind]

theorem result_watchVars {rid : RelationId} (valid : rid ≠ invalidRid) (b : Nat) :
    (watchVars buffer rid b).result =
      (watchVar buffer b).result >>= fun turn => (watchVars buffer turn.1 turn.2).result := by
  rw [watchVars_eq, result_bind, branchOn, ok_bind, if_neg valid, result_bind]

/-- The relations in front of the one that is cut are read. -/
theorem watchVars_of_cut {sets : List (RelationId × List RelVar)}
    (fits : ∀ set ∈ sets, VarFits set) {tail : Bytes} {calls : List Call} {stop : Stop}
    (cut : VarCut tail calls stop) (stands : buffer.drop b = sets.flatMap varBytes ++ tail) :
    (do
      let (rid, b) ← readOrFail u16 buffer b
      watchVars buffer rid b : Watched Unit).result = .error stop := by
  induction sets generalizing b with
  | nil =>
      have stands : buffer.drop b = tail := stands
      rw [result_bind, result_readOrFail]
      cases cut with
      | relationId short =>
          rw [u16_read_eq_none_iff.mpr (stands ▸ short)]
          rfl
      | count valid short =>
          rcases u16.read_of_drop trivial stands with ⟨found, standsCount⟩
          rw [found, ok_bind]
          dsimp only
          rw [result_watchVars valid, watchVar, result_bind, result_readOrFail,
            u32_read_eq_none_iff.mpr (standsCount ▸ short)]
          rfl
      | @element rid cnt var rest stop valid few values cut =>
          rcases u16.read_of_drop trivial stands with ⟨found, standsCount⟩
          rcases u32.read_of_drop trivial standsCount with ⟨counted, standsVar⟩
          rw [found, ok_bind]
          dsimp only
          rw [result_watchVars valid, watchVar, result_bind, result_readOrFail, counted, ok_bind,
            result_bind, watchElements_of_cut cnt few values standsVar cut]
          rfl
  | cons set sets ih =>
      rcases List.forall_mem_cons.mp fits with ⟨fitsHead, fitsRest⟩
      rw [List.flatMap_cons, varBytes, List.append_assoc, List.append_assoc, List.append_assoc]
        at stands
      rcases u16.read_of_drop trivial stands with ⟨found, standsVar⟩
      rcases watchVar_of_fits fitsHead standsVar with ⟨b', behind, turn⟩
      have rest := ih fitsRest behind
      rw [result_bind] at rest
      rw [result_bind, result_readOrFail, found, ok_bind]
      dsimp only
      rw [result_watchVars fitsHead.valid, turn]
      exact rest

/-- The header leads to a refusal or to the body. -/
theorem result_watchDecode (junk version compatible flag : UInt8) (rest : Bytes) :
    (watchDecode junk (version :: compatible :: flag :: rest)).result =
      if compatible > vcSerialVersion then .error .refused
      else (watchBody (version :: compatible :: flag :: rest) 3).result := by
  rw [watchDecode, result_bind, result_watchHeader, ok_bind]
  dsimp only
  rw [result_bind, branchOn, ok_bind, Option.getD_some]
  split <;> rfl

/-- The fields and what follows are read behind the offset and the byte ahead. -/
theorem result_watchBody {offset : UInt32} {byte : UInt8}
    (readOffset : u32.read buffer 3 = some (offset, 7))
    (readNext : u8.read buffer 7 = some (byte, 8)) :
    (watchBody buffer 3).result = (watchFields buffer ⟨(), 8, byte⟩).result >>= fun s =>
      if s.b > offset.toNat then .error .refused
      else
        (readOrFail u16 buffer offset.toNat >>= fun first =>
          watchVars buffer first.1 first.2).result := by
  rw [watchBody, result_bind, result_readOrFail, readOffset, ok_bind]
  dsimp only
  rw [result_bind, result_readOrFail, readNext, ok_bind]
  dsimp only
  rw [result_bind]
  congr
  funext s
  rw [result_bind, branchOn, ok_bind]
  split
  · rfl
  · rw [result_bind, index, ok_bind]

/-- A buffer that breaks off behind its header stops the decoder there. -/
theorem watchDecode_of_breaksOff (junk : UInt8) {calls : List Call} {stop : Stop}
    (breaks : BreaksOff buffer calls stop) (long : 3 ≤ buffer.length) :
    (watchDecode junk buffer).result = .error stop := by
  have passed {next byte : UInt8} {position : Nat} {fieldCalls : List Call}
      (read : readFields traceSetters buffer ⟨[], 8, byte⟩ = .ok ⟨fieldCalls, position, next⟩) :
      (watchFields buffer ⟨(), 8, byte⟩).result = .ok ⟨(), position, next⟩ := by
    have erased := erases_watchFields traceSetters buffer ⟨[], 8, byte⟩
    rw [Erases, read] at erased
    exact value_eq_some_iff.mp erased
  cases breaks with
  | header short => omega
  | version newer => rw [result_watchDecode, if_pos newer]
  | opening readable short =>
      rw [result_watchDecode, if_neg (UInt8.not_lt.mpr readable), watchBody, result_bind,
        result_readOrFail]
      rcases missing_of_opening _ _ _ short with missing | ⟨offset, readOffset, missing⟩
      · rw [missing]
        rfl
      · rw [readOffset, ok_bind]
        dsimp only
        rw [result_bind, result_readOrFail, missing]
        rfl
  | fields readable cut =>
      rcases cut.exists_cons with ⟨next, after, rfl⟩
      rcases reads_of_opens rfl with ⟨readOffset, readNext, standsAfter⟩
      rw [result_watchDecode, if_neg (UInt8.not_lt.mpr readable),
        result_watchBody readOffset readNext]
      have stopped := @watchFields_of_cut _ ⟨[], 8, next⟩ calls stop (standsAfter ▸ cut)
      rw [show place (⟨[], 8, next⟩ : Cursor (List Call)) = ⟨(), 8, next⟩ from rfl] at stopped
      rw [stopped]
      rfl
  | offset readable fields inFront =>
      rcases readFields_of_opens rfl fields with ⟨byte, readOffset, readByte, read⟩
      rw [result_watchDecode, if_neg (UInt8.not_lt.mpr readable),
        result_watchBody readOffset readByte, passed read, ok_bind, if_pos inFront]
  | vars readable fields opens behind fits stands cut =>
      rcases readFields_of_opens opens fields with ⟨byte, readOffset, readByte, read⟩
      have body := result_watchBody readOffset readByte
      rw [passed read, ok_bind, if_neg (Nat.not_lt.mpr behind)] at body
      have stopped := body.trans (watchVars_of_cut fits cut stands)
      rw [opens] at stopped ⊢
      rw [result_watchDecode, if_neg (UInt8.not_lt.mpr readable)]
      exact stopped

end Watched

/-- Every position formed in the buffer is within it or at its end, and every
branch is on a variable that was read. -/
def SafelyDecoded (junk : UInt8) (buffer : Bytes) : Prop :=
  Watched.Safe buffer.length (Watched.watchDecode junk buffer)

open Watched in
/-- A buffer is decoded safely exactly when it is laid out as a record or breaks off as
one for another reason than a missing word. -/
theorem safelyDecoded_iff (junk : UInt8) (buffer : Bytes) :
    SafelyDecoded junk buffer ↔
      (∃ r : Record, r.LaidOut buffer) ∨
        ∃ calls stop, stop ≠ .short ∧ BreaksOff buffer calls stop := by
  rw [SafelyDecoded, safe_watchDecode_iff]
  constructor
  · rintro ⟨long, complete⟩
    cases verdict : (scan buffer).2 with
    | true =>
        rcases scan_eq_iff.mp (Prod.ext rfl verdict : scan buffer = (_, true)) with ⟨r, laidOut, -⟩
        exact Or.inl ⟨r, laidOut⟩
    | false =>
        rcases scan_eq_false_iff.mp (Prod.ext rfl verdict) with ⟨stop, breaks⟩
        have stopped := watchDecode_of_breaksOff junk breaks long
        exact Or.inr ⟨_, stop, fun short => complete (short ▸ stopped), breaks⟩
  · rintro (⟨r, laidOut⟩ | ⟨calls, stop, other, breaks⟩)
    · rcases laidOut.bytes with ⟨rest, bytes⟩
      have decoded : decode traceSetters junk [] buffer = .ok r.calls := by
        rw [decode_junk traceSetters junk 0]
        exact decode_of_accepted (scan_of_laidOut laidOut)
      have done : (watchDecode junk buffer).value = some () := by
        rw [erases_watchDecode traceSetters buffer junk [], decoded]
        rfl
      refine ⟨by simp [bytes], fun failed => ?_⟩
      cases (value_eq_some_iff.mp done).symm.trans failed
    · have long : 3 ≤ buffer.length := by
        cases breaks with
        | header => contradiction
        | vars _ _ opens => simp [opens]
        | _ => simp
      refine ⟨long, ?_⟩
      rw [watchDecode_of_breaksOff junk breaks long]
      exact fun same => other (Except.error.inj same)

/-- An offset behind the end is formed, and the end of a word that is not there; a buffer
of one byte is judged by an unread version. -/
theorem offset_past_end :
    Access.index 255 ∈ (Watched.watchDecode 0 [0, 0, 0, 255, 0, 0, 0, 0]).accesses ∧
      ¬ SafelyDecoded 0 [0, 0, 0, 255, 0, 0, 0, 0] ∧
      Access.index 3 ∈ (Watched.watchDecode 0 [0, 0]).accesses ∧ ¬ SafelyDecoded 0 [0, 0] ∧
      Access.branch false ∈ (Watched.watchDecode 0 [0]).accesses ∧ ¬ SafelyDecoded 0 [0] := by
  have offset : Access.index 255 ∈
      (Watched.watchDecode 0 [0, 0, 0, 255, 0, 0, 0, 0]).accesses := by decide +kernel
  have word : Access.index 3 ∈ (Watched.watchDecode 0 [0, 0]).accesses := by decide +kernel
  have unread : Access.branch false ∈ (Watched.watchDecode 0 [0]).accesses := by decide +kernel
  refine ⟨offset, fun safe => ?_, word, fun safe => ?_, unread, fun safe => ?_⟩
  · exact absurd (safe _ offset) (by simp [Access.Safe])
  · exact absurd (safe _ word) (by simp [Access.Safe])
  · exact absurd (safe _ unread) (by simp [Access.Safe])

end VCookieStore

end Elevator
