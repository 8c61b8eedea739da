import Elevator.Codec.Forward

/-!
# Cut encodings

A decoder that is given the first bytes of a buffer only makes the same reads as
on the whole buffer until one of them runs past the cut and fails.  The decoder
of an encoding reads to its very last byte, so no proper prefix of an encoding is
accepted.
-/

namespace Elevator

open Wire Transition VCookie

namespace VCookieStore

section Cut

variable {σ α β : Type} {buffer : Bytes} {n : Nat}

/-- An item that ends within the first `n` bytes is read alike, any other is not
read. -/
theorem read_take_cases (item : Item α) (bound : n ≤ buffer.length) {b b' : Nat} {val : α}
    (read : item.read buffer b = some (val, b')) :
    (item.read (buffer.take n) b = some (val, b') ∧ b' ≤ n) ∨
      item.read (buffer.take n) b = none := by
  rw [item.read_take read n bound]
  by_cases inside : b' ≤ n
  · exact Or.inl ⟨if_pos inside, inside⟩
  · exact Or.inr (if_neg inside)

/-- `part`, made of the first `n` bytes, has the result of `whole`, which then ends
within them, or fails. -/
def Truncates (stop : α → Nat) (n : Nat) (whole part : Except σ α) : Prop :=
  ∀ a, whole = .ok a → (part = .ok a ∧ stop a ≤ n) ∨ ∃ cookie, part = .error cookie

theorem Truncates.bind {stop : α → Nat} {stop' : β → Nat} {x y : Except σ α}
    {k k' : α → Except σ β} (first : Truncates stop n x y)
    (rest : ∀ a, stop a ≤ n → Truncates stop' n (k a) (k' a)) :
    Truncates stop' n (x >>= k) (y >>= k') := by
  intro result whole
  cases x with
  | error cookie => contradiction
  | ok a =>
      rcases first a rfl with ⟨same, inside⟩ | ⟨cookie, failed⟩
      · rw [same]
        exact rest a inside result whole
      · right
        exact ⟨cookie, by rw [failed]; rfl⟩

variable (setters : Setters σ) (bound : n ≤ buffer.length)

include bound

theorem truncates_readField (item : Item α) (field : UInt8) (set : α → Mutator) {s : Cursor σ}
    (inside : s.b ≤ n) :
    Truncates Cursor.b n (readField setters buffer item field set s)
      (readField setters (buffer.take n) item field set s) := by
  intro result whole
  by_cases present : s.next = field
  · rw [readField, if_pos present] at whole ⊢
    split at whole
    · contradiction
    · rename_i val b₁ read
      split at whole
      · contradiction
      · rename_i next b₂ readNext
        cases whole
        rcases read_take_cases item bound read with ⟨same, _⟩ | failed
        · rcases read_take_cases u8 bound readNext with ⟨sameNext, insideNext⟩ | failed
          · left
            simp only [same, sameNext]
            exact ⟨trivial, insideNext⟩
          · right
            simp only [same, failed]
            exact ⟨_, rfl⟩
        · right
          simp only [failed]
          exact ⟨_, rfl⟩
  · rw [readField, if_neg present] at whole ⊢
    cases whole
    exact Or.inl ⟨rfl, inside⟩

theorem truncates_readPurchaseLoop (count : Nat) (cookie : σ) {b : Nat} (inside : b ≤ n) :
    Truncates Prod.snd n (readPurchaseLoop setters buffer count cookie b)
      (readPurchaseLoop setters (buffer.take n) count cookie b) := by
  induction count generalizing cookie b with
  | zero =>
      intro result whole
      cases whole
      exact Or.inl ⟨rfl, inside⟩
  | succ count ih =>
      intro result whole
      rw [readPurchaseLoop] at whole ⊢
      split at whole
      · contradiction
      · rename_i pid b₁ read
        rcases read_take_cases text bound read with ⟨same, inside₁⟩ | failed
        · rw [same]
          exact ih _ inside₁ result whole
        · right
          rw [failed]
          exact ⟨_, rfl⟩

theorem truncates_readPurchaseIds {s : Cursor σ} (inside : s.b ≤ n) :
    Truncates Cursor.b n (readPurchaseIds setters buffer s)
      (readPurchaseIds setters (buffer.take n) s) := by
  intro result whole
  by_cases present : s.next = 11
  · rw [readPurchaseIds, if_pos present] at whole ⊢
    split at whole
    · contradiction
    · rename_i cnt b₁ read
      split at whole
      · contradiction
      · rename_i cookie b₂ readIds
        split at whole
        · contradiction
        · rename_i next b₃ readNext
          cases whole
          rcases read_take_cases u8 bound read with ⟨same, inside₁⟩ | failed
          · simp only [same]
            rcases truncates_readPurchaseLoop setters bound cnt.toNat s.cookie inside₁ _ readIds
              with ⟨sameIds, _⟩ | ⟨cookie', failed⟩
            · simp only [sameIds]
              rcases read_take_cases u8 bound readNext with ⟨sameNext, insideNext⟩ | failed
              · simp only [sameNext]
                exact Or.inl ⟨trivial, insideNext⟩
              · right
                simp only [failed]
                exact ⟨_, rfl⟩
            · right
              simp only [failed]
              exact ⟨_, rfl⟩
          · right
            simp only [failed]
            exact ⟨_, rfl⟩
  · rw [readPurchaseIds, if_neg present] at whole ⊢
    cases whole
    exact Or.inl ⟨rfl, inside⟩

theorem truncates_readFields {s : Cursor σ} (inside : s.b ≤ n) :
    Truncates Cursor.b n (readFields setters buffer s)
      (readFields setters (buffer.take n) s) := by
  unfold readFields
  apply (truncates_readField setters bound i64 1 _ inside).bind
  intro s inside
  apply (truncates_readField setters bound i64 2 _ inside).bind
  intro s inside
  apply (truncates_readField setters bound i64 3 _ inside).bind
  intro s inside
  apply (truncates_readField setters bound u32 4 _ inside).bind
  intro s inside
  apply (truncates_readField setters bound i64 5 _ inside).bind
  intro s inside
  apply (truncates_readField setters bound text 6 _ inside).bind
  intro s inside
  apply (truncates_readField setters bound text 7 _ inside).bind
  intro s inside
  apply (truncates_readField setters bound text 8 _ inside).bind
  intro s inside
  apply (truncates_readField setters bound u32 9 _ inside).bind
  intro s inside
  apply (truncates_readField setters bound text 10 _ inside).bind
  intro s inside
  exact truncates_readPurchaseIds setters bound inside

omit setters in
theorem readElement_take_cases {b b' : Nat} {rv : RelVar}
    (read : readElement buffer b = some (rv, b')) :
    (readElement (buffer.take n) b = some (rv, b') ∧ b' ≤ n) ∨
      readElement (buffer.take n) b = none := by
  simp only [readElement, Option.bind_eq_bind, Option.pure_def] at read ⊢
  rcases Option.bind_eq_some_iff.mp read with ⟨⟨value, b₁⟩, first, read⟩
  rcases Option.bind_eq_some_iff.mp read with ⟨⟨timestamp, b₂⟩, second, read⟩
  rcases Option.bind_eq_some_iff.mp read with ⟨⟨revision, b₃⟩, third, read⟩
  cases read
  rcases read_take_cases text bound first with ⟨same₁, _⟩ | failed
  · rcases read_take_cases i64 bound second with ⟨same₂, _⟩ | failed
    · rcases read_take_cases u8 bound third with ⟨same₃, inside⟩ | failed
      · left
        simp [same₁, same₂, same₃, inside]
      · right
        simp [same₁, same₂, failed]
    · right
      simp [same₁, failed]
  · right
    simp [failed]

theorem truncates_readElements (rid : RelationId) (cnt : UInt32) (remaining : Nat) (cookie : σ)
    (vid : Nat) {b : Nat} (inside : b ≤ n) :
    Truncates Prod.snd n (readElements setters buffer rid cnt remaining cookie vid b)
      (readElements setters (buffer.take n) rid cnt remaining cookie vid b) := by
  induction remaining generalizing cookie vid b with
  | zero =>
      intro result whole
      cases whole
      exact Or.inl ⟨rfl, inside⟩
  | succ remaining ih =>
      intro result whole
      rw [readElements] at whole ⊢
      split at whole
      · contradiction
      · rename_i rv b₁ read
        rcases readElement_take_cases bound read with ⟨same, inside₁⟩ | failed
        · rw [same]
          dsimp only
          split at whole
          · rename_i unset
            rw [if_pos unset]
            exact ih _ _ inside₁ result whole
          · rename_i set
            rw [if_neg set]
            exact ih _ _ inside₁ result whole
        · right
          rw [failed]
          exact ⟨_, rfl⟩

end Cut

/-! ## Encodings -/

/-- Encoded variables that are cut are rejected. -/
theorem readVars_take {buffer : Bytes} {n : Nat} (short : n < buffer.length)
    {sets : List (RelationId × List RelVar)} (fits : ∀ set ∈ sets, SetFits set)
    (calls : List Call) {b : Nat} (stands : buffer.drop b = encodeVars sets)
    {rid : RelationId} {b' : Nat} (read : u16.read (buffer.take n) b = some (rid, b')) :
    ∃ left, readVars traceSetters (buffer.take n) calls rid b' = .error left := by
  have bound := Nat.le_of_lt short
  induction sets generalizing calls b rid b' with
  | nil =>
      -- the mark that ends the variables is the end of the buffer
      rw [encodeVars_nil] at stands
      rcases u16.read_of_drop trivial stands with ⟨readEnd, atEnd⟩
      have last : buffer.length ≤ b + (u16.put invalidRid).length := List.drop_eq_nil_iff.mp atEnd
      rcases read_take_cases u16 bound readEnd with ⟨_, inside⟩ | failed
      · omega
      · rw [failed] at read
        contradiction
  | cons set sets ih =>
      rcases List.forall_mem_cons.mp fits with ⟨fitsHead, fitsRest⟩
      obtain ⟨cnt, b₁, b₂, b₃, readRid, readCnt, readAll, standsRest⟩ :=
        readVar_encoded fitsHead stands calls
      rcases read_take_cases u16 bound readRid with ⟨same, _⟩ | failed
      · rw [same] at read
        cases read
        rw [readVars_eq, if_neg fitsHead.valid]
        rcases read_take_cases u32 bound readCnt with ⟨sameCnt, inside⟩ | failed
        · simp only [sameCnt]
          rcases truncates_readElements traceSetters bound set.1 cnt cnt.toNat calls varNotSet
            inside _ readAll with ⟨sameAll, _⟩ | ⟨left, failed⟩
          · simp only [sameAll]
            split
            · exact ⟨_, rfl⟩
            · rename_i readNext
              exact ih fitsRest _ standsRest readNext
          · simp only [failed]
            exact ⟨_, rfl⟩
        · simp only [failed]
          exact ⟨_, rfl⟩
      · rw [failed] at read
        contradiction

/-- An unchecked read moves on unless it stands at the end. -/
theorem readHeaderByte_position (buffer : Bytes) (junk : UInt8) {b : Nat}
    (inside : b ≤ buffer.length) :
    (readHeaderByte buffer junk b).2 = min (b + 1) buffer.length := by
  rw [readHeaderByte]
  by_cases there : b < buffer.length
  · rw [u8_read_of_lt there, Option.getD_some]
    omega
  · rw [u8_read_of_ge (Nat.le_of_not_lt there), Option.getD_none]
    omega

/-- The offset is cut, whatever became of the three bytes before it. -/
theorem decode_of_length_lt {σ : Type} (setters : Setters σ) (junk : UInt8) (cookie : σ)
    {buffer : Bytes} (header : buffer.length < 7) :
    ∃ left, decode setters junk cookie buffer = .error left := by
  have position : (readHeaderByte buffer junk (readHeaderByte buffer junk
      (readHeaderByte buffer junk 0).2).2).2 = min 3 buffer.length := by
    rw [readHeaderByte_position buffer junk (Nat.zero_le _),
      readHeaderByte_position _ _ (Nat.min_le_right _ _),
      readHeaderByte_position _ _ (Nat.min_le_right _ _)]
    omega
  have early : u32.read buffer (readHeaderByte buffer junk (readHeaderByte buffer junk
      (readHeaderByte buffer junk 0).2).2).2 = none := by
    apply u32_read_of_lt
    rw [position]
    omega
  simp only [decode, early]
  split
  · exact ⟨_, rfl⟩
  · exact ⟨_, rfl⟩

/-- A cut encoding is rejected. -/
theorem scan_take {c : VCookie} (encodable : Encodable c) {saveLastHitTime : Bool}
    (small : (encode c saveLastHitTime).length < 2 ^ 32) {n : Nat}
    (short : n < (encode c saveLastHitTime).length) :
    (scan ((encode c saveLastHitTime).take n)).2 = false := by
  have bound := Nat.le_of_lt short
  have fits := setFits_of_mem encodable
  have ends : OpensAbove 11 [0] := ⟨0, [], rfl, Or.inl rfl⟩
  have reads := readsFields_newerStream encodable saveLastHitTime 0 0 ends
  have stands := drop_newerStream c saveLastHitTime 0 0 [0]
  have length_encode := length_newerStream c saveLastHitTime 0 0 [0]
  rw [← encode_eq_newerStream] at reads stands length_encode
  generalize encode c saveLastHitTime = buffer at *
  generalize size : 7 + (serializeFields c saveLastHitTime).length + [(0 : UInt8)].length =
    offset at *
  have offsetSmall : (UInt32.ofNat offset).toNat = offset := by
    rw [UInt32.toNat_ofNat']
    exact Nat.mod_eq_of_lt (by omega)
  obtain ⟨next, s, readNext, readFields, position, _⟩ := reads.fields
  suffices rejected : ∃ left, decode traceSetters 0 [] (buffer.take n) = .error left by
    rcases rejected with ⟨left, rejected⟩
    rw [scan, rejected]
  have length_take : (buffer.take n).length = n := List.length_take_of_le bound
  rcases Nat.lt_or_ge n 7 with header | long
  · exact decode_of_length_lt traceSetters 0 [] (by rwa [length_take])
  · rcases reads.version with ⟨version, readVersion⟩
    rcases reads.flag with ⟨flag, readFlag⟩
    have sameVersion := u8.read_take readVersion n bound
    have sameCompatible := u8.read_take reads.compatible n bound
    have sameFlag := u8.read_take readFlag n bound
    have sameOffset := u32.read_take reads.offset n bound
    rw [if_pos (by omega)] at sameVersion sameCompatible sameFlag sameOffset
    have compatible : ¬ (0 : UInt8) > vcSerialVersion := by decide
    simp only [decode, readHeaderByte, sameVersion, sameCompatible, sameFlag, Option.getD_some,
      if_neg compatible, sameOffset]
    rcases read_take_cases u8 bound readNext with ⟨sameNext, insideNext⟩ | failed
    · simp only [sameNext]
      rcases truncates_readFields traceSetters bound (s := ⟨[], 8, next⟩) insideNext s readFields
        with ⟨sameFields, _⟩ | ⟨left, failed⟩
      · simp only [sameFields]
        split
        · exact ⟨_, rfl⟩
        · split
          · exact ⟨_, rfl⟩
          · rename_i readRid
            rw [offsetSmall] at readRid
            exact readVars_take short fits s.cookie stands readRid
      · simp only [failed]
        exact ⟨_, rfl⟩
    · simp only [failed]
      exact ⟨_, rfl⟩

/-- No proper prefix of an encoding is accepted into any cookie. -/
theorem truncated_rejected (id : VCookieId) (newCookie saveLastHitTime : Bool)
    (ops : List CookieOp) (nulFree : (run applyOp (fresh id newCookie) ops).NulFree) :
    ∃ buf, serialize (run applyOp (fresh id newCookie) ops) saveLastHitTime = some buf ∧
      (buf.length < 2 ^ 32 → ∀ part, part <+: buf → part ≠ buf →
        ∀ (id' : VCookieId) (newCookie' : Bool) (ops' : List CookieOp) (junk : UInt8),
          (deserialize junk (run applyOp (fresh id' newCookie') ops') part).2 = false) := by
  have encodable := encodable_run nulFree
  refine ⟨_, serialize_eq encodable.indexed saveLastHitTime, ?_⟩
  intro small part isPrefix proper id' newCookie' ops' junk
  have taken := List.prefix_iff_eq_take.mp isPrefix
  have short : part.length < (encode (run applyOp (fresh id newCookie) ops)
      saveLastHitTime).length := by
    apply Nat.lt_of_le_of_ne isPrefix.length_le
    intro same
    exact proper (isPrefix.eq_of_length same)
  rw [deserialize_eq_replay (indexed_run id' newCookie' ops'), taken]
  exact scan_take encodable small short

/-- The encoding of a cookie with a purchase id and an empty element, cut before
its last byte. -/
theorem truncated_rejected_purchase :
    let c := run applyOp (fresh ⟨1, 2, 3⟩ true) [.mutate (.setPurchaseId [49]),
      .mutate (.setVar 3 [98] 7 1 .linear 0), .mutate (.addLinearElement 0 [] 8 1)]
    ∃ buf, serialize c true = some buf ∧
      (deserialize 0 (fresh ⟨4, 5, 6⟩ true) buf.dropLast).2 = false := by
  intro c
  have nulFree : c.NulFree :=
    nulFree_mutators ⟨1, 2, 3⟩ true
      (by decide : ∀ m ∈ [Mutator.setPurchaseId [49], .setVar 3 [98] 7 1 .linear 0,
        .addLinearElement 0 [] 8 1], 0 ∉ m.text)
  obtain ⟨buf, saved, rejected⟩ := truncated_rejected ⟨1, 2, 3⟩ true true
    [.mutate (.setPurchaseId [49]), .mutate (.setVar 3 [98] 7 1 .linear 0),
      .mutate (.addLinearElement 0 [] 8 1)] nulFree
  have known : serialize c true = some [0, 0, 0, 12, 0, 0, 0, 11, 1, 49, 0, 0, 3, 0, 2, 0, 0, 0, 98,
      0, 7, 0, 0, 0, 0, 0, 0, 0, 1, 0, 8, 0, 0, 0, 0, 0, 0, 0, 1, 255, 255] := by decide +kernel
  have bytes := Option.some.inj (saved.symm.trans known)
  refine ⟨buf, saved, rejected ?_ _ (List.dropLast_prefix buf) ?_ ⟨4, 5, 6⟩ true [] 0⟩
  · rw [bytes]
    decide
  · rw [bytes]
    decide

end VCookieStore

end Elevator
