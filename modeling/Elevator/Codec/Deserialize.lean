import Elevator.Codec.Serialize

/-!
# Deserialization

`VCookieStore::Deserialize` reads the buffer front to back and writes into the
caller's cookie as it goes, through public setters only.  The decoder is stated
over the setters it calls, so that the same control flow can drive a cookie or
merely record the calls; `deserialize` is the instance for cookies.

An early `return false` is an `error` carrying the cookie written so far.  The
header bytes are read without a check: a byte that is not there leaves its
variable uninitialised, and `junk` is the value it happens to hold.
-/

namespace Elevator

open Wire

namespace VCookieStore

/-- The members of the cookie that the decoder calls. -/
structure Setters (σ : Type) where
  mutate : σ → Mutator → σ
  setVar : σ → RelationId → RelVar → AllocationType → UInt32 → σ × Nat
  addLinearElement : σ → Nat → RelVar → σ

/-- The calls on a cookie itself. -/
def cookieSetters : Setters VCookie where
  mutate := VCookie.mutate
  setVar c rid rv allocType maxLinear :=
    c.setVar rid rv.value rv.timestamp rv.revision allocType maxLinear
  addLinearElement c vid rv := c.addLinearElement vid rv.value rv.timestamp rv.revision

/-- The decoder between two fields: the cookie, the read position and the byte
read ahead. -/
structure Cursor (σ : Type) where
  cookie : σ
  b : Nat
  next : UInt8

variable {σ : Type}

/-- One optional field: its value, its setter, and the next look-ahead byte. -/
def readField {α : Type} (setters : Setters σ) (buffer : Bytes) (item : Item α) (field : UInt8)
    (set : α → Mutator) (s : Cursor σ) : Except σ (Cursor σ) :=
  if s.next = field then
    match item.read buffer s.b with
    | none => .error s.cookie
    | some (val, b) =>
        let cookie := setters.mutate s.cookie (set val)
        match u8.read buffer b with
        | none => .error cookie
        | some (next, b) => .ok ⟨cookie, b, next⟩
  else
    .ok s

def readPurchaseLoop (setters : Setters σ) (buffer : Bytes) : Nat → σ → Nat → Except σ (σ × Nat)
  | 0, cookie, b => .ok (cookie, b)
  | count + 1, cookie, b =>
      match text.read buffer b with
      | none => .error cookie
      | some (pid, b) =>
          readPurchaseLoop setters buffer count (setters.mutate cookie (.setPurchaseId pid)) b

/-- Field 11, the counted purchase-id list. -/
def readPurchaseIds (setters : Setters σ) (buffer : Bytes) (s : Cursor σ) :
    Except σ (Cursor σ) :=
  if s.next = 11 then
    match u8.read buffer s.b with
    | none => .error s.cookie
    | some (cnt, b) =>
        match readPurchaseLoop setters buffer cnt.toNat s.cookie b with
        | .error cookie => .error cookie
        | .ok (cookie, b) =>
            match u8.read buffer b with
            | none => .error cookie
            | some (next, b) => .ok ⟨cookie, b, next⟩
  else
    .ok s

/-- The known fields, in the order of the serializer. -/
def readFields (setters : Setters σ) (buffer : Bytes) (s : Cursor σ) : Except σ (Cursor σ) := do
  let s ← readField setters buffer i64 1 .setFirstHitTimeGMT s
  let s ← readField setters buffer i64 2 .setLastHitTimeGMT s
  let s ← readField setters buffer i64 3 .setLastHitTimeVisitorLocal s
  let s ← readField setters buffer u32 4 .setLastVisitNum s
  let s ← readField setters buffer i64 5 .setLastPurchaseTimeGMT s
  let s ← readField setters buffer text 6 .setFirstHitReferrer s
  let s ← readField setters buffer text 7 .setFirstHitUrl s
  let s ← readField setters buffer text 8 .setFirstHitPagename s
  let s ← readField setters buffer u32 9 .setLastPurchaseNum s
  let s ← readField setters buffer text 10 .setMerchandising s
  readPurchaseIds setters buffer s

/-- The three reads of one element. -/
def readElement (buffer : Bytes) (b : Nat) : Option (RelVar × Nat) := do
  let (value, b) ← text.read buffer b
  let (timestamp, b) ← i64.read buffer b
  let (revision, b) ← u8.read buffer b
  return (⟨value, timestamp, revision⟩, b)

/-- The elements of one relation: `SetVar` until it returns a handle, then
`AddLinearElement` on that handle. -/
def readElements (setters : Setters σ) (buffer : Bytes) (rid : RelationId) (cnt : UInt32) :
    Nat → σ → Nat → Nat → Except σ (σ × Nat)
  | 0, cookie, _, b => .ok (cookie, b)
  | remaining + 1, cookie, vid, b =>
      match readElement buffer b with
      | none => .error cookie
      | some (rv, b) =>
          if vid = varNotSet then
            let result := setters.setVar cookie rid rv (if cnt > 1 then .linear else .last) cnt
            readElements setters buffer rid cnt remaining result.1 result.2 b
          else
            readElements setters buffer rid cnt remaining
              (setters.addLinearElement cookie vid rv) vid b

theorem readElement_bounds {buffer : Bytes} {b b' : Nat} {rv : RelVar}
    (read : readElement buffer b = some (rv, b')) : b < b' ∧ b' ≤ buffer.length := by
  simp only [readElement, Option.bind_eq_bind, Option.pure_def] at read
  rcases Option.bind_eq_some_iff.mp read with ⟨⟨value, b₁⟩, first, read⟩
  rcases Option.bind_eq_some_iff.mp read with ⟨⟨timestamp, b₂⟩, second, read⟩
  rcases Option.bind_eq_some_iff.mp read with ⟨⟨revision, b₃⟩, third, read⟩
  have bounds₁ := text.read_bounds first
  have bounds₂ := i64.read_bounds second
  have bounds₃ := u8.read_bounds third
  cases read
  omega

theorem readElements_le {setters : Setters σ} {buffer : Bytes} {rid : RelationId} {cnt : UInt32}
    {remaining : Nat} {cookie : σ} {vid b : Nat} {result : σ × Nat}
    (read : readElements setters buffer rid cnt remaining cookie vid b = .ok result) :
    b ≤ result.2 := by
  induction remaining generalizing cookie vid b with
  | zero =>
      cases read
      exact Nat.le_refl _
  | succ remaining ih =>
      rw [readElements] at read
      split at read
      · contradiction
      · rename_i found
        have bounds := readElement_bounds found
        split at read
        · exact Nat.le_trans (by omega) (ih read)
        · exact Nat.le_trans (by omega) (ih read)

/-- The variable section, up to the invalid relation id. -/
@[semireducible]
def readVars (setters : Setters σ) (buffer : Bytes) (cookie : σ) (rid : RelationId) (b : Nat) :
    Except σ σ :=
  if rid = invalidRid then
    .ok cookie
  else
    match _count : u32.read buffer b with
    | none => .error cookie
    | some (cnt, b₁) =>
        match _elements : readElements setters buffer rid cnt cnt.toNat cookie varNotSet b₁ with
        | .error cookie => .error cookie
        | .ok (cookie, b₂) =>
            match _again : u16.read buffer b₂ with
            | none => .error cookie
            | some (rid, b₃) => readVars setters buffer cookie rid b₃
termination_by buffer.length - b
decreasing_by
  have bounds₁ := u32.read_bounds _count
  have bounds₂ := readElements_le _elements
  have bounds₃ := u16.read_bounds _again
  simp only at bounds₂
  omega

/-- `readVars` unfolded once. -/
theorem readVars_eq (setters : Setters σ) (buffer : Bytes) (cookie : σ) (rid : RelationId)
    (b : Nat) :
    readVars setters buffer cookie rid b =
      if rid = invalidRid then .ok cookie
      else
        match u32.read buffer b with
        | none => .error cookie
        | some (cnt, b₁) =>
            match readElements setters buffer rid cnt cnt.toNat cookie varNotSet b₁ with
            | .error cookie => .error cookie
            | .ok (cookie, b₂) =>
                match u16.read buffer b₂ with
                | none => .error cookie
                | some (rid, b₃) => readVars setters buffer cookie rid b₃ := by
  rw [readVars]
  split
  · rfl
  · split
    · simp only [*]
    · simp only [*]
      split
      · simp only [*]
      · simp only [*]
        split <;> simp only [*]

/-- An unchecked read of one header byte. -/
def readHeaderByte (buffer : Bytes) (junk : UInt8) (b : Nat) : UInt8 × Nat :=
  (u8.read buffer b).getD (junk, b)

def decode (setters : Setters σ) (junk : UInt8) (cookie : σ) (buffer : Bytes) : Except σ σ :=
  let version := readHeaderByte buffer junk 0
  let readCompatibleVersion := readHeaderByte buffer junk version.2
  let flag := readHeaderByte buffer junk readCompatibleVersion.2
  if readCompatibleVersion.1 > vcSerialVersion then
    .error cookie
  else
    match u32.read buffer flag.2 with
    | none => .error cookie
    | some (offset, b) =>
        match u8.read buffer b with
        | none => .error cookie
        | some (next, b) =>
            match readFields setters buffer ⟨cookie, b, next⟩ with
            | .error cookie => .error cookie
            | .ok s =>
                if s.b > offset.toNat then
                  .error s.cookie
                else
                  match u16.read buffer offset.toNat with
                  | none => .error s.cookie
                  | some (rid, b) => readVars setters buffer s.cookie rid b

/-- The cookie after the call, and the value returned. -/
def deserialize (junk : UInt8) (c : VCookie) (buffer : Bytes) : VCookie × Bool :=
  match decode cookieSetters junk c buffer with
  | .error c => (c, false)
  | .ok c => (c, true)

/-- What `LoadVCookie` does with the record found in a store that keeps the
last-hit time beside the blob. -/
def loadRecord (junk : UInt8) : Option (TimeT × Bytes) → VCookie → VCookie × Bool
  | none, c => (c, false)
  | some (lastHitTimeGMT, buffer), c => deserialize junk (c.setLastHitTimeGMT lastHitTimeGMT) buffer

end VCookieStore

end Elevator
