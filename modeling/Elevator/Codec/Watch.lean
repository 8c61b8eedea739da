import Elevator.Codec.Layout

/-!
# What the decoder touches

The decoder once more, with a record of every position it forms in the buffer and
of every branch it takes on a variable, and without the cookie, on which its
control flow does not depend.  A variable whose `ReadItem` failed holds no value;
only the three header bytes are used without a check.  Forgetting the record gives
back the verdict of the decoder.
-/

namespace Elevator

open Wire

namespace VCookieStore

/-- A position formed in the buffer, or a branch on a variable that its `ReadItem`
has set or not. -/
inductive Access
  | index (i : Nat)
  | branch (set : Bool)
  deriving DecidableEq, Repr

/-- A part of the decoder with what it touches, and why it returns false if it does. -/
structure Watched (α : Type) where
  accesses : List Access
  result : Except Stop α

namespace Watched

variable {α β : Type}

def bind (x : Watched α) (k : α → Watched β) : Watched β :=
  match x.result with
  | .error stop => ⟨x.accesses, .error stop⟩
  | .ok a => ⟨x.accesses ++ (k a).accesses, (k a).result⟩

instance : Monad Watched where
  pure a := ⟨[], .ok a⟩
  bind := bind

/-- `return false`. -/
def fail (stop : Stop) : Watched α :=
  ⟨[], .error stop⟩

/-- `&buffer[i]`. -/
def index (i : Nat) : Watched Unit :=
  ⟨[.index i], .ok ()⟩

/-- A branch on a variable. -/
def branchOn (val : Option α) : Watched Unit :=
  ⟨[.branch val.isSome], .ok ()⟩

/-- `ReadItem`: the variable, and the position behind what was read.  The end of a word is
formed whether the word is there or not. -/
def readItem (item : Item α) (buffer : Bytes) (b : Nat) : Watched (Option α × Nat) :=
  match item.read buffer b with
  | none => ⟨[.index b, .index (b + item.ahead)], .ok (none, b)⟩
  | some (val, b') => ⟨[.index b, .index (b + item.ahead), .index b'], .ok (some val, b')⟩

/-- `if (!ReadItem(...)) return false`. -/
def readOrFail (item : Item α) (buffer : Bytes) (b : Nat) : Watched (α × Nat) := do
  let (val, b) ← readItem item buffer b
  match val with
  | none => fail item.stop
  | some val => return (val, b)

/-- The position and the byte read ahead between two fields. -/
abbrev Place := Cursor Unit

def watchField (buffer : Bytes) (item : Item α) (field : UInt8) (s : Place) : Watched Place := do
  branchOn (some s.next)
  if s.next = field then
    let (_, b) ← readOrFail item buffer s.b
    let (next, b) ← readOrFail u8 buffer b
    return ⟨(), b, next⟩
  else
    return s

def watchPurchaseLoop (buffer : Bytes) (cnt : UInt8) : Nat → Nat → Watched Nat
  | 0, b => do
      branchOn (some cnt)
      return b
  | count + 1, b => do
      branchOn (some cnt)
      let (_, b) ← readOrFail text buffer b
      watchPurchaseLoop buffer cnt count b

def watchPurchaseIds (buffer : Bytes) (s : Place) : Watched Place := do
  branchOn (some s.next)
  if s.next = 11 then
    let (cnt, b) ← readOrFail u8 buffer s.b
    let b ← watchPurchaseLoop buffer cnt cnt.toNat b
    let (next, b) ← readOrFail u8 buffer b
    return ⟨(), b, next⟩
  else
    return s

def watchFields (buffer : Bytes) (s : Place) : Watched Place := do
  let s ← watchField buffer i64 1 s
  let s ← watchField buffer i64 2 s
  let s ← watchField buffer i64 3 s
  let s ← watchField buffer u32 4 s
  let s ← watchField buffer i64 5 s
  let s ← watchField buffer text 6 s
  let s ← watchField buffer text 7 s
  let s ← watchField buffer text 8 s
  let s ← watchField buffer u32 9 s
  let s ← watchField buffer text 10 s
  watchPurchaseIds buffer s

def watchElement (buffer : Bytes) (b : Nat) : Watched Nat := do
  let (_, b) ← readOrFail text buffer b
  let (_, b) ← readOrFail i64 buffer b
  let (_, b) ← readOrFail u8 buffer b
  return b

def watchElements (buffer : Bytes) (cnt : UInt32) : Nat → Nat → Watched Nat
  | 0, b => do
      branchOn (some cnt)
      return b
  | remaining + 1, b => do
      branchOn (some cnt)
      let b ← watchElement buffer b
      watchElements buffer cnt remaining b

/-- One turn of the loop over the variables, up to the next relation id. -/
def watchVar (buffer : Bytes) (b : Nat) : Watched (RelationId × Nat) := do
  let (cnt, b) ← readOrFail u32 buffer b
  let b ← watchElements buffer cnt cnt.toNat b
  readOrFail u16 buffer b

/-! ## Forgetting the record -/

/-- What a part of the decoder returns. -/
def value (x : Watched α) : Option α :=
  x.result.toOption

@[simp]
theorem value_pure (a : α) : (pure a : Watched α).value = some a :=
  rfl

@[simp]
theorem result_pure (a : α) : (pure a : Watched α).result = pure a :=
  rfl

@[simp]
theorem result_bind (x : Watched α) (k : α → Watched β) :
    (x >>= k).result = x.result >>= fun a => (k a).result := by
  change (bind x k).result = _
  unfold bind
  cases x.result <;> rfl

@[simp]
theorem value_bind (x : Watched α) (k : α → Watched β) :
    (x >>= k).value = x.value.bind fun a => (k a).value := by
  rw [value, result_bind, value]
  cases x.result <;> rfl

@[simp]
theorem value_branchOn (val : Option α) : (branchOn val).value = some () :=
  rfl

@[simp]
theorem result_readOrFail (item : Item α) (buffer : Bytes) (b : Nat) :
    (readOrFail item buffer b).result =
      match item.read buffer b with
      | none => .error item.stop
      | some result => .ok result := by
  rw [readOrFail, result_bind, readItem]
  cases item.read buffer b <;> rfl

@[simp]
theorem value_readOrFail (item : Item α) (buffer : Bytes) (b : Nat) :
    (readOrFail item buffer b).value = item.read buffer b := by
  rw [value, result_readOrFail]
  cases item.read buffer b <;> rfl

variable {σ : Type}

/-- Setters without a cookie. -/
def noSetters : Setters Unit where
  mutate _ _ := ()
  setVar _ _ _ _ _ := ((), varNotSet)
  addLinearElement _ _ _ := ()

/-- `x` returns what `f` shows of the result of `y`. -/
def Erases (x : Watched β) (f : α → β) (y : Except σ α) : Prop :=
  x.value = y.toOption.map f

theorem Erases.bind {α' β' : Type} {x : Watched β} {f : α → β} {y : Except σ α}
    {k : β → Watched β'} {f' : α' → β'} {k' : α → Except σ α'} (first : Erases x f y)
    (rest : ∀ a, Erases (k (f a)) f' (k' a)) : Erases (x >>= k) f' (y >>= k') := by
  rw [Erases, value_bind, first]
  cases y with
  | error cookie => rfl
  | ok a => exact rest a

/-- What is left of a cursor without its cookie. -/
def place (s : Cursor σ) : Place :=
  ⟨(), s.b, s.next⟩

variable (setters : Setters σ) (buffer : Bytes)

theorem erases_watchField (item : Item α) (field : UInt8) (set : α → Mutator) (s : Cursor σ) :
    Erases (watchField buffer item field (place s)) place
      (readField setters buffer item field set s) := by
  by_cases present : s.next = field
  · simp only [Erases, watchField, readField, place, present, if_true, value_bind,
      value_branchOn, value_readOrFail, Option.bind_some]
    cases item.read buffer s.b with
    | none => rfl
    | some result =>
        simp only [Option.bind_some]
        cases u8.read buffer result.2 <;> rfl
  · simp only [Erases, watchField, readField, place, present, if_false, value_bind,
      value_branchOn, Option.bind_some]
    rfl

theorem erases_watchPurchaseLoop (cnt : UInt8) (count : Nat) (cookie : σ) (b : Nat) :
    Erases (watchPurchaseLoop buffer cnt count b) Prod.snd
      (readPurchaseLoop setters buffer count cookie b) := by
  induction count generalizing cookie b with
  | zero => rfl
  | succ count ih =>
      rw [Erases, watchPurchaseLoop, readPurchaseLoop]
      simp only [value_bind, value_branchOn, value_readOrFail, Option.bind_some]
      cases text.read buffer b with
      | none => rfl
      | some result => exact ih _ _

theorem erases_watchPurchaseIds (s : Cursor σ) :
    Erases (watchPurchaseIds buffer (place s)) place
      (readPurchaseIds setters buffer s) := by
  by_cases present : s.next = 11
  · simp only [Erases, watchPurchaseIds, readPurchaseIds, place, present, if_true,
      value_bind, value_branchOn, value_readOrFail, Option.bind_some]
    cases u8.read buffer s.b with
    | none => rfl
    | some result =>
        simp only [Option.bind_some]
        have loop := erases_watchPurchaseLoop setters buffer result.1 result.1.toNat s.cookie
          result.2
        rw [Erases] at loop
        rw [loop]
        cases readPurchaseLoop setters buffer result.1.toNat s.cookie result.2 with
        | error cookie => rfl
        | ok result =>
            simp only [Except.toOption, Option.map_some, Option.bind_some]
            cases u8.read buffer result.2 <;> rfl
  · simp only [Erases, watchPurchaseIds, readPurchaseIds, place, present, if_false,
      value_bind, value_branchOn, Option.bind_some]
    rfl

theorem erases_watchFields (s : Cursor σ) :
    Erases (watchFields buffer (place s)) place (readFields setters buffer s) := by
  unfold watchFields readFields
  apply (erases_watchField setters buffer ..).bind
  intro s
  apply (erases_watchField setters buffer ..).bind
  intro s
  apply (erases_watchField setters buffer ..).bind
  intro s
  apply (erases_watchField setters buffer ..).bind
  intro s
  apply (erases_watchField setters buffer ..).bind
  intro s
  apply (erases_watchField setters buffer ..).bind
  intro s
  apply (erases_watchField setters buffer ..).bind
  intro s
  apply (erases_watchField setters buffer ..).bind
  intro s
  apply (erases_watchField setters buffer ..).bind
  intro s
  apply (erases_watchField setters buffer ..).bind
  intro s
  exact erases_watchPurchaseIds setters buffer s

theorem value_watchElement (b : Nat) :
    (watchElement buffer b).value = (readElement buffer b).map Prod.snd := by
  simp only [watchElement, readElement, value_bind, value_readOrFail, value_pure]
  cases text.read buffer b with
  | none => rfl
  | some first =>
      dsimp only [Option.bind_some, Option.bind_eq_bind]
      cases i64.read buffer first.2 with
      | none => rfl
      | some second =>
          dsimp only [Option.bind_some]
          cases u8.read buffer second.2 <;> rfl

theorem erases_watchElements (rid : RelationId) (cnt : UInt32) (remaining : Nat) (cookie : σ)
    (vid b : Nat) :
    Erases (watchElements buffer cnt remaining b) Prod.snd
      (readElements setters buffer rid cnt remaining cookie vid b) := by
  induction remaining generalizing cookie vid b with
  | zero => rfl
  | succ remaining ih =>
      rw [Erases, watchElements, readElements]
      simp only [value_bind, value_branchOn, value_watchElement, Option.bind_some]
      cases readElement buffer b with
      | none => rfl
      | some result =>
          dsimp only
          split
          · exact ih _ _ _
          · exact ih _ _ _

theorem watchVar_bounds {buffer : Bytes} {b b' : Nat} {rid : RelationId}
    (turn : (watchVar buffer b).result = .ok (rid, b')) : b < b' ∧ b' ≤ buffer.length := by
  have turn : (watchVar buffer b).value = some (rid, b') := congrArg Except.toOption turn
  simp only [watchVar, value_bind, value_readOrFail] at turn
  rcases Option.bind_eq_some_iff.mp turn with ⟨⟨cnt, b₁⟩, count, turn⟩
  rcases Option.bind_eq_some_iff.mp turn with ⟨b₂, elements, again⟩
  have erased := erases_watchElements noSetters buffer 0 cnt cnt.toNat () varNotSet b₁
  rw [Erases, elements] at erased
  have bounds₁ := u32.read_bounds count
  have bounds₃ := u16.read_bounds again
  cases read : readElements noSetters buffer 0 cnt cnt.toNat () varNotSet b₁ with
  | error cookie =>
      rw [read] at erased
      contradiction
  | ok result =>
      rw [read] at erased
      have bounds₂ := readElements_le read
      have position : b₂ = result.2 := Option.some.inj erased
      omega

/-- The loop over the variables. -/
@[semireducible]
def watchVars (buffer : Bytes) (rid : RelationId) (b : Nat) : Watched Unit :=
  if rid = invalidRid then
    branchOn (some rid)
  else
    match _turn : (watchVar buffer b).result with
    | .error stop => do
        branchOn (some rid)
        let _ ← watchVar buffer b
        fail stop
    | .ok (next, b') => do
        branchOn (some rid)
        let _ ← watchVar buffer b
        watchVars buffer next b'
termination_by buffer.length - b
decreasing_by
  have bounds := watchVar_bounds _turn
  omega

/-- `watchVars` unfolded once. -/
theorem watchVars_eq (rid : RelationId) (b : Nat) :
    watchVars buffer rid b = (do
      branchOn (some rid)
      if rid = invalidRid then
        return ()
      else
        let (rid, b) ← watchVar buffer b
        watchVars buffer rid b) := by
  rw [watchVars]
  split
  · rfl
  · split
    · rename_i failed
      apply congrArg (branchOn (some rid) >>= ·)
      funext _
      change Watched.bind _ _ = Watched.bind _ _
      simp only [Watched.bind, failed]
    · rename_i next b' turn
      apply congrArg (branchOn (some rid) >>= ·)
      funext _
      change Watched.bind _ _ = Watched.bind _ _
      simp only [Watched.bind, turn]

theorem erases_watchVars (cookie : σ) (rid : RelationId) (b : Nat) :
    Erases (watchVars buffer rid b) (fun _ => ()) (readVars setters buffer cookie rid b) := by
  have elements (rid : RelationId) (cnt : UInt32) (cookie : σ) (b : Nat) :=
    erases_watchElements setters buffer rid cnt cnt.toNat cookie varNotSet b
  simp only [Erases] at elements
  fun_induction readVars setters buffer cookie rid b with
  | case1 cookie b =>
      rw [watchVars_eq]
      rfl
  | case2 cookie rid b valid count =>
      rw [watchVars_eq]
      simp [Erases, valid, watchVar, count, Except.toOption]
  | case3 cookie rid b valid cnt b₁ count stopped read =>
      rw [watchVars_eq]
      simp [Erases, valid, watchVar, count, elements rid cnt cookie b₁, read, Except.toOption]
  | case4 cookie rid b valid cnt b₁ count cookie' b₂ read again =>
      rw [watchVars_eq]
      simp [Erases, valid, watchVar, count, elements rid cnt cookie b₁, read, again,
        Except.toOption]
  | case5 cookie rid b valid cnt b₁ count cookie' b₂ read rid' b₃ again ih =>
      rw [watchVars_eq]
      rw [Erases] at ih
      simp [Erases, valid, watchVar, count, elements rid cnt cookie b₁, read, again, ih,
        Except.toOption]

/-- The unchecked reads of the header; only the second byte is used. -/
def watchHeader (buffer : Bytes) : Watched (Option UInt8 × Nat) := do
  index 0
  let (_, b) ← readItem u8 buffer 0
  let (readCompatibleVersion, b) ← readItem u8 buffer b
  let (_, b) ← readItem u8 buffer b
  return (readCompatibleVersion, b)

/-- Everything behind the header. -/
def watchBody (buffer : Bytes) (b : Nat) : Watched Unit := do
  let (offset, b) ← readOrFail u32 buffer b
  let (next, b) ← readOrFail u8 buffer b
  let s ← watchFields buffer ⟨(), b, next⟩
  branchOn (some offset)
  if s.b > offset.toNat then
    fail .refused
  else
    index offset.toNat
    let (rid, b) ← readOrFail u16 buffer offset.toNat
    watchVars buffer rid b

/-- `Deserialize`. -/
def watchDecode (junk : UInt8) (buffer : Bytes) : Watched Unit := do
  let (readCompatibleVersion, b) ← watchHeader buffer
  branchOn readCompatibleVersion
  if readCompatibleVersion.getD junk > vcSerialVersion then
    fail .refused
  else
    watchBody buffer b

@[simp]
theorem value_index (i : Nat) : (index i).value = some () :=
  rfl

@[simp]
theorem value_readItem (item : Item α) (b : Nat) :
    (readItem item buffer b).value =
      some ((item.read buffer b).map Prod.fst, ((item.read buffer b).map Prod.snd).getD b) := by
  rw [readItem]
  cases item.read buffer b <;> rfl

theorem readHeaderByte_eq (junk : UInt8) (b : Nat) :
    readHeaderByte buffer junk b =
      (((u8.read buffer b).map Prod.fst).getD junk, ((u8.read buffer b).map Prod.snd).getD b) := by
  rw [readHeaderByte]
  cases u8.read buffer b <;> rfl

/-- The record is made along the decoder. -/
theorem erases_watchDecode (junk : UInt8) (cookie : σ) :
    Erases (watchDecode junk buffer) (fun _ => ()) (decode setters junk cookie buffer) := by
  simp only [Erases, watchDecode, watchHeader, decode, readHeaderByte_eq, value_bind,
    value_index, value_readItem, value_branchOn, value_pure, Option.bind_some]
  split
  · rfl
  · simp only [watchBody, value_bind, value_readOrFail]
    cases u32.read buffer _ with
    | none => rfl
    | some result =>
        rcases result with ⟨offset, b⟩
        simp only [Option.bind_some]
        cases u8.read buffer b with
        | none => rfl
        | some result =>
            rcases result with ⟨next, b⟩
            have fields := erases_watchFields setters buffer ⟨cookie, b, next⟩
            rw [Erases, place] at fields
            simp only [Option.bind_some, fields]
            cases readFields setters buffer ⟨cookie, b, next⟩ with
            | error cookie => rfl
            | ok s =>
                simp only [Except.toOption, Option.map_some, Option.bind_some, place]
                split
                · rfl
                · simp only [value_bind, value_index, value_readOrFail, Option.bind_some]
                  cases u16.read buffer offset.toNat with
                  | none => rfl
                  | some result => exact erases_watchVars setters buffer s.cookie result.1 result.2

end Watched

end VCookieStore

end Elevator
