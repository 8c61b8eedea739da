import Mathlib.Algebra.Group.Nat.Defs
import Mathlib.Data.List.Basic

/-!
# Items of a byte buffer

A wire item is a value type together with the bytes it is written as and a
reader at a buffer position.  The laws travel with the reader: a value that can
be represented is read back wherever its bytes stand, reading moves strictly
forward inside the buffer, and a reader never looks past the bytes it consumes.

Fixed-width items are little-endian; text items end at their first zero byte.
-/

namespace Elevator.Wire

universe u

abbrev Bytes := List UInt8

/-! ## Little-endian words -/

/-- The low `width` bytes of a natural number, least significant first. -/
def leBytes : Nat → Nat → Bytes
  | 0, _ => []
  | width + 1, n => UInt8.ofNat n :: leBytes width (n / 256)

/-- The number whose little-endian bytes are given. -/
def leNat : Bytes → Nat
  | [] => 0
  | byte :: bytes => byte.toNat + 256 * leNat bytes

@[simp]
theorem length_leBytes (width n : Nat) : (leBytes width n).length = width := by
  induction width generalizing n with
  | zero => rfl
  | succ width ih => simp [leBytes, ih]

theorem leNat_leBytes {width n : Nat} (bound : n < 256 ^ width) :
    leNat (leBytes width n) = n := by
  induction width generalizing n with
  | zero =>
      have zero : n = 0 := by simpa using bound
      simp [leBytes, leNat, zero]
  | succ width ih =>
      have rest : n / 256 < 256 ^ width := by
        rw [Nat.pow_succ, Nat.mul_comm] at bound
        exact Nat.div_lt_of_lt_mul bound
      rw [leBytes, leNat, ih rest, UInt8.toNat_ofNat']
      omega

/-! ## Items -/

/-- What follows holds no whole item: no word of `ahead` bytes, or no zero byte where
nothing is looked at ahead. -/
def Missing (ahead : Nat) (rest : Bytes) : Prop :=
  if ahead = 0 then 0 ∉ rest else rest.length < ahead

/-- A wire representation of the values satisfying `Fits`.  A reader forms the position
`ahead` before it checks that the item is there. -/
structure Item (α : Type u) where
  put : α → Bytes
  read : Bytes → Nat → Option (α × Nat)
  Fits : α → Prop
  ahead : Nat
  read_put : ∀ {val : α}, Fits val → ∀ before after : Bytes,
    read (before ++ put val ++ after) before.length =
      some (val, before.length + (put val).length)
  read_bounds : ∀ {buffer : Bytes} {b : Nat} {val : α} {b' : Nat},
    read buffer b = some (val, b') → b < b' ∧ b' ≤ buffer.length
  read_take : ∀ {buffer : Bytes} {b : Nat} {val : α} {b' : Nat},
    read buffer b = some (val, b') → ∀ n ≤ buffer.length,
      read (buffer.take n) b = if b' ≤ n then some (val, b') else none
  read_eq_none_iff : ∀ {buffer : Bytes} {b : Nat},
    read buffer b = none ↔ Missing ahead (buffer.drop b)

/-- Read `width` bytes at `b` as a little-endian number, if they are there. -/
def readWord (width : Nat) (buffer : Bytes) (b : Nat) : Option (Nat × Nat) :=
  if b + width ≤ buffer.length then
    some (leNat ((buffer.drop b).take width), b + width)
  else
    none

theorem readWord_leBytes {width n : Nat} (bound : n < 256 ^ width) (before after : Bytes) :
    readWord width (before ++ leBytes width n ++ after) before.length =
      some (n, before.length + width) := by
  have slice : ((before ++ leBytes width n ++ after).drop before.length).take width =
      leBytes width n := by
    rw [List.append_assoc, List.drop_left]
    exact List.take_left' (length_leBytes width n)
  rw [readWord, if_pos (by simp), slice, leNat_leBytes bound]

theorem readWord_eq_some_iff {width b : Nat} {buffer : Bytes} {result : Nat × Nat} :
    readWord width buffer b = some result ↔
      b + width ≤ buffer.length ∧
        result = (leNat ((buffer.drop b).take width), b + width) := by
  by_cases inside : b + width ≤ buffer.length <;> simp [readWord, inside, eq_comm]

/-- A prefix that still holds the word is read alike, a shorter one fails. -/
theorem readWord_take {width b : Nat} {buffer : Bytes} {result : Nat × Nat}
    (read : readWord width buffer b = some result) {n : Nat} (inside : n ≤ buffer.length) :
    readWord width (buffer.take n) b = if result.2 ≤ n then some result else none := by
  rcases readWord_eq_some_iff.mp read with ⟨_, rfl⟩
  have length_take : (buffer.take n).length = n := List.length_take_of_le inside
  by_cases whole : b + width ≤ n
  · have slice : ((buffer.take n).drop b).take width = (buffer.drop b).take width := by
      rw [List.drop_take, List.take_take, Nat.min_eq_left (by omega)]
    rw [readWord, length_take, if_pos whole, slice, if_pos whole]
  · rw [readWord, length_take, if_neg whole, if_neg whole]

/-- Fixed-width little-endian item of a type embedded in the numbers below
`256 ^ width`. -/
def fixed {α : Type u} (width : Nat) (positive : 0 < width) (toNat : α → Nat) (ofNat : Nat → α)
    (toNat_lt : ∀ val, toNat val < 256 ^ width) (ofNat_toNat : ∀ val, ofNat (toNat val) = val) :
    Item α where
  put val := leBytes width (toNat val)
  read buffer b := (readWord width buffer b).map fun result => (ofNat result.1, result.2)
  Fits _ := True
  ahead := width
  read_put {val} _ before after := by
    rw [readWord_leBytes (toNat_lt val), Option.map_some, ofNat_toNat, length_leBytes]
  read_bounds {buffer b val b'} read := by
    rcases Option.map_eq_some_iff.mp read with ⟨result, word, equal⟩
    rcases readWord_eq_some_iff.mp word with ⟨inside, rfl⟩
    cases equal
    omega
  read_take {buffer b val b'} read n inside := by
    rcases Option.map_eq_some_iff.mp read with ⟨result, word, equal⟩
    cases equal
    rw [readWord_take word inside]
    split <;> rfl
  read_eq_none_iff {buffer b} := by
    rw [Option.map_eq_none_iff, readWord, Missing, if_neg (Nat.ne_of_gt positive),
      List.length_drop]
    split <;> simp <;> omega

/-- `unsigned char`. -/
def u8 : Item UInt8 :=
  fixed 1 Nat.one_pos UInt8.toNat UInt8.ofNat (fun val => val.toNat_lt) (fun _ => UInt8.ofNat_toNat)

/-- `unsigned short`. -/
def u16 : Item UInt16 :=
  fixed 2 Nat.two_pos UInt16.toNat UInt16.ofNat (fun val => val.toNat_lt)
    (fun _ => UInt16.ofNat_toNat)

/-- `unsigned`. -/
def u32 : Item UInt32 :=
  fixed 4 (by decide) UInt32.toNat UInt32.ofNat (fun val => val.toNat_lt)
    (fun _ => UInt32.ofNat_toNat)

/-- A signed 64-bit integer, stored in two's complement. -/
def i64 : Item Int64 :=
  fixed 8 (by decide) (fun val => val.toUInt64.toNat) (fun n => (UInt64.ofNat n).toInt64)
    (fun val => val.toUInt64.toNat_lt)
    (fun val => by rw [UInt64.ofNat_toNat, Int64.toInt64_toUInt64])

@[simp]
theorem u8_put (val : UInt8) : u8.put val = [val] := by
  simp [u8, fixed, leBytes]

theorem u8_read_of_lt {buffer : Bytes} {b : Nat} (inside : b < buffer.length) :
    u8.read buffer b = some (buffer[b], b + 1) := by
  have slice : (buffer.drop b).take 1 = [buffer[b]] := by
    rw [List.drop_eq_getElem_cons inside]
    rfl
  have word : readWord 1 buffer b = some (buffer[b].toNat, b + 1) := by
    rw [readWord, if_pos (Nat.succ_le_of_lt inside), slice, leNat, leNat, Nat.mul_zero,
      Nat.add_zero]
  simp only [u8, fixed, word, Option.map_some, UInt8.ofNat_toNat]

theorem u8_read_of_ge {buffer : Bytes} {b : Nat} (outside : buffer.length ≤ b) :
    u8.read buffer b = none := by
  simp [u8, fixed, readWord]
  omega

/-- A word that runs past the end of the buffer is not read. -/
theorem u32_read_of_lt {buffer : Bytes} {b : Nat} (short : buffer.length < b + 4) :
    u32.read buffer b = none := by
  simp [u32, fixed, readWord, short]

/-- A value that stands at `b` is read there, and what follows it stands behind. -/
theorem Item.read_of_drop {α : Type u} (item : Item α) {val : α} (fits : item.Fits val)
    {buffer after : Bytes} {b : Nat} (stands : buffer.drop b = item.put val ++ after) :
    item.read buffer b = some (val, b + (item.put val).length) ∧
      buffer.drop (b + (item.put val).length) = after := by
  have nonempty : item.put val ≠ [] := by
    intro empty
    have bounds := item.read_bounds (item.read_put fits [] [])
    simp [empty] at bounds
  have inside : b ≤ buffer.length := by
    by_contra outside
    rw [List.drop_eq_nil_of_le (Nat.le_of_not_le outside)] at stands
    exact nonempty (List.append_eq_nil_iff.mp stands.symm).1
  have split : buffer = buffer.take b ++ item.put val ++ after := by
    rw [List.append_assoc, ← stands, List.take_append_drop]
  constructor
  · have read := item.read_put fits (buffer.take b) after
    rwa [← split, List.length_take_of_le inside] at read
  · rw [← List.drop_drop, stands, List.drop_left]

/-- A value is told apart from another by its bytes, whatever follows them. -/
theorem Item.put_append_inj {α : Type u} (item : Item α) {val val' : α} (fits : item.Fits val)
    (fits' : item.Fits val') {rest rest' : Bytes}
    (same : item.put val ++ rest = item.put val' ++ rest') : val = val' ∧ rest = rest' := by
  have read := item.read_put fits [] rest
  have read' := item.read_put fits' [] rest'
  rw [List.nil_append] at read read'
  rw [same, read'] at read
  rcases Prod.mk.inj (Option.some.inj read) with ⟨equal, _⟩
  subst equal
  exact ⟨rfl, List.append_cancel_left same⟩

theorem u8_read_of_drop {buffer rest : Bytes} {b : Nat} {next : UInt8}
    (stands : buffer.drop b = next :: rest) :
    u8.read buffer b = some (next, b + 1) ∧ buffer.drop (b + 1) = rest :=
  @Item.read_of_drop _ u8 next trivial _ _ _ (by rw [stands, u8_put, List.singleton_append])

/-! ## Zero-terminated text -/

/-- The bytes from `b` up to the first zero byte, which is consumed too. -/
def readText (buffer : Bytes) (b : Nat) : Option (Bytes × Nat) :=
  ((buffer.drop b).findIdx? (· = 0)).map fun i => ((buffer.drop b).take i, b + i + 1)

theorem readText_eq_some_iff {buffer : Bytes} {b : Nat} {result : Bytes × Nat} :
    readText buffer b = some result ↔
      0 ∉ result.1 ∧ result.2 = b + result.1.length + 1 ∧
        result.1 ++ [0] <+: buffer.drop b := by
  rcases result with ⟨val, b'⟩
  constructor
  · intro read
    rcases Option.map_eq_some_iff.mp read with ⟨i, found, equal⟩
    rcases List.findIdx?_eq_some_iff_getElem.mp found with ⟨inside, isZero, before⟩
    rcases Prod.mk.inj equal with ⟨rfl, rfl⟩
    have zero : (buffer.drop b)[i] = 0 := by simpa using isZero
    have length_take : ((buffer.drop b).take i).length = i :=
      List.length_take_of_le (Nat.le_of_lt inside)
    refine ⟨?_, by rw [length_take], ?_⟩
    · intro member
      rcases List.mem_iff_getElem.mp member with ⟨j, bound, equal⟩
      rw [length_take] at bound
      have nonzero := before j bound
      rw [List.getElem_take] at equal
      simp [equal] at nonzero
    · rw [← zero, List.take_append_getElem inside]
      exact List.take_prefix _ _
  · rintro ⟨noZero, position, after, suffix⟩
    simp only at noZero position suffix
    subst position
    have found : (buffer.drop b).findIdx? (· = 0) = some val.length := by
      rw [← suffix, List.append_assoc, List.findIdx?_append]
      have absent : val.findIdx? (· = 0) = none := by
        rw [List.findIdx?_eq_none_iff]
        intro byte member
        simpa using fun isZero : byte = 0 => noZero (isZero ▸ member)
      simp [absent, List.findIdx?_cons]
    rw [readText, found, Option.map_some, ← suffix, List.append_assoc, List.take_left]

/-- Text without a zero byte, written with its terminator. -/
def text : Item Bytes where
  put val := val ++ [0]
  read := readText
  Fits val := 0 ∉ val
  ahead := 0
  read_put {val} noZero before after := by
    rw [readText_eq_some_iff]
    refine ⟨noZero, by simp [Nat.add_assoc], after, ?_⟩
    rw [List.append_assoc before, List.drop_left]
  read_bounds {buffer b val b'} read := by
    rcases readText_eq_some_iff.mp read with ⟨_, position, isPrefix⟩
    have length_le := isPrefix.length_le
    simp only [List.length_append, List.length_singleton, List.length_drop] at length_le position
    omega
  read_take {buffer b val b'} read n inside := by
    rcases readText_eq_some_iff.mp read with ⟨noZero, position, isPrefix⟩
    simp only at position noZero isPrefix
    by_cases whole : b' ≤ n
    · rw [if_pos whole, readText_eq_some_iff]
      constructor
      · exact noZero
      constructor
      · exact position
      · rw [List.drop_take, List.prefix_take_iff]
        constructor
        · exact isPrefix
        · simp only [List.length_append, List.length_singleton]
          omega
    · rw [if_neg whole, readText, Option.map_eq_none_iff, List.findIdx?_eq_none_iff]
      intro byte member
      have short : (buffer.take n).drop b <+: val := by
        have taken : (buffer.take n).drop b <+: buffer.drop b := by
          rw [List.drop_take]
          exact List.take_prefix _ _
        refine List.prefix_of_prefix_length_le taken
          ((List.prefix_append val [0]).trans isPrefix) ?_
        simp only [List.length_drop, List.length_take]
        omega
      simpa using fun isZero : byte = 0 => noZero (isZero ▸ short.subset member)
  read_eq_none_iff {buffer b} := by
    rw [readText, Option.map_eq_none_iff, List.findIdx?_eq_none_iff, Missing, if_pos rfl]
    constructor
    · intro none zero
      simpa using none 0 zero
    · intro noZero byte member
      simpa using fun isZero : byte = 0 => noZero (isZero ▸ member)

end Elevator.Wire
