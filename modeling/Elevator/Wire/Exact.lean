import Elevator.Wire.Item

/-!
# Items that read only what they write

An item is exact if whatever it reads stands in the buffer as the item writes it, so
that reading at a position and standing there are the same.  The little-endian words
and zero-terminated text are exact.
-/

namespace Elevator.Wire

universe u

variable {α : Type u}

/-- Whatever the item reads is a value that it writes, and its bytes stand there. -/
def Item.Exact (item : Item α) : Prop :=
  ∀ {buffer : Bytes} {b : Nat} {val : α} {b' : Nat}, item.read buffer b = some (val, b') →
    item.Fits val ∧ buffer.drop b = item.put val ++ buffer.drop b' ∧
      b' = b + (item.put val).length

/-- What follows bytes that stand in a buffer. -/
theorem drop_behind {buffer bytes after : Bytes} {b : Nat}
    (stands : buffer.drop b = bytes ++ after) : buffer.drop (b + bytes.length) = after := by
  rw [← List.drop_drop, stands, List.drop_left]

/-- The bytes of a number are those it was made of. -/
theorem leBytes_leNat (bytes : Bytes) : leBytes bytes.length (leNat bytes) = bytes := by
  induction bytes with
  | nil => rfl
  | cons byte bytes ih =>
      have small := byte.toNat_lt
      have low : UInt8.ofNat (byte.toNat + 256 * leNat bytes) = byte := by
        apply UInt8.toNat_inj.mp
        rw [UInt8.toNat_ofNat']
        omega
      have high : (byte.toNat + 256 * leNat bytes) / 256 = leNat bytes := by omega
      rw [List.length_cons, leBytes, leNat, low, high, ih]

theorem leNat_lt (bytes : Bytes) : leNat bytes < 256 ^ bytes.length := by
  induction bytes with
  | nil => exact Nat.one_pos
  | cons byte bytes ih =>
      have small := byte.toNat_lt
      rw [leNat, List.length_cons, Nat.pow_succ]
      omega

/-- A word is exact if its type has a value for every number that fits. -/
theorem exact_fixed {width : Nat} {positive : 0 < width} {toNat : α → Nat} {ofNat : Nat → α}
    {toNat_lt : ∀ val, toNat val < 256 ^ width} {ofNat_toNat : ∀ val, ofNat (toNat val) = val}
    (toNat_ofNat : ∀ n < 256 ^ width, toNat (ofNat n) = n) :
    (fixed width positive toNat ofNat toNat_lt ofNat_toNat).Exact := by
  intro buffer b val b' read
  obtain ⟨result, word, equal⟩ := Option.map_eq_some_iff.mp read
  obtain ⟨inside, rfl⟩ := readWord_eq_some_iff.mp word
  cases equal
  have length_slice : ((buffer.drop b).take width).length = width := by
    rw [List.length_take, List.length_drop]
    omega
  have bound := leNat_lt ((buffer.drop b).take width)
  have bytes := leBytes_leNat ((buffer.drop b).take width)
  rw [length_slice] at bound bytes
  have put : (fixed width positive toNat ofNat toNat_lt ofNat_toNat).put
      (ofNat (leNat ((buffer.drop b).take width))) = (buffer.drop b).take width :=
    (congrArg (leBytes width) (toNat_ofNat _ bound)).trans bytes
  constructor
  · trivial
  constructor
  · rw [put, ← List.drop_drop, List.take_append_drop]
  · rw [put, length_slice]

theorem exact_u8 : u8.Exact :=
  exact_fixed fun _ small => UInt8.toNat_ofNat_of_lt' small

theorem exact_u16 : u16.Exact :=
  exact_fixed fun _ small => UInt16.toNat_ofNat_of_lt' small

theorem exact_u32 : u32.Exact :=
  exact_fixed fun _ small => UInt32.toNat_ofNat_of_lt' small

theorem exact_i64 : i64.Exact :=
  exact_fixed fun n small => by
    rw [UInt64.toUInt64_toInt64]
    exact UInt64.toNat_ofNat_of_lt' small

theorem exact_text : text.Exact := by
  intro buffer b val b' read
  obtain ⟨noZero, position, after, stands⟩ := readText_eq_some_iff.mp read
  dsimp only at noZero position stands
  have length : (text.put val).length = val.length + 1 := List.length_append
  have split : b' = b + (val ++ [0]).length := by
    rw [position, List.length_append]
    rfl
  constructor
  · exact noZero
  constructor
  · rw [split, drop_behind stands.symm, ← stands]
    rfl
  · rw [length, position, Nat.add_assoc]

end Elevator.Wire
