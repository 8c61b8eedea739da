import Elevator.Transition.Run
import Mathlib.Data.List.Dedup
import Mathlib.Data.List.DropRight

/-!
# Recently used lists

A list of bounded capacity remembers what was used last.  A use moves a remembered
value to the end; a new value goes to the end and, in a full list, drops the oldest.
Along any history the list holds the last of the distinct values used, in the order
of their last uses.  A sliding window takes every value for new, so it holds the last
of all values.
-/

namespace Elevator.Sequence

open Transition

universe u

variable {α : Type u}

theorem rtake_append_of_length {n : Nat} (front : List α) {back : List α}
    (length : back.length = n) : (front ++ back).rtake n = back := by
  rw [List.rtake, List.length_append, length, Nat.add_sub_cancel, List.drop_left]

theorem rtake_of_length_le {n : Nat} {l : List α} (short : l.length ≤ n) : l.rtake n = l := by
  rw [List.rtake, Nat.sub_eq_zero_of_le short, List.drop_zero]

/-! ## Sliding windows -/

/-- Append a value and keep the last `n`. -/
def push (n : Nat) (window : List α) (value : α) : List α :=
  (window ++ [value]).rtake n

theorem push_rtake (n : Nat) (history : List α) (value : α) :
    push n (history.rtake n) value = (history ++ [value]).rtake n := by
  cases n with
  | zero => rw [push, List.rtake_zero, List.rtake_zero]
  | succ n =>
      have shorter : (history.rtake (n + 1)).rtake n = history.rtake n := by
        simp only [List.rtake, List.drop_drop, List.length_drop]
        congr 1
        omega
      rw [push, List.rtake_concat_succ, List.rtake_concat_succ, shorter]

/-- Along a history the window holds the last `n` values. -/
theorem run_push (n : Nat) (history : List α) : run (push n) [] history = history.rtake n := by
  induction history using List.reverseRecOn with
  | nil => exact (List.rtake_nil _).symm
  | append_singleton history value ih => rw [run_concat, ih, push_rtake]

/-! ## Distinct values -/

variable [DecidableEq α]

/-- Use a value. -/
def use (capacity : Nat) (remembered : List α) (value : α) : List α :=
  if value ∈ remembered then remembered.erase value ++ [value]
  else
    (if remembered.length = capacity then remembered.tail else remembered) ++ [value]

/-- A use remembers nothing but the value. -/
theorem mem_use {capacity : Nat} {remembered : List α} {value other : α}
    (member : other ∈ use capacity remembered value) : other ∈ remembered ∨ other = value := by
  unfold use at member
  split at member <;> rcases List.mem_append.mp member with old | new
  · exact Or.inl (List.mem_of_mem_erase old)
  · exact Or.inr (List.mem_singleton.mp new)
  · left
    split at old
    · exact List.mem_of_mem_tail old
    · exact old
  · exact Or.inr (List.mem_singleton.mp new)

/-- The last `capacity` distinct values of a history, by their last occurrence. -/
def mostRecent (capacity : Nat) (history : List α) : List α :=
  history.dedup.rtake capacity

theorem mostRecent_nil (capacity : Nat) : mostRecent capacity ([] : List α) = [] := by
  rw [mostRecent, List.dedup_nil, List.rtake_nil]

theorem length_mostRecent_le (capacity : Nat) (history : List α) :
    (mostRecent capacity history).length ≤ capacity := by
  rw [mostRecent, List.rtake, List.length_drop]
  omega

theorem nodup_mostRecent (capacity : Nat) (history : List α) :
    (mostRecent capacity history).Nodup :=
  (List.nodup_dedup history).sublist (List.drop_sublist _ _)

/-- A value last used now comes last. -/
theorem dedup_concat (history : List α) (value : α) :
    (history ++ [value]).dedup = history.dedup.erase value ++ [value] := by
  induction history with
  | nil => rfl
  | cons first history ih =>
      rw [List.cons_append, List.dedup_cons, List.dedup_cons, ih]
      by_cases again : first ∈ history
      · rw [if_pos again, if_pos (List.mem_append_left _ again)]
      · rw [if_neg again]
        by_cases same : first = value
        · subst same
          have new : first ∉ history.dedup := mt List.mem_dedup.mp again
          rw [if_pos (List.mem_append_right _ (List.mem_singleton_self _)),
            List.erase_of_not_mem new, List.erase_cons_head]
        · have new : first ∉ history ++ [value] := by simp [again, same]
          rw [if_neg new, List.erase_cons_tail (by simpa using same), List.cons_append]

theorem erase_append_of_not_mem (front : List α) {back : List α} {value : α}
    (other : value ∉ back) : (front ++ back).erase value = front.erase value ++ back := by
  rw [List.erase_append]
  split
  · rfl
  · rename_i new
    rw [List.erase_of_not_mem other, List.erase_of_not_mem new]

/-- A use of the last values of a list without repetitions leaves its last values
once the value has moved to the end. -/
theorem use_rtake {n : Nat} {distinct : List α} (nodup : distinct.Nodup) (value : α) :
    use (n + 1) (distinct.rtake (n + 1)) value = (distinct.erase value).rtake n ++ [value] := by
  have split : distinct.take (distinct.length - (n + 1)) ++ distinct.rtake (n + 1) = distinct :=
    List.take_append_drop _ _
  have size : (distinct.rtake (n + 1)).length = n + 1 ∨
      distinct.take (distinct.length - (n + 1)) = [] ∧
        (distinct.rtake (n + 1)).length ≤ n := by
    simp only [List.rtake, List.length_drop, List.take_eq_nil_iff]
    omega
  generalize distinct.take (distinct.length - (n + 1)) = front at split size
  generalize distinct.rtake (n + 1) = back at split size ⊢
  rw [← split] at nodup ⊢
  by_cases remembered : value ∈ back
  · have other : value ∉ front := fun member =>
      (List.nodup_append.mp nodup).2.2 value member value remembered rfl
    have shorter := List.length_erase_of_mem remembered
    rw [use, if_pos remembered, List.erase_append_right _ other]
    rcases size with full | ⟨rfl, short⟩
    · rw [rtake_append_of_length front (by rw [shorter, full, Nat.add_sub_cancel])]
    · rw [List.nil_append, rtake_of_length_le (by omega)]
  · rw [use, if_neg remembered]
    rcases size with full | ⟨rfl, short⟩
    · rw [if_pos full]
      cases back with
      | nil => contradiction
      | cons oldest rest =>
          rw [List.tail_cons, erase_append_of_not_mem front remembered, List.append_cons _ oldest,
            rtake_append_of_length _ (Nat.succ.inj full)]
    · rw [if_neg (by omega), List.nil_append, List.erase_of_not_mem remembered,
        rtake_of_length_le short]

/-- A use of the most recent values leaves the most recent ones. -/
theorem use_mostRecent {capacity : Nat} (positive : 0 < capacity) (history : List α) (value : α) :
    use capacity (mostRecent capacity history) value =
      mostRecent capacity (history ++ [value]) := by
  rcases Nat.exists_eq_add_one.mpr positive with ⟨n, rfl⟩
  rw [mostRecent, mostRecent, dedup_concat, List.rtake_concat_succ,
    use_rtake (List.nodup_dedup history)]

/-- Along a history the list holds the most recent values. -/
theorem run_use {capacity : Nat} (positive : 0 < capacity) (history : List α) :
    run (use capacity) [] history = mostRecent capacity history := by
  induction history using List.reverseRecOn with
  | nil => exact (mostRecent_nil capacity).symm
  | append_singleton history value ih => rw [run_concat, ih, use_mostRecent positive]

end Elevator.Sequence
