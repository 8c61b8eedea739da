import Elevator.Transition.Run
import Mathlib.Algebra.BigOperators.Group.List.Basic

/-!
# Pointwise sums

A list is grown in place: a value is added where there is an entry and appended
where the list ends.  Adding the first values of a sequence one by one gives their
pointwise sum with the list, as long as the longer of the two.  Adding several
sequences gives the sum of all of them at each index that reach it, so their order
is of no account.
-/

namespace Elevator.Sequence

open Transition

universe u v

/-- Steps that are only taken below a bound end there. -/
theorem run_range_below {σ : Type u} (step : σ → Nat → σ) (state : σ) (n bound : Nat) :
    run (fun state i => if i < bound then step state i else state) state (List.range n) =
      run step state (List.range (min n bound)) := by
  induction n with
  | zero => simp
  | succ n ih =>
      rw [List.range_succ, run_concat, ih]
      by_cases below : n < bound
      · rw [if_pos below, Nat.min_eq_left below.le, Nat.min_eq_left below, List.range_succ,
          run_concat]
      · rw [if_neg below, Nat.min_eq_right (Nat.le_of_not_lt below),
          Nat.min_eq_right (Nat.le_succ_of_le (Nat.le_of_not_lt below))]

variable {α : Type u} [AddCommMonoid α]

/-- Add a value to entry `i`, or append it. -/
def addOrAppend (sum : List α) (i : Nat) (value : α) : List α :=
  if i < sum.length then sum.set i (sum.getD i 0 + value) else sum ++ [value]

theorem length_addOrAppend {sum : List α} {i : Nat} (reached : i ≤ sum.length) (value : α) :
    (addOrAppend sum i value).length = max sum.length (i + 1) := by
  unfold addOrAppend
  split
  · rename_i inside
    rw [List.length_set, Nat.max_eq_left inside]
  · rw [List.length_append, List.length_singleton]
    omega

theorem getD_addOrAppend {sum : List α} {i : Nat} (reached : i ≤ sum.length) (value : α)
    (j : Nat) :
    (addOrAppend sum i value).getD j 0 = sum.getD j 0 + if j = i then value else 0 := by
  unfold addOrAppend
  split
  · rename_i inside
    by_cases same : j = i
    · subst same
      simp [List.getD_eq_getElem?_getD, inside]
    · simp [List.getD_eq_getElem?_getD, Ne.symm same, same]
  · rename_i outside
    have end' : i = sum.length := Nat.le_antisymm reached (Nat.le_of_not_lt outside)
    subst end'
    rcases Nat.lt_trichotomy j sum.length with before | rfl | behind
    · simp [List.getD_eq_getElem?_getD, List.getElem?_append_left before, before.ne]
    · simp [List.getD_eq_getElem?_getD]
    · have past : (sum ++ [value]).length ≤ j := by
        rw [List.length_append]
        exact behind
      simp [List.getD_eq_getElem?_getD, List.getElem?_eq_none past, behind.le, behind.ne']

/-- Add the first `n` values of a sequence. -/
def addValues (values : Nat → α) (sum : List α) (n : Nat) : List α :=
  run (fun sum i => addOrAppend sum i (values i)) sum (List.range n)

theorem addValues_succ (values : Nat → α) (sum : List α) (n : Nat) :
    addValues values sum (n + 1) = addOrAppend (addValues values sum n) n (values n) := by
  rw [addValues, List.range_succ, run_concat]
  rfl

theorem length_addValues (values : Nat → α) (sum : List α) (n : Nat) :
    (addValues values sum n).length = max sum.length n := by
  induction n with
  | zero => exact (Nat.max_eq_left (Nat.zero_le _)).symm
  | succ n ih =>
      have reached : n ≤ (addValues values sum n).length := ih ▸ Nat.le_max_right _ _
      rw [addValues_succ, length_addOrAppend reached, ih]
      omega

theorem getD_addValues (values : Nat → α) (sum : List α) (n i : Nat) :
    (addValues values sum n).getD i 0 = sum.getD i 0 + if i < n then values i else 0 := by
  induction n with
  | zero => exact (add_zero _).symm
  | succ n ih =>
      have reached : n ≤ (addValues values sum n).length :=
        length_addValues values sum n ▸ Nat.le_max_right _ _
      rw [addValues_succ, getD_addOrAppend reached, ih]
      rcases Nat.lt_trichotomy i n with before | rfl | behind
      · simp [before, before.ne, Nat.lt_succ_of_lt before]
      · simp
      · simp [Nat.not_lt.mpr behind.le, behind.ne', Nat.not_lt.mpr behind]

/-! ## Several sequences -/

variable {ι : Type v} (values : ι → Nat → α) (count : ι → Nat)

/-- Add what each of several sources contributes, one source after the other. -/
def addAll (sum : List α) (sources : List ι) : List α :=
  run (fun sum source => addValues (values source) sum (count source)) sum sources

/-- The sum at an index over the sources that reach it. -/
def total (sources : List ι) (i : Nat) : α :=
  ((sources.filter fun source => i < count source).map fun source => values source i).sum

/-- The number of values of the longest source. -/
def longest (sources : List ι) : Nat :=
  (sources.map count).foldr max 0

theorem total_concat (sources : List ι) (last : ι) (i : Nat) :
    total values count (sources ++ [last]) i =
      total values count sources i + if i < count last then values last i else 0 := by
  rw [total, List.filter_append, List.filter_singleton]
  by_cases reaches : i < count last <;> simp [reaches, total]

theorem longest_concat (sources : List ι) (last : ι) :
    longest count (sources ++ [last]) = max (longest count sources) (count last) := by
  induction sources with
  | nil => exact (Nat.max_comm _ _)
  | cons source sources ih =>
      change max _ (longest count (sources ++ [last])) = max (max _ (longest count sources)) _
      rw [ih, Nat.max_assoc]

theorem length_addAll (sources : List ι) :
    (addAll values count [] sources).length = longest count sources := by
  induction sources using List.reverseRecOn with
  | nil => rfl
  | append_singleton sources last ih =>
      rw [addAll] at ih ⊢
      rw [run_concat, length_addValues, ih, longest_concat]

theorem getD_addAll (sources : List ι) (i : Nat) :
    (addAll values count [] sources).getD i 0 = total values count sources i := by
  induction sources using List.reverseRecOn with
  | nil => rfl
  | append_singleton sources last ih =>
      rw [addAll] at ih ⊢
      rw [run_concat, getD_addValues, ih, total_concat]

/-- The pointwise sum of the sources. -/
def pointwiseSum (sources : List ι) : List α :=
  (List.range (longest count sources)).map (total values count sources)

theorem length_pointwiseSum (sources : List ι) :
    (pointwiseSum values count sources).length = longest count sources := by
  rw [pointwiseSum, List.length_map, List.length_range]

/-- Shorter sources make a shorter sum. -/
theorem longest_le_longest {count count' : ι → Nat} (le : ∀ source, count source ≤ count' source)
    (sources : List ι) : longest count sources ≤ longest count' sources := by
  induction sources with
  | nil => exact Nat.le_refl _
  | cons source sources ih =>
      change max (count source) (longest count sources) ≤
        max (count' source) (longest count' sources)
      have first := le source
      omega

theorem longest_lt {bound : Nat} (positive : 0 < bound) {sources : List ι}
    (lt : ∀ source ∈ sources, count source < bound) : longest count sources < bound := by
  induction sources with
  | nil => exact positive
  | cons source sources ih =>
      rcases List.forall_mem_cons.mp lt with ⟨first, rest⟩
      exact Nat.max_lt.mpr ⟨first, ih rest⟩

theorem addAll_eq_pointwiseSum (sources : List ι) :
    addAll values count [] sources = pointwiseSum values count sources := by
  apply List.ext_getElem
  · rw [length_addAll, length_pointwiseSum]
  · intro i inside _
    have entry := getD_addAll values count sources i
    rw [List.getD_eq_getElem?_getD, List.getElem?_eq_getElem inside, Option.getD_some] at entry
    simp only [entry, pointwiseSum, List.getElem_map, List.getElem_range]

/-! ## The order of the sources -/

theorem total_perm {sources sources' : List ι} (order : sources.Perm sources') (i : Nat) :
    total values count sources i = total values count sources' i :=
  ((order.filter _).map _).sum_eq

theorem longest_perm {sources sources' : List ι} (order : sources.Perm sources') :
    longest count sources = longest count sources' :=
  (order.map count).foldr_eq' (fun m _ n _ k => Nat.max_left_comm n m k) 0

theorem pointwiseSum_perm {sources sources' : List ι} (order : sources.Perm sources') :
    pointwiseSum values count sources = pointwiseSum values count sources' := by
  rw [pointwiseSum, pointwiseSum, longest_perm count order]
  exact List.map_congr_left fun i _ => total_perm values count order i

end Elevator.Sequence
