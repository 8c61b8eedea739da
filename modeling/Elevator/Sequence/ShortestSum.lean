import Elevator.Sequence.PointwiseSum
import Mathlib.Order.MinMax

/-!
# Sums as long as the shortest

Sequences are added into a list that starts empty and is cut to the shorter of the two
each time.  An empty list is taken for the start, so a sequence without values makes the
list start anew.  Sequences that all have values give the sum of all of them, as long as
the shortest, in whatever order they come.
-/

namespace Elevator.Sequence

open Transition

universe u v

variable {α : Type u} [AddCommMonoid α]

/-- Adding values in place leaves the sums and what was longer. -/
theorem addValues_eq_map (values : Nat → α) (sum : List α) (n : Nat) :
    addValues values sum n =
      (List.range (max sum.length n)).map fun i =>
        sum.getD i 0 + if i < n then values i else 0 := by
  apply List.ext_getElem
  · rw [length_addValues, List.length_map, List.length_range]
  · intro i inside _
    have entry := getD_addValues values sum n i
    rw [List.getD_eq_getElem?_getD, List.getElem?_eq_getElem inside, Option.getD_some] at entry
    rw [entry, List.getElem_map, List.getElem_range]

/-- Add the first values of a sequence to a list, or start the list with them. -/
def addShortest (values : Nat → α) (count : Nat) (sum : List α) : List α :=
  if sum = [] then (List.range count).map values
  else (List.range (min sum.length count)).map fun i => sum.getD i 0 + values i

theorem length_addShortest (values : Nat → α) (count : Nat) (sum : List α) :
    (addShortest values count sum).length =
      if sum = [] then count else min sum.length count := by
  rw [addShortest]
  split <;> rw [List.length_map, List.length_range]

/-! ## Several sequences -/

variable {ι : Type v} (values : ι → Nat → α) (count : ι → Nat)

/-- Add the sequences of several sources, one after the other. -/
def sumShortest (sources : List ι) : List α :=
  run (fun sum source => addShortest (values source) (count source) sum) [] sources

/-- The number of values of the shortest source. -/
def shortest (sources : List ι) : Nat :=
  ((sources.map count).min?).getD 0

theorem sumShortest_concat (sources : List ι) (last : ι) :
    sumShortest values count (sources ++ [last]) =
      addShortest (values last) (count last) (sumShortest values count sources) :=
  run_concat _ _ sources last

theorem shortest_concat {sources : List ι} (nonempty : sources ≠ []) (last : ι) :
    shortest count (sources ++ [last]) = min (shortest count sources) (count last) := by
  cases sources with
  | nil => contradiction
  | cons source sources =>
      rw [shortest, shortest, List.cons_append, List.map_cons, List.map_cons, List.map_append,
        List.min?_cons', List.min?_cons', List.foldl_append]
      rfl

theorem lt_shortest_iff {sources : List ι} (nonempty : sources ≠ []) (n : Nat) :
    n < shortest count sources ↔ ∀ source ∈ sources, n < count source := by
  induction sources using List.reverseRecOn with
  | nil => contradiction
  | append_singleton sources last ih =>
      rcases List.eq_nil_or_concat sources with rfl | ⟨_, _, concat⟩
      · simp [shortest]
      · have before : sources ≠ [] := by
          rw [concat]
          simp
        rw [shortest_concat count before, lt_min_iff, ih before, List.forall_mem_append,
          List.forall_mem_singleton]

theorem shortest_perm {sources sources' : List ι} (order : sources.Perm sources') :
    shortest count sources = shortest count sources' := by
  by_cases empty : sources = []
  · rw [empty] at order
    rw [empty, order.nil_eq]
  · have nonempty : sources' ≠ [] := fun empty' => empty (empty' ▸ order).eq_nil
    apply eq_of_forall_lt_iff
    intro n
    rw [lt_shortest_iff count empty, lt_shortest_iff count nonempty]
    exact forall_congr' fun source => imp_congr_left order.mem_iff

/-- Sources that all have values give the sum of all of them. -/
theorem sumShortest_eq {sources : List ι} (positive : ∀ source ∈ sources, 0 < count source) :
    sumShortest values count sources =
      (List.range (shortest count sources)).map fun i =>
        (sources.map fun source => values source i).sum := by
  induction sources using List.reverseRecOn with
  | nil => rfl
  | append_singleton sources last ih =>
      obtain ⟨before, _⟩ := List.forall_mem_append.mp positive
      rw [sumShortest_concat, ih before, addShortest]
      by_cases first : sources = []
      · simp [first, shortest]
      · have some := (lt_shortest_iff count first 0).mpr before
        have started : (List.range (shortest count sources)).map
            (fun i => (sources.map fun source => values source i).sum) ≠ [] := by
          rw [ne_eq, List.map_eq_nil_iff, List.range_eq_nil]
          exact some.ne'
        rw [if_neg started, List.length_map, List.length_range, shortest_concat count first]
        apply List.map_congr_left
        intro i member
        have inside := (lt_min_iff.mp (List.mem_range.mp member)).1
        rw [List.map_append, List.sum_append, List.map_singleton, List.sum_singleton]
        simp [List.getD_eq_getElem?_getD, inside]

/-- Behind a source without values the list starts anew. -/
theorem sumShortest_restarts (before : List ι) {none : ι} (empty : count none = 0) (last : ι) :
    sumShortest values count (before ++ [none] ++ [last]) =
      (List.range (count last)).map (values last) := by
  have cut : sumShortest values count (before ++ [none]) = [] := by
    rw [sumShortest_concat, ← List.length_eq_zero_iff, length_addShortest, empty]
    split
    · rfl
    · exact Nat.min_zero _
  rw [sumShortest_concat, cut, addShortest, if_pos rfl]

/-- Of sources of which none has values nothing is left. -/
theorem sumShortest_of_empty {sources : List ι} (empty : ∀ source ∈ sources, count source = 0) :
    sumShortest values count sources = [] := by
  induction sources using List.reverseRecOn with
  | nil => rfl
  | append_singleton sources last ih =>
      obtain ⟨before, final⟩ := List.forall_mem_append.mp empty
      rw [sumShortest_concat, ih before, addShortest, if_pos rfl,
        List.forall_mem_singleton.mp final]
      rfl

/-- Two sources can be the last ones, in either order. -/
theorem exists_perm_last {sources : List ι} {first last : ι} (member : first ∈ sources)
    (member' : last ∈ sources) (different : last ≠ first) :
    ∃ before, (before ++ [first] ++ [last]).Perm sources := by
  obtain ⟨front, back, rfl⟩ := List.append_of_mem member
  have other : last ∈ front ++ back := by
    simpa [different] using member'
  obtain ⟨front', back', split⟩ := List.append_of_mem other
  have order : (front' ++ back' ++ [first] ++ [last]).Perm (front ++ first :: back) := by
    apply List.Perm.trans _ List.perm_middle.symm
    rw [split, List.append_assoc]
    apply (@List.perm_append_comm _ (front' ++ back') ([first] ++ [last])).trans
    change (first :: last :: (front' ++ back')).Perm _
    exact List.perm_middle.symm.cons first
  exact ⟨_, order⟩

/-- The sum is as long as the shortest source in every order exactly if all of the sources
have values or none of them has. -/
theorem length_sumShortest_iff (sources : List ι) :
    (∀ order : List ι, order.Perm sources →
        (sumShortest values count order).length = shortest count sources) ↔
      (∀ source ∈ sources, 0 < count source) ∨ ∀ source ∈ sources, count source = 0 := by
  constructor
  · intro lengths
    by_contra neither
    obtain ⟨notAll, some⟩ := not_or.mp neither
    push Not at notAll some
    obtain ⟨none, member, zero⟩ := notAll
    obtain ⟨last, member', nonzero⟩ := some
    have empty : count none = 0 := Nat.le_zero.mp zero
    have different : last ≠ none := fun same => nonzero (same ▸ empty)
    obtain ⟨before, order⟩ := exists_perm_last member member' different
    -- The source behind the one without values is the whole sum.
    have restarted := lengths _ order
    rw [sumShortest_restarts values count _ empty, List.length_map, List.length_range] at restarted
    have reaches := (lt_shortest_iff count (List.ne_nil_of_mem member) 0).mp
      (restarted ▸ Nat.pos_of_ne_zero nonzero) none member
    exact Nat.lt_irrefl 0 (empty ▸ reaches)
  · rintro (positive | empty) order perm
    · rw [sumShortest_eq values count fun source member => positive source (perm.mem_iff.mp member),
        List.length_map, List.length_range, shortest_perm count perm]
    · rw [sumShortest_of_empty values count fun source member =>
        empty source (perm.mem_iff.mp member)]
      by_cases nonempty : sources = []
      · rw [nonempty]
        rfl
      · apply Eq.symm
        apply Nat.eq_zero_of_not_pos
        intro some
        obtain ⟨source, member⟩ := List.exists_mem_of_ne_nil sources nonempty
        have positive := (lt_shortest_iff count nonempty 0).mp some source member
        rw [empty source member] at positive
        exact Nat.lt_irrefl 0 positive

end Elevator.Sequence
