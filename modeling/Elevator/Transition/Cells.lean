import Elevator.Transition.Run
import Mathlib.Data.List.Count
import Mathlib.Logic.Function.Iterate
import Mathlib.Logic.Function.Basic

/-!
# Runs on independent cells

A memory is a function from addresses.  A step that works on the cell at its
label alone leaves in each cell what the steps with that label do, so the order of
the labels is of no account.  A step that writes its label under a key leaves the
last label of each key.
-/

namespace Elevator.Transition

universe u v w

variable {ι : Type u}

section Cells

variable {α : Type v} [DecidableEq ι]

/-- Work on the cell at an address. -/
def onCell (f : ι → α → α) (mem : ι → α) (address : ι) : ι → α :=
  Function.update mem address (f address (mem address))

theorem onCell_self (f : ι → α → α) (mem : ι → α) (address : ι) :
    onCell f mem address address = f address (mem address) :=
  Function.update_self ..

theorem onCell_of_ne {f : ι → α → α} {mem : ι → α} {address other : ι}
    (distinct : other ≠ address) :
    onCell f mem address other = mem other :=
  Function.update_of_ne distinct ..

/-- A cell is worked on as often as its address occurs. -/
theorem run_onCell (f : ι → α → α) (mem : ι → α) (labels : List ι) (address : ι) :
    run (onCell f) mem labels address = (f address)^[labels.count address] (mem address) := by
  induction labels generalizing mem with
  | nil => rfl
  | cons label labels ih =>
      rw [run_cons, ih]
      by_cases same : label = address
      · subst same
        rw [onCell_self, List.count_cons_self, Function.iterate_succ_apply]
      · rw [onCell_of_ne (Ne.symm same), List.count_cons_of_ne same]

/-- The order of the labels is of no account. -/
theorem run_onCell_perm {f : ι → α → α} {labels labels' : List ι} (order : labels.Perm labels')
    (mem : ι → α) : run (onCell f) mem labels = run (onCell f) mem labels' := by
  funext address
  rw [run_onCell, run_onCell, order.count_eq]

end Cells

section Keys

variable {κ : Type w} [DecidableEq κ]

/-- Write a label under its key. -/
def assign (key : ι → κ) (table : κ → Option ι) (label : ι) : κ → Option ι :=
  Function.update table (key label) (some label)

/-- A key is left with a label of its own, if some label has it. -/
theorem run_assign_isSome (key : ι → κ) {labels : List ι} {label : ι} (member : label ∈ labels) :
    ∃ last ∈ labels, run (assign key) (fun _ => none) labels (key label) = some last ∧
      key last = key label := by
  induction labels using List.reverseRecOn with
  | nil => contradiction
  | append_singleton labels last ih =>
      rw [run_concat, assign]
      by_cases same : key label = key last
      · exact ⟨last, by simp, by rw [same, Function.update_self], same.symm⟩
      · rw [Function.update_of_ne same]
        rcases List.mem_append.mp member with earlier | final
        · rcases ih earlier with ⟨found, among, written, own⟩
          exact ⟨found, List.mem_append_left _ among, written, own⟩
        · rw [List.mem_singleton.mp final] at same
          contradiction

end Keys

end Elevator.Transition
