import Mathlib.Algebra.Group.Nat.Defs
import Mathlib.Data.List.Infix

/-!
# Runs of total labelled steps

A component is a total step function `σ → ι → σ` on an explicit state.  This
leaf module supplies its runs over finite label lists, the invariant rule, the
rules of counted loops, the label that still stands at the end of a run, and the
rule that decides along which runs a state property always holds: a guard whose
steps preserve an invariant implying the property, and whose violation breaks the
property at once, is the exact condition.
-/

namespace Elevator.Transition

universe u v

variable {σ : Type u} {ι : Type v}

/-- Execute the labels from left to right. -/
def run (step : σ → ι → σ) (state : σ) (labels : List ι) : σ :=
  labels.foldl step state

@[simp]
theorem run_nil (step : σ → ι → σ) (state : σ) : run step state [] = state :=
  rfl

@[simp]
theorem run_cons (step : σ → ι → σ) (state : σ) (label : ι) (labels : List ι) :
    run step state (label :: labels) = run step (step state label) labels :=
  rfl

theorem run_append (step : σ → ι → σ) (state : σ) (first second : List ι) :
    run step state (first ++ second) = run step (run step state first) second :=
  List.foldl_append

theorem run_concat (step : σ → ι → σ) (state : σ) (labels : List ι) (last : ι) :
    run step state (labels ++ [last]) = step (run step state labels) last := by
  rw [run_append, run_cons, run_nil]

/-- An invariant preserved by every admitted label holds after every run of
admitted labels. -/
theorem run_invariant_of_forall {step : σ → ι → σ} {inv : σ → Prop} {admitted : ι → Prop}
    (preserved : ∀ state label, admitted label → inv state → inv (step state label))
    {state : σ} (start : inv state) {labels : List ι}
    (all : ∀ label ∈ labels, admitted label) : inv (run step state labels) := by
  induction labels generalizing state with
  | nil => exact start
  | cons label labels ih =>
      rcases List.forall_mem_cons.mp all with ⟨first, rest⟩
      exact ih (preserved state label first start) rest

/-- The invariant rule: what holds initially and is kept by every step holds
after every run. -/
theorem run_invariant {step : σ → ι → σ} {inv : σ → Prop}
    (preserved : ∀ state label, inv state → inv (step state label))
    {state : σ} (start : inv state) (labels : List ι) : inv (run step state labels) :=
  @run_invariant_of_forall _ _ step inv (fun _ => True)
    (fun state label _ => preserved state label) state start labels (fun _ _ => trivial)

/-- Labels that change nothing may be left out of a run. -/
theorem run_filter {step : σ → ι → σ} {inv : σ → Prop} {test : ι → Prop} [DecidablePred test]
    (preserved : ∀ state label, inv state → inv (step state label))
    (idle : ∀ state label, inv state → ¬ test label → step state label = state)
    {state : σ} (start : inv state) (labels : List ι) :
    run step state (labels.filter test) = run step state labels := by
  induction labels generalizing state with
  | nil => rfl
  | cons label labels ih =>
      rw [List.filter_cons, run_cons]
      by_cases passes : test label
      · rw [if_pos (decide_eq_true passes), run_cons, ih (preserved state label start)]
      · rw [if_neg (by simpa using passes), idle state label start passes, ih start]

/-- Reading labels off others. -/
theorem run_comp {κ : Type*} (step : σ → ι → σ) (label : κ → ι) (state : σ) (entries : List κ) :
    run (fun state entry => step state (label entry)) state entries =
      run step state (entries.map label) :=
  List.foldl_map.symm

/-- The rule of counted loops: what holds at index zero and goes from each index to
the next holds at the end. -/
theorem run_finRange {n : Nat} {step : σ → Fin n → σ} {inv : Nat → σ → Prop}
    (preserved : ∀ (i : Fin n) state, inv i state → inv (i + 1) (step state i)) {state : σ}
    (start : inv 0 state) : inv n (run step state (List.finRange n)) := by
  have upTo : ∀ k ≤ n, inv k (run step state ((List.finRange n).take k)) := by
    intro k
    induction k with
    | zero => exact fun _ => start
    | succ k ih =>
        intro within
        have inside : k < (List.finRange n).length :=
          Nat.lt_of_lt_of_le within List.length_finRange.ge
        rw [← List.take_concat_get' _ _ inside, run_concat, List.getElem_finRange]
        exact preserved ⟨k, within⟩ _ (ih (Nat.le_of_succ_le within))
  have all := upTo n (Nat.le_refl n)
  rwa [List.take_of_length_le (by simp)] at all

/-- A loop over an index of 32 bits, with fuel: the body runs as long as the index is
below the bound, which it may change. -/
def countedLoop (body : σ → Nat → σ) (bound : σ → Nat) : Nat → σ → UInt32 → Option σ
  | 0, _, _ => none
  | fuel + 1, state, i =>
      if i.toNat < bound state then countedLoop body bound fuel (body state i.toNat) (i + 1)
      else some state

section CountedLoop

variable {body : σ → Nat → σ} {bound : σ → Nat} {inv : σ → Prop} {n : Nat}

/-- Where an invariant fixes the bound within 32 bits, the loop runs its body for every
index that is left. -/
theorem countedLoop_eq_run (sound : ∀ state, inv state → bound state = n)
    (kept : ∀ state i, i < n → inv state → inv (body state i)) (small : n < 2 ^ 32)
    {count fuel : Nat} (enough : count < fuel) {state : σ} (start : inv state) {i : UInt32}
    (left : i.toNat + count = n) :
    countedLoop body bound fuel state i = some (run body state (List.range' i.toNat count)) ∧
      inv (run body state (List.range' i.toNat count)) := by
  have fixed := sound state start
  induction count generalizing fuel state i with
  | zero =>
      rcases Nat.exists_eq_add_one.mpr enough with ⟨rest, rfl⟩
      rw [countedLoop, if_neg (by omega)]
      exact ⟨rfl, start⟩
  | succ count ih =>
      rcases Nat.exists_eq_add_one.mpr (Nat.zero_lt_of_lt enough) with ⟨rest, rfl⟩
      have one : (1 : UInt32).toNat = 1 := rfl
      have next : (i + 1).toNat = i.toNat + 1 := by
        rw [UInt32.toNat_add, one, Nat.mod_eq_of_lt (by omega)]
      have turned := kept state i.toNat (by omega) start
      have left' : (i + 1).toNat + count = n := by omega
      have rest := ih (Nat.lt_of_succ_lt_succ enough) turned left' (sound _ turned)
      rw [next] at rest
      rw [countedLoop, if_pos (by omega), List.range'_succ, run_cons]
      exact rest

/-- The rule for a fixed bound. -/
theorem countedLoop_const (small : n < 2 ^ 32) {fuel : Nat} (enough : n < fuel) (state : σ) :
    countedLoop body (fun _ => n) fuel state 0 = some (run body state (List.range n)) := by
  rw [List.range_eq_range']
  exact (@countedLoop_eq_run _ body _ (fun _ => True) n (fun _ _ => rfl)
    (fun _ _ _ _ => trivial) small _ _ enough state trivial 0 (Nat.zero_add n)).1

/-- A bound of more than 32 bits is never reached. -/
theorem countedLoop_const_of_long (long : 2 ^ 32 ≤ n) (fuel : Nat) (state : σ) (i : UInt32) :
    countedLoop body (fun _ => n) fuel state i = none := by
  induction fuel generalizing state i with
  | zero => rfl
  | succ fuel ih => rw [countedLoop, if_pos (Nat.lt_of_lt_of_le i.toNat_lt long), ih]

end CountedLoop

/-- A projection that commutes with every step commutes with runs. -/
theorem run_map {τ : Type*} {step : σ → ι → σ} {step' : τ → ι → τ} {f : σ → τ}
    (commutes : ∀ state label, f (step state label) = step' (f state) label) (state : σ)
    (labels : List ι) : f (run step state labels) = run step' (f state) labels := by
  induction labels generalizing state with
  | nil => rfl
  | cons label labels ih => rw [run_cons, run_cons, ih, commutes]

/-- Some label `sets`, and no later one `ends` it. -/
def Standing (sets ends : ι → Prop) (labels : List ι) : Prop :=
  ∃ before label after,
    labels = before ++ label :: after ∧ sets label ∧ ∀ later ∈ after, ¬ ends later

theorem not_standing_nil {sets ends : ι → Prop} : ¬ Standing sets ends [] := by
  rintro ⟨before, label, after, split, _⟩
  simp at split

theorem standing_concat_iff {sets ends : ι → Prop} {labels : List ι} {last : ι} :
    Standing sets ends (labels ++ [last]) ↔
      sets last ∨ Standing sets ends labels ∧ ¬ ends last := by
  constructor
  · rintro ⟨before, label, after, split, set, open'⟩
    rcases List.eq_nil_or_concat after with rfl | ⟨after, final, rfl⟩
    · rcases List.append_inj' split rfl with ⟨_, same⟩
      cases same
      exact Or.inl set
    · rw [List.concat_eq_append, ← List.cons_append, ← List.append_assoc] at split
      rcases List.append_inj' split rfl with ⟨same, lastSame⟩
      cases lastSame
      refine Or.inr ⟨⟨before, label, after, same, set, fun later member => ?_⟩, ?_⟩
      · exact open' later (by simp [member])
      · exact open' last (by simp)
  · rintro (set | ⟨⟨before, label, after, rfl, set, open'⟩, goesOn⟩)
    · exact ⟨labels, last, [], rfl, set, by simp⟩
    · refine ⟨before, label, after ++ [last], by simp, set, fun later member => ?_⟩
      rcases List.mem_append.mp member with earlier | final
      · exact open' later earlier
      · rwa [List.mem_singleton.mp final]

/-- `holds` is true in every state the run passes through, the last included. -/
def Always (step : σ → ι → σ) (holds : σ → Prop) (state : σ) (labels : List ι) : Prop :=
  ∀ done, done <+: labels → holds (run step state done)

/-- Every step of the run is taken in a state that admits its label. -/
def EveryStep (step : σ → ι → σ) (admits : σ → ι → Prop) (state : σ) (labels : List ι) : Prop :=
  ∀ done next, done ++ [next] <+: labels → admits (run step state done) next

theorem always_nil_iff {step : σ → ι → σ} {holds : σ → Prop} {state : σ} :
    Always step holds state [] ↔ holds state := by
  simp [Always]

theorem always_cons_iff {step : σ → ι → σ} {holds : σ → Prop} {state : σ} {label : ι}
    {labels : List ι} :
    Always step holds state (label :: labels) ↔
      holds state ∧ Always step holds (step state label) labels := by
  constructor
  · intro always
    constructor
    · exact always [] List.nil_prefix
    · intro done isPrefix
      exact always (label :: done) ((List.prefix_cons_inj label).mpr isPrefix)
  · rintro ⟨first, rest⟩ done isPrefix
    rcases List.prefix_cons_iff.mp isPrefix with rfl | ⟨done, rfl, restPrefix⟩
    · exact first
    · exact rest done restPrefix

theorem everyStep_nil {step : σ → ι → σ} {admits : σ → ι → Prop} {state : σ} :
    EveryStep step admits state [] := by
  intro done next isPrefix
  simp at isPrefix

theorem everyStep_cons_iff {step : σ → ι → σ} {admits : σ → ι → Prop} {state : σ} {label : ι}
    {labels : List ι} :
    EveryStep step admits state (label :: labels) ↔
      admits state label ∧ EveryStep step admits (step state label) labels := by
  constructor
  · intro every
    constructor
    · exact every [] label (by simp)
    · intro done next isPrefix
      exact every (label :: done) next ((List.prefix_cons_inj label).mpr isPrefix)
  · rintro ⟨first, rest⟩ done next isPrefix
    cases done with
    | nil =>
        rcases List.cons_prefix_cons.mp isPrefix with ⟨rfl, _⟩
        exact first
    | cons head done =>
        rcases List.cons_prefix_cons.mp isPrefix with ⟨rfl, restPrefix⟩
        exact rest done next restPrefix

/-- What always holds along labels that are read off others. -/
theorem always_comp_iff {κ : Type*} {step : σ → ι → σ} {holds : σ → Prop} {label : κ → ι}
    {state : σ} {entries : List κ} :
    Always (fun state entry => step state (label entry)) holds state entries ↔
      Always step holds state (entries.map label) := by
  induction entries generalizing state with
  | nil => rw [List.map_nil, always_nil_iff, always_nil_iff]
  | cons entry entries ih => rw [List.map_cons, always_cons_iff, always_cons_iff, ih]

/-- A guard that keeps an invariant along the run keeps what the invariant implies. -/
theorem always_of_everyStep {step : σ → ι → σ} {holds inv : σ → Prop}
    {admits : σ → ι → Prop} (sound : ∀ state, inv state → holds state)
    (keeps : ∀ state label, inv state → admits state label → inv (step state label))
    {state : σ} (start : inv state) {labels : List ι}
    (admitted : EveryStep step admits state labels) : Always step holds state labels := by
  induction labels generalizing state with
  | nil => exact always_nil_iff.mpr (sound state start)
  | cons label labels ih =>
      obtain ⟨first, rest⟩ := everyStep_cons_iff.mp admitted
      rw [always_cons_iff]
      exact ⟨sound state start, ih (keeps state label start first) rest⟩

/-- Along a run of guarded steps a condition that keeps an invariant, and whose first
violation breaks the property at once, is exactly when the property always holds. -/
theorem always_iff_everyStep_of_guarded {step : σ → ι → σ} {holds inv : σ → Prop}
    {guarded admits : σ → ι → Prop}
    (sound : ∀ state, inv state → holds state)
    (keeps : ∀ state label, inv state → guarded state label → admits state label →
      inv (step state label))
    (breaks : ∀ state label, inv state → guarded state label → ¬ admits state label →
      ¬ holds (step state label))
    {state : σ} (start : inv state) {labels : List ι}
    (guards : EveryStep step guarded state labels) :
    Always step holds state labels ↔ EveryStep step admits state labels := by
  induction labels generalizing state with
  | nil => exact ⟨fun _ => everyStep_nil, fun _ => always_nil_iff.mpr (sound state start)⟩
  | cons label labels ih =>
      obtain ⟨guard, guardsRest⟩ := everyStep_cons_iff.mp guards
      rw [always_cons_iff, everyStep_cons_iff]
      by_cases admitted : admits state label
      · have rest := ih (keeps state label start guard admitted) guardsRest
        simp only [sound state start, admitted, rest, true_and]
      · have broken : ¬ Always step holds (step state label) labels := fun always =>
          breaks state label start guard admitted (always [] List.nil_prefix)
        simp only [broken, admitted, and_false, false_and]

/-- A guard that keeps an invariant along the run, and whose first violation
breaks the property at once, is exactly when the property always holds. -/
theorem always_iff_everyStep {step : σ → ι → σ} {holds inv : σ → Prop}
    {admits : σ → ι → Prop}
    (sound : ∀ state, inv state → holds state)
    (keeps : ∀ state label, inv state → admits state label → inv (step state label))
    (breaks : ∀ state label, inv state → ¬ admits state label → ¬ holds (step state label))
    {state : σ} (start : inv state) (labels : List ι) :
    Always step holds state labels ↔ EveryStep step admits state labels :=
  @always_iff_everyStep_of_guarded _ _ step holds inv (fun _ _ => True) admits sound
    (fun state label start _ => keeps state label start)
    (fun state label start _ => breaks state label start) state start labels
    fun _ _ _ => trivial

/-- A run beside one that it commutes with is guarded by what guards the other. -/
theorem everyStep_map_iff {τ : Type*} {step : σ → ι → σ} {step' : τ → ι → τ} {f : σ → τ}
    (commutes : ∀ state label, f (step state label) = step' (f state) label)
    {admits : τ → ι → Prop} {state : σ} {labels : List ι} :
    EveryStep step (fun state label => admits (f state) label) state labels ↔
      EveryStep step' admits (f state) labels := by
  simp only [EveryStep, run_map commutes]

end Elevator.Transition
