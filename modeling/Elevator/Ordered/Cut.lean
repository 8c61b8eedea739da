import Mathlib.Data.List.InsertIdx
import Mathlib.Data.List.Pairwise
import Mathlib.Data.List.TakeWhile
import Mathlib.Order.Lattice

/-!
# Cuts of ordered lists

A test that holds on an initial segment of a list cuts it at one position, the
number of elements passing the test.  Binary search over a vector and descent
in a search tree both compute such a position, so their facts are stated here
once.  The second part applies them to lists that strictly ascend in a key: the
cut of "key below `k`" is the rank of `k`, where a record with that key stands or
has to be inserted.
-/

namespace Elevator.Ordered

universe u v

variable {α : Type u} {κ : Type v}

/-- `p` holds on an initial segment of `l` and nowhere behind it. -/
def IsCut (p : α → Bool) (l : List α) : Prop :=
  l.Pairwise fun x y => p y → p x

theorem IsCut.tail {p : α → Bool} {x : α} {l : List α} (cut : IsCut p (x :: l)) : IsCut p l :=
  List.Pairwise.of_cons cut

theorem IsCut.of_append {p : α → Bool} {front back : List α} (cut : IsCut p (front ++ back)) :
    IsCut p front ∧ IsCut p back :=
  ⟨(List.pairwise_append.mp cut).1, (List.pairwise_append.mp cut).2.1⟩

theorem IsCut.forall_false {p : α → Bool} {x : α} {l : List α} (cut : IsCut p (x :: l))
    (fails : p x = false) : ∀ y ∈ l, p y = false := by
  intro y member
  have implied := List.rel_of_pairwise_cons cut member
  cases holds : p y with
  | false => rfl
  | true => rw [implied holds] at fails; contradiction

/-- A passing element has only passing elements before it. -/
theorem IsCut.countP_of_pos {p : α → Bool} {x : α} {front back : List α}
    (cut : IsCut p (front ++ x :: back)) (passes : p x = true) :
    (front ++ x :: back).countP p = front.length + 1 + back.countP p := by
  have all : ∀ y ∈ front, p y = true := fun y member =>
    (List.pairwise_append.mp cut).2.2 y member x List.mem_cons_self passes
  rw [List.countP_append, List.countP_eq_length.mpr all, List.countP_cons_of_pos passes]
  omega

/-- A failing element has only failing elements behind it. -/
theorem IsCut.countP_of_neg {p : α → Bool} {x : α} {front back : List α}
    (cut : IsCut p (front ++ x :: back)) (fails : p x = false) :
    (front ++ x :: back).countP p = front.countP p := by
  have none := cut.of_append.2.forall_false fails
  have zero : back.countP p = 0 :=
    List.countP_eq_zero.mpr fun y member => by simp [none y member]
  rw [List.countP_append, List.countP_cons_of_neg (by simp [fails]), zero, Nat.add_zero]

/-- The cut position is the length of the passing initial segment. -/
theorem IsCut.countP_eq_length_takeWhile {p : α → Bool} {l : List α} (cut : IsCut p l) :
    l.countP p = (l.takeWhile p).length := by
  induction l with
  | nil => rfl
  | cons x l ih =>
      cases holds : p x with
      | true => simp [holds, ih cut.tail]
      | false =>
          have none : l.countP p = 0 :=
            List.countP_eq_zero.mpr fun y member => by simp [cut.forall_false holds y member]
          simp [holds, none]

theorem IsCut.take_countP {p : α → Bool} {l : List α} (cut : IsCut p l) :
    l.take (l.countP p) = l.takeWhile p := by
  rw [cut.countP_eq_length_takeWhile]
  exact (List.prefix_iff_eq_take.mp (List.takeWhile_prefix p)).symm

/-- Positions before the cut are exactly those whose element passes. -/
theorem IsCut.lt_countP_iff {p : α → Bool} {l : List α} (cut : IsCut p l) {i : Nat}
    (inside : i < l.length) : i < l.countP p ↔ p l[i] = true := by
  induction l generalizing i with
  | nil => simp at inside
  | cons x l ih =>
      cases holds : p x with
      | true =>
          cases i with
          | zero => simp [holds]
          | succ i =>
              have inside' : i < l.length := by simpa using inside
              simp [holds, ih cut.tail inside']
      | false =>
          have none := cut.forall_false holds
          have zero : l.countP p = 0 :=
            List.countP_eq_zero.mpr fun y member => by simp [none y member]
          cases i with
          | zero => simp [holds, zero]
          | succ i =>
              have inside' : i < l.length := by simpa using inside
              simp [holds, zero, none _ (List.getElem_mem inside')]

/-- Inserting at the cut splits the list into passing and failing elements. -/
theorem IsCut.insertIdx_countP {p : α → Bool} {l : List α} (cut : IsCut p l) (x : α) :
    l.insertIdx (l.countP p) x = l.takeWhile p ++ x :: l.dropWhile p := by
  induction l with
  | nil => rfl
  | cons y l ih =>
      cases holds : p y with
      | true => simp [holds, ih cut.tail]
      | false =>
          have zero : l.countP p = 0 :=
            List.countP_eq_zero.mpr fun z member => by simp [cut.forall_false holds z member]
          simp [holds, zero]

theorem IsCut.forall_dropWhile {p : α → Bool} {l : List α} (cut : IsCut p l) :
    ∀ y ∈ l.dropWhile p, p y = false := by
  induction l with
  | nil => simp
  | cons x l ih =>
      cases holds : p x with
      | true => simpa [holds] using ih cut.tail
      | false => simpa [holds] using cut.forall_false holds

/-- Behind the cut stand the failing elements. -/
theorem IsCut.mem_drop_countP_iff {p : α → Bool} {l : List α} (cut : IsCut p l) {x : α} :
    x ∈ l.drop (l.countP p) ↔ x ∈ l ∧ p x = false := by
  have behind : l.drop (l.countP p) = l.dropWhile p := by
    apply @List.append_cancel_left _ (l.take (l.countP p))
    rw [List.take_append_drop, cut.take_countP, List.takeWhile_append_dropWhile]
  rw [behind]
  constructor
  · intro member
    exact ⟨(List.dropWhile_sublist p).subset member, cut.forall_dropWhile x member⟩
  · rintro ⟨member, fails⟩
    rw [← List.takeWhile_append_dropWhile (p := p) (l := l)] at member
    rcases List.mem_append.mp member with before | behind
    · have passes := List.mem_takeWhile_imp before
      rw [fails] at passes
      contradiction
    · exact behind

/-! ## Lists ascending in a key -/

variable [LinearOrder κ] {key : α → κ}

/-- The records of `l` stand in strictly increasing order of `key`. -/
def Ascending (key : α → κ) (l : List α) : Prop :=
  l.Pairwise fun x y => key x < key y

/-- The number of records whose key is below `k`. -/
def rank (key : α → κ) (l : List α) (k : κ) : Nat :=
  l.countP fun x => key x < k

theorem rank_le_length (l : List α) (k : κ) : rank key l k ≤ l.length :=
  List.countP_le_length

theorem Ascending.isCut {l : List α} (asc : Ascending key l) (k : κ) :
    IsCut (fun x => decide (key x < k)) l := by
  refine List.Pairwise.imp ?_ asc
  intro x y less below
  simp only [decide_eq_true_eq] at below ⊢
  exact lt_trans less below

theorem Ascending.lt_rank_iff {l : List α} (asc : Ascending key l) {k : κ} {i : Nat}
    (inside : i < l.length) : i < rank key l k ↔ key l[i] < k := by
  simpa only [rank, decide_eq_true_eq] using (asc.isCut k).lt_countP_iff inside

/-- Keys identify records. -/
theorem Ascending.eq_of_key_eq {l : List α} (asc : Ascending key l) {x y : α}
    (memberX : x ∈ l) (memberY : y ∈ l) (same : key x = key y) : x = y := by
  rcases List.getElem_of_mem memberX with ⟨i, insideX, rfl⟩
  rcases List.getElem_of_mem memberY with ⟨j, insideY, rfl⟩
  have ordered := List.pairwise_iff_getElem.mp asc
  rcases Nat.lt_trichotomy i j with before | rfl | behind
  · exact absurd same (ne_of_lt (ordered i j insideX insideY before))
  · rfl
  · exact absurd same.symm (ne_of_lt (ordered j i insideY insideX behind))

/-- An ascending list is determined by its records. -/
theorem Ascending.ext {l l' : List α} (asc : Ascending key l) (asc' : Ascending key l')
    (same : ∀ x, x ∈ l ↔ x ∈ l') : l = l' := by
  have distinct {l : List α} (asc : Ascending key l) : l.Nodup :=
    asc.imp fun less equal => (ne_of_lt less) (congrArg key equal)
  have perm : l.Perm l' := (List.perm_ext_iff_of_nodup (distinct asc) (distinct asc')).mpr same
  exact perm.eq_of_pairwise (fun _ _ _ _ less less' => absurd less (lt_asymm less')) asc asc'

/-- A record present in the list stands at the rank of its key. -/
theorem Ascending.rank_getElem {l : List α} (asc : Ascending key l) {i : Nat}
    (inside : i < l.length) : rank key l (key l[i]) = i := by
  apply Nat.le_antisymm
  · by_contra beyond
    exact lt_irrefl (key l[i]) ((asc.lt_rank_iff inside).mp (Nat.lt_of_not_le beyond))
  · by_contra before
    have position : rank key l (key l[i]) < i := Nat.lt_of_not_le before
    have bound : rank key l (key l[i]) < l.length := Nat.lt_trans position inside
    have less : key l[rank key l (key l[i])] < key l[i] :=
      List.pairwise_iff_getElem.mp asc _ _ bound inside position
    exact Nat.lt_irrefl _ ((asc.lt_rank_iff bound).mpr less)

/-- The record at the rank of `k`, if it has key `k`, is the only one. -/
theorem Ascending.getElem?_rank_eq_some {l : List α} (asc : Ascending key l) {x : α}
    (member : x ∈ l) : l[rank key l (key x)]? = some x := by
  rcases List.getElem_of_mem member with ⟨i, inside, rfl⟩
  rw [asc.rank_getElem inside, List.getElem?_eq_getElem inside]

/-- From the rank of `k` on stand the records whose key is not below `k`. -/
theorem Ascending.mem_drop_rank_iff {l : List α} (asc : Ascending key l) {k : κ} {x : α} :
    x ∈ l.drop (rank key l k) ↔ x ∈ l ∧ k ≤ key x := by
  rw [rank, (asc.isCut k).mem_drop_countP_iff, decide_eq_false_iff_not, not_lt]

/-- The first record that passes has the least key of those that pass. -/
theorem Ascending.le_of_find?_eq_some {l : List α} (asc : Ascending key l) {p : α → Bool} {x : α}
    (found : l.find? p = some x) : ∀ y ∈ l, p y = true → key x ≤ key y := by
  rcases List.find?_eq_some_iff_append.mp found with ⟨_, before, behind, rfl, fails⟩
  intro y member passes
  rcases List.mem_append.mp member with earlier | later
  · have failed := fails y earlier
    rw [passes] at failed
    contradiction
  · rcases List.mem_cons.mp later with rfl | later
    · exact le_rfl
    · have ordered := (List.pairwise_cons.mp (List.pairwise_append.mp asc).2.1).1
      exact le_of_lt (ordered y later)

/-- At its rank a record with a new key keeps the list ascending. -/
theorem Ascending.insertIdx_rank {l : List α} (asc : Ascending key l) {x : α}
    (new : ∀ y ∈ l, key y ≠ key x) : Ascending key (l.insertIdx (rank key l (key x)) x) := by
  have cut := asc.isCut (key x)
  rw [rank, cut.insertIdx_countP]
  have split : l.takeWhile (fun y => decide (key y < key x)) ++
      l.dropWhile (fun y => decide (key y < key x)) = l := List.takeWhile_append_dropWhile
  have asc' := asc
  rw [← split] at asc'
  rcases List.pairwise_append.mp asc' with ⟨front, back, across⟩
  have above : ∀ y ∈ l.dropWhile (fun y => decide (key y < key x)), key x < key y := by
    intro y member
    have notBelow := cut.forall_dropWhile y member
    simp only [decide_eq_false_iff_not, not_lt] at notBelow
    exact lt_of_le_of_ne notBelow (new y ((List.dropWhile_sublist _).subset member)).symm
  refine List.pairwise_append.mpr ⟨front, List.pairwise_cons.mpr ⟨above, back⟩, ?_⟩
  intro y memberY z memberZ
  rcases List.mem_cons.mp memberZ with rfl | memberZ
  · simpa using List.mem_takeWhile_imp memberY
  · exact across y memberY z memberZ

end Elevator.Ordered
