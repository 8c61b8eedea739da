import Elevator.Ordered.Cut
import Mathlib.Data.Set.Card
import Mathlib.Logic.Function.Basic

/-!
# Search trees over an arbitrary comparison

A binary search tree in the manner of `std::map`: every decision is made by a
Boolean comparison, and an iterator is the in-order position of its node, with
the size of the tree as the end.  The comparison need not be an order.  What a
search computes is a cut of the in-order list wherever the comparison cuts it,
and the second part shows that a comparison whose strict part is compatible with
it does so on every chain, whatever the shape of the tree.
-/

namespace Elevator.Ordered

universe u v

variable {κ : Type u} {β : Type v}

inductive SearchTree (κ : Type u) (β : Type v)
  | nil
  | node (left : SearchTree κ β) (key : κ) (value : β) (right : SearchTree κ β)
  deriving DecidableEq, Repr

namespace SearchTree

def size : SearchTree κ β → Nat
  | nil => 0
  | node left _ _ right => left.size + 1 + right.size

/-- The entries from `begin` to `end`. -/
def inorder : SearchTree κ β → List (κ × β)
  | nil => []
  | node left key value right => left.inorder ++ (key, value) :: right.inorder

@[simp]
theorem length_inorder (t : SearchTree κ β) : t.inorder.length = t.size := by
  induction t with
  | nil => rfl
  | node left key value right ihLeft ihRight =>
      simp only [inorder, size, List.length_append, List.length_cons, ihLeft, ihRight]
      omega

/-! ## Access by position -/

/-- Write the value of the node at a position. -/
def assign : SearchTree κ β → Nat → β → SearchTree κ β
  | nil, _, _ => nil
  | node left key value right, pos, new =>
      if pos < left.size then
        node (left.assign pos new) key value right
      else if pos = left.size then
        node left key new right
      else
        node left key value (right.assign (pos - left.size - 1) new)

/-- The least entry and the tree without it. -/
def popMin : SearchTree κ β → Option ((κ × β) × SearchTree κ β)
  | nil => none
  | node left key value right =>
      match left.popMin with
      | none => some ((key, value), right)
      | some (least, rest) => some (least, node rest key value right)

/-- Two subtrees joined by the least entry of the right one. -/
def join (left right : SearchTree κ β) : SearchTree κ β :=
  match right.popMin with
  | none => left
  | some (least, rest) => node left least.1 least.2 rest

/-- Unlink the node at a position. -/
def eraseAt : SearchTree κ β → Nat → SearchTree κ β
  | nil, _ => nil
  | node left key value right, pos =>
      if pos < left.size then
        node (left.eraseAt pos) key value right
      else if pos = left.size then
        join left right
      else
        node left key value (right.eraseAt (pos - left.size - 1))

theorem modify_append {α : Type v} (f : α → α) (front back : List α) (pos : Nat) :
    (front ++ back).modify pos f =
      if pos < front.length then front.modify pos f ++ back
      else front ++ back.modify (pos - front.length) f := by
  induction front generalizing pos with
  | nil => simp
  | cons x front ih =>
      cases pos with
      | zero => simp
      | succ pos =>
          simp [ih]
          split <;> simp

theorem insertIdx_append {α : Type v} (x : α) (front back : List α) (pos : Nat) :
    (front ++ back).insertIdx pos x =
      if pos ≤ front.length then front.insertIdx pos x ++ back
      else front ++ back.insertIdx (pos - front.length) x := by
  induction front generalizing pos with
  | nil => cases pos <;> simp
  | cons y front ih =>
      cases pos with
      | zero => simp
      | succ pos =>
          simp [ih]
          split <;> simp

theorem inorder_assign (t : SearchTree κ β) (pos : Nat) (new : β) :
    (t.assign pos new).inorder = t.inorder.modify pos fun entry => (entry.1, new) := by
  induction t generalizing pos with
  | nil => simp [assign, inorder]
  | node left key value right ihLeft ihRight =>
      rw [assign, inorder, modify_append, length_inorder]
      split
      · rw [inorder, ihLeft]
      · split
        · rename_i here
          simp [inorder, here]
        · rename_i before here
          obtain ⟨gap, rfl⟩ : ∃ gap, pos = left.size + 1 + gap :=
            ⟨pos - left.size - 1, by omega⟩
          have outer : left.size + 1 + gap - left.size = gap + 1 := by omega
          rw [inorder, ihRight, outer]
          simp

theorem inorder_popMin (t : SearchTree κ β) :
    t.inorder = match t.popMin with
      | none => []
      | some (least, rest) => least :: rest.inorder := by
  induction t with
  | nil => rfl
  | node left key value right ihLeft _ =>
      rw [inorder, popMin, ihLeft]
      cases left.popMin with
      | none => rfl
      | some result => rfl

theorem inorder_join (left right : SearchTree κ β) :
    (join left right).inorder = left.inorder ++ right.inorder := by
  rw [join, inorder_popMin right]
  cases right.popMin with
  | none => simp
  | some result => rfl

theorem inorder_eraseAt (t : SearchTree κ β) (pos : Nat) :
    (t.eraseAt pos).inorder = t.inorder.eraseIdx pos := by
  induction t generalizing pos with
  | nil => simp [eraseAt, inorder]
  | node left key value right ihLeft ihRight =>
      rw [eraseAt, inorder, List.eraseIdx_append, length_inorder]
      split
      · rw [inorder, ihLeft]
      · split
        · rename_i here
          simp [inorder_join, here]
        · rename_i before here
          obtain ⟨gap, rfl⟩ : ∃ gap, pos = left.size + 1 + gap :=
            ⟨pos - left.size - 1, by omega⟩
          have outer : left.size + 1 + gap - left.size = gap + 1 := by omega
          rw [inorder, ihRight, outer]
          simp

theorem size_eraseAt (t : SearchTree κ β) {pos : Nat} (inside : pos < t.size) :
    (t.eraseAt pos).size = t.size - 1 := by
  rw [← length_inorder, inorder_eraseAt, List.length_eraseIdx_of_lt (by simpa using inside),
    length_inorder]

/-! ## Search and insertion -/

/-- The first node on the search path that is not below `k`. -/
def lowerBound (lt : κ → κ → Bool) (k : κ) : SearchTree κ β → Nat
  | nil => 0
  | node left key _ right =>
      if lt key k then left.size + 1 + lowerBound lt k right else lowerBound lt k left

/-- The lower bound, unless `k` is below it. -/
def find (lt : κ → κ → Bool) (t : SearchTree κ β) (k : κ) : Option Nat :=
  let pos := t.lowerBound lt k
  match t.inorder[pos]? with
  | none => none
  | some entry => if lt k entry.1 then none else some pos

/-- The value that an iterator found for `k` points to. -/
def lookup (lt : κ → κ → Bool) (t : SearchTree κ β) (k : κ) : Option β :=
  (t.find lt k).bind fun pos => t.inorder[pos]?.map Prod.snd

/-- Where the descent for a new `k` ends. -/
def descend (lt : κ → κ → Bool) (k : κ) : SearchTree κ β → Nat
  | nil => 0
  | node left key _ right =>
      if lt k key then descend lt k left else left.size + 1 + descend lt k right

/-- A new leaf at the end of the descent. -/
def insertLeaf (lt : κ → κ → Bool) (k : κ) (v : β) : SearchTree κ β → SearchTree κ β
  | nil => node nil k v nil
  | node left key value right =>
      if lt k key then node (insertLeaf lt k v left) key value right
      else node left key value (insertLeaf lt k v right)

/-- Insertion of a unique key: nothing is inserted if the predecessor of the
place is not below `k`, and the iterator returned points to it then. -/
def insert (lt : κ → κ → Bool) (t : SearchTree κ β) (k : κ) (v : β) : SearchTree κ β × Nat :=
  let pos := t.descend lt k
  match (t.inorder.take pos).getLast? with
  | none => (t.insertLeaf lt k v, pos)
  | some entry => if lt entry.1 k then (t.insertLeaf lt k v, pos) else (t, pos - 1)

/-- Erasure by key, and the number of nodes erased. -/
def erase (lt : κ → κ → Bool) (t : SearchTree κ β) (k : κ) : SearchTree κ β × Nat :=
  match t.find lt k with
  | none => (t, 0)
  | some pos => (t.eraseAt pos, 1)

variable {lt : κ → κ → Bool}

theorem lowerBound_le (t : SearchTree κ β) (k : κ) : t.lowerBound lt k ≤ t.size := by
  induction t with
  | nil => exact Nat.le_refl _
  | node left key value right ihLeft ihRight =>
      rw [lowerBound, size]
      split <;> omega

theorem descend_le (t : SearchTree κ β) (k : κ) : t.descend lt k ≤ t.size := by
  induction t with
  | nil => exact Nat.le_refl _
  | node left key value right ihLeft ihRight =>
      rw [descend, size]
      split <;> omega

/-- Up to the size of the left subtree a position is in it or at the root. -/
theorem getElem?_node_of_le {left right : SearchTree κ β} {key : κ} {value : β} {pos : Nat}
    (inside : pos ≤ left.size) {entry : κ × β}
    (found : (node left key value right).inorder[pos]? = some entry) :
    left.inorder[pos]? = some entry ∨ entry = (key, value) := by
  rw [inorder] at found
  rcases Nat.lt_or_eq_of_le inside with before | atRoot
  · rw [List.getElem?_append_left (by simpa using before)] at found
    exact Or.inl found
  · rw [atRoot, List.getElem?_append_right (by simp)] at found
    simp only [length_inorder, Nat.sub_self, List.getElem?_cons_zero, Option.some.injEq] at found
    exact Or.inr found.symm

/-- Behind the root a position is in the right subtree. -/
theorem getElem?_node_behind (left right : SearchTree κ β) (key : κ) (value : β) (pos : Nat) :
    (node left key value right).inorder[left.size + 1 + pos]? = right.inorder[pos]? := by
  have behind : left.size + 1 + pos - left.size = pos + 1 := by omega
  rw [inorder, List.getElem?_append_right (by simp; omega), length_inorder, behind,
    List.getElem?_cons_succ]

/-- The entry at the lower bound is not below the key, whatever the tree. -/
theorem lt_of_getElem?_lowerBound {t : SearchTree κ β} {k : κ} {entry : κ × β}
    (found : t.inorder[t.lowerBound lt k]? = some entry) : lt entry.1 k = false := by
  induction t with
  | nil => simp [inorder] at found
  | node left key value right ihLeft ihRight =>
      rw [lowerBound] at found
      split at found
      · rw [getElem?_node_behind] at found
        exact ihRight found
      · rename_i notBelow
        rcases getElem?_node_of_le (left.lowerBound_le k) found with inLeft | rfl
        · exact ihLeft inLeft
        · simpa using notBelow

theorem inorder_insertLeaf (t : SearchTree κ β) (k : κ) (v : β) :
    (t.insertLeaf lt k v).inorder = t.inorder.insertIdx (t.descend lt k) (k, v) := by
  induction t with
  | nil => rfl
  | node left key value right ihLeft ihRight =>
      rw [insertLeaf, descend, inorder, insertIdx_append, length_inorder]
      split
      · rw [if_pos (left.descend_le k), inorder, ihLeft]
      · have behind : left.size + 1 + right.descend lt k - left.size =
            right.descend lt k + 1 := by omega
        rw [if_neg (by omega), behind, inorder, ihRight, List.insertIdx_succ_cons]

theorem size_insertLeaf (t : SearchTree κ β) (k : κ) (v : β) :
    (t.insertLeaf lt k v).size = t.size + 1 := by
  induction t with
  | nil => rfl
  | node left key value right ihLeft ihRight =>
      rw [insertLeaf]
      split <;> simp only [size, ihLeft, ihRight] <;> omega

/-- The new leaf stands where the descent ended. -/
theorem assign_insertLeaf (t : SearchTree κ β) (k : κ) (initial new : β) :
    (t.insertLeaf lt k initial).assign (t.descend lt k) new = t.insertLeaf lt k new := by
  induction t with
  | nil => rfl
  | node left key value right ihLeft ihRight =>
      rw [insertLeaf, insertLeaf, descend]
      split
      · have inside : left.descend lt k < (left.insertLeaf lt k initial).size := by
          rw [size_insertLeaf]
          exact Nat.lt_succ_of_le (left.descend_le k)
        rw [assign, if_pos inside, ihLeft]
      · have behind : left.size + 1 + right.descend lt k - left.size - 1 =
            right.descend lt k := by omega
        rw [assign, if_neg (by omega), if_neg (by omega), behind, ihRight]

theorem mem_inorder_assign {t : SearchTree κ β} {pos : Nat} {new : β} {entry : κ × β}
    (member : entry ∈ (t.assign pos new).inorder) : entry ∈ t.inorder ∨ entry.2 = new := by
  rw [inorder_assign] at member
  rcases List.mem_iff_getElem.mp member with ⟨i, inside, rfl⟩
  rw [List.getElem_modify]
  split
  · exact Or.inr rfl
  · exact Or.inl (List.getElem_mem _)

/-- An insertion that is written to leaves no other new value, whatever the comparison. -/
theorem mem_inorder_assign_insert {t : SearchTree κ β} {k : κ} {initial new : β} {entry : κ × β}
    (member : entry ∈
      ((t.insert lt k initial).1.assign (t.insert lt k initial).2 new).inorder) :
    entry ∈ t.inorder ∨ entry.2 = new := by
  have atLeaf (inserted : t.insert lt k initial = (t.insertLeaf lt k initial, t.descend lt k)) :
      entry ∈ t.inorder ∨ entry.2 = new := by
    rw [inserted, assign_insertLeaf, inorder_insertLeaf] at member
    rcases List.eq_or_mem_of_mem_insertIdx member with rfl | old
    · exact Or.inr rfl
    · exact Or.inl old
  cases result : (t.inorder.take (t.descend lt k)).getLast? with
  | none => exact atLeaf (by rw [insert, result])
  | some last =>
      by_cases below : lt last.1 k = true
      · exact atLeaf (by simp [insert, result, below])
      · have present : t.insert lt k initial = (t, t.descend lt k - 1) := by
          simp [insert, result, below]
        rw [present] at member
        exact mem_inorder_assign member

/-! ## Cuts -/

theorem lowerBound_eq_countP {t : SearchTree κ β} {k : κ}
    (cut : IsCut (fun entry => lt entry.1 k) t.inorder) :
    t.lowerBound lt k = t.inorder.countP fun entry => lt entry.1 k := by
  induction t with
  | nil => rfl
  | node left key value right ihLeft ihRight =>
      rcases cut.of_append with ⟨cutLeft, cutRight⟩
      rw [lowerBound, inorder]
      split
      · rename_i below
        rw [cut.countP_of_pos below, ihRight cutRight.tail, length_inorder]
      · rename_i notBelow
        rw [cut.countP_of_neg (by simpa using notBelow), ihLeft cutLeft]

theorem descend_eq_countP {t : SearchTree κ β} {k : κ}
    (cut : IsCut (fun entry => !lt k entry.1) t.inorder) :
    t.descend lt k = t.inorder.countP fun entry => !lt k entry.1 := by
  induction t with
  | nil => rfl
  | node left key value right ihLeft ihRight =>
      rcases cut.of_append with ⟨cutLeft, cutRight⟩
      rw [descend, inorder]
      split
      · rename_i above
        rw [cut.countP_of_neg (by simp [above]), ihLeft cutLeft]
      · rename_i notAbove
        rw [cut.countP_of_pos (by simpa using notAbove), ihRight cutRight.tail, length_inorder]

end SearchTree

/-! ## Comparisons and chains -/

/-- `a` is below `b` and not the other way round. -/
def Below (lt : κ → κ → Bool) (a b : κ) : Prop :=
  lt a b = true ∧ lt b a = false

/-- Not each below the other. -/
def Comparable (lt : κ → κ → Bool) (a b : κ) : Prop :=
  ¬ (lt a b = true ∧ lt b a = true)

/-- A comparison that tells keys apart and composes with its strict part. -/
structure Comparison (lt : κ → κ → Bool) : Prop where
  irrefl : ∀ a, lt a a = false
  eq_of_not_lt : ∀ {a b}, lt a b = false → lt b a = false → a = b
  below_trans : ∀ {a b c}, Below lt a b → lt b c = true → lt a c = true
  trans_below : ∀ {a b c}, lt a b = true → Below lt b c → lt a c = true

/-- Entries whose keys ascend strictly. -/
def Chain (lt : κ → κ → Bool) (l : List (κ × β)) : Prop :=
  l.Pairwise fun x y => Below lt x.1 y.1

section Chain

variable {lt : κ → κ → Bool} (comparison : Comparison lt) {l : List (κ × β)}

include comparison

/-- Every key cuts a chain at the entries below it. -/
theorem Comparison.isCut_below (chain : Chain lt l) (k : κ) :
    IsCut (fun entry => lt entry.1 k) l :=
  chain.imp fun below => comparison.below_trans below

/-- Every key cuts a chain at the entries it is not below. -/
theorem Comparison.isCut_notAbove (chain : Chain lt l) (k : κ) :
    IsCut (fun entry => !lt k entry.1) l := by
  refine List.Pairwise.imp ?_ chain
  intro x y below notAbove
  simp only [Bool.not_eq_true'] at notAbove ⊢
  cases above : lt k x.1 with
  | false => rfl
  | true => exact (comparison.trans_below above below).symm.trans notAbove

/-- The two cuts of a key in the chain are before and behind its entry. -/
theorem Comparison.countP_of_mem {front back : List (κ × β)} {k : κ} {v : β}
    (chain : Chain lt (front ++ (k, v) :: back)) :
    (front ++ (k, v) :: back).countP (fun entry => lt entry.1 k) = front.length ∧
      (front ++ (k, v) :: back).countP (fun entry => !lt k entry.1) = front.length + 1 := by
  have cutBelow := comparison.isCut_below chain k
  have cutNotAbove := comparison.isCut_notAbove chain k
  rcases List.pairwise_append.mp chain with ⟨_, upper, across⟩
  have before : ∀ entry ∈ front, lt entry.1 k = true :=
    fun entry member => (across entry member (k, v) List.mem_cons_self).1
  have behind : ∀ entry ∈ back, ¬ (!lt k entry.1) = true :=
    fun entry member => by simp [((List.pairwise_cons.mp upper).1 entry member).1]
  constructor
  · rw [cutBelow.countP_of_neg (comparison.irrefl k), List.countP_eq_length.mpr before]
  · rw [cutNotAbove.countP_of_pos (by simp [comparison.irrefl k]), List.countP_eq_zero.mpr behind]

/-- A chain has one entry for a key. -/
theorem Comparison.eq_of_mem (chain : Chain lt l) {k : κ} {v v' : β} (member : (k, v) ∈ l)
    (member' : (k, v') ∈ l) : v = v' := by
  rcases List.append_of_mem member with ⟨front, back, rfl⟩
  rcases List.pairwise_append.mp chain with ⟨_, upper, across⟩
  rcases List.mem_append.mp member' with before | rest
  · have below := (across _ before (k, v) List.mem_cons_self).1
    rw [comparison.irrefl] at below
    contradiction
  · rcases List.mem_cons.mp rest with here | behind
    · exact (congrArg Prod.snd here).symm
    · have below := ((List.pairwise_cons.mp upper).1 _ behind).1
      rw [comparison.irrefl] at below
      contradiction

theorem Comparison.nodup_keys (chain : Chain lt l) : (l.map Prod.fst).Nodup := by
  rw [List.Nodup, List.pairwise_map]
  refine List.Pairwise.imp ?_ chain
  rintro x y ⟨below, _⟩ same
  rw [same, comparison.irrefl] at below
  contradiction

namespace SearchTree

/-- Only an entry with the key itself is ever found, at the lower bound. -/
theorem find_eq_some_iff {t : SearchTree κ β} {k : κ} {pos : Nat} :
    t.find lt k = some pos ↔
      t.lowerBound lt k = pos ∧ ∃ v, t.inorder[pos]? = some (k, v) := by
  unfold find
  dsimp only
  constructor
  · intro found
    split at found
    · contradiction
    · rename_i entry here
      split at found
      · contradiction
      · rename_i notAbove
        rcases Option.some.inj found with rfl
        have notBelow := lt_of_getElem?_lowerBound here
        have same := comparison.eq_of_not_lt notBelow (by simpa using notAbove)
        exact ⟨rfl, entry.2, by rw [here, ← same]⟩
  · rintro ⟨rfl, v, here⟩
    rw [here]
    simp [comparison.irrefl]

theorem find_eq_none {t : SearchTree κ β} {k : κ} (absent : ∀ v, (k, v) ∉ t.inorder) :
    t.find lt k = none := by
  rw [Option.eq_none_iff_forall_ne_some]
  intro pos found
  rcases (find_eq_some_iff comparison).mp found with ⟨_, v, here⟩
  exact absent v (List.mem_of_getElem? here)

theorem find_of_split {t : SearchTree κ β} {k : κ} {v : β} {front back : List (κ × β)}
    (chain : Chain lt t.inorder) (split : t.inorder = front ++ (k, v) :: back) :
    t.find lt k = some front.length := by
  have count := (comparison.countP_of_mem (split ▸ chain)).1
  have pos := lowerBound_eq_countP (comparison.isCut_below chain k)
  rw [split, count] at pos
  exact (find_eq_some_iff comparison).mpr ⟨pos, v, by simp [split]⟩

/-- In a chain a lookup returns the value of the key's entry. -/
theorem lookup_eq_some_iff {t : SearchTree κ β} (chain : Chain lt t.inorder) {k : κ} {v : β} :
    t.lookup lt k = some v ↔ (k, v) ∈ t.inorder := by
  constructor
  · intro found
    rcases Option.bind_eq_some_iff.mp found with ⟨pos, here, value⟩
    rcases (find_eq_some_iff comparison).mp here with ⟨_, w, entry⟩
    rw [entry] at value
    cases value
    exact List.mem_of_getElem? entry
  · intro member
    rcases List.append_of_mem member with ⟨front, back, split⟩
    simp [lookup, find_of_split comparison chain split, split]

/-! ## Insertion with an overwritten value -/

/-- Writing through the iterator of an insertion overwrites the value of a key
that is there. -/
theorem inorder_assign_insert_of_split {t : SearchTree κ β} {k : κ} {w : β}
    {front back : List (κ × β)} (chain : Chain lt t.inorder)
    (split : t.inorder = front ++ (k, w) :: back) (initial new : β) :
    ((t.insert lt k initial).1.assign (t.insert lt k initial).2 new).inorder =
      front ++ (k, new) :: back := by
  have count := (comparison.countP_of_mem (split ▸ chain)).2
  have pos := descend_eq_countP (comparison.isCut_notAbove chain k)
  rw [split, count] at pos
  have last : (t.inorder.take (front.length + 1)).getLast? = some (k, w) := by
    simp [split, List.take_append]
  have kept : t.insert lt k initial = (t, front.length) := by
    simp [insert, pos, last, comparison.irrefl]
  rw [kept, inorder_assign, split, modify_append]
  simp

/-- A key that is not there is inserted at its cut. -/
theorem inorder_assign_insert_of_absent {t : SearchTree κ β} {k : κ}
    (chain : Chain lt t.inorder) (absent : ∀ v, (k, v) ∉ t.inorder) (initial new : β) :
    t.insert lt k initial = (t.insertLeaf lt k initial, t.descend lt k) ∧
    ((t.insert lt k initial).1.assign (t.insert lt k initial).2 new).inorder =
      t.inorder.takeWhile (fun entry => !lt k entry.1) ++
        (k, new) :: t.inorder.dropWhile (fun entry => !lt k entry.1) := by
  have cut := comparison.isCut_notAbove chain k
  have pos := descend_eq_countP cut
  have inserted : t.insert lt k initial = (t.insertLeaf lt k initial, t.descend lt k) := by
    unfold insert
    dsimp only
    split
    · rfl
    · rename_i entry last
      rw [pos, cut.take_countP] at last
      have inFront := List.mem_of_getLast? last
      have notAbove : lt k entry.1 = false := by simpa using List.mem_takeWhile_imp inFront
      have member := (List.takeWhile_sublist _).subset inFront
      have below : lt entry.1 k = true := by
        by_contra notBelow
        rcases comparison.eq_of_not_lt notAbove (eq_false_of_ne_true notBelow) with rfl
        exact absent entry.2 member
      rw [if_pos below]
  constructor
  · exact inserted
  · rw [inserted, assign_insertLeaf, inorder_insertLeaf, pos, cut.insertIdx_countP]

/-- A search for the new leaf turns away from it at an entry that is on both
sides of its key. -/
theorem mem_of_getElem?_lowerBound_insertLeaf {t : SearchTree κ β} {k : κ} {v : β}
    {s : κ × β} (chain : Chain lt t.inorder) (member : s ∈ t.inorder)
    (both : lt k s.1 = true ∧ lt s.1 k = true) {entry : κ × β}
    (found : (t.insertLeaf lt k v).inorder[(t.insertLeaf lt k v).lowerBound lt k]? = some entry) :
    entry ∈ t.inorder := by
  induction t with
  | nil => simp [inorder] at member
  | node left key value right ihLeft ihRight =>
      rcases List.pairwise_append.mp chain with ⟨chainLeft, chainRoot, _⟩
      have chainRight : Chain lt right.inorder := List.Pairwise.of_cons chainRoot
      have cutBelow := comparison.isCut_below chain k
      have cutNotAbove := comparison.isCut_notAbove chain k
      have node_mem {e : κ × β} : e ∈ (node left key value right).inorder ↔
          e ∈ left.inorder ∨ e = (key, value) ∨ e ∈ right.inorder := by
        simp [inorder]
      by_cases above : lt k key = true
      · rw [insertLeaf, if_pos above, lowerBound] at found
        split at found
        · rw [getElem?_node_behind] at found
          exact node_mem.mpr (Or.inr (Or.inr (List.mem_of_getElem? found)))
        · rename_i notBelow
          have inLeft : s ∈ left.inorder := by
            rcases node_mem.mp member with inLeft | rfl | inRight
            · exact inLeft
            · exact absurd both.2 notBelow
            · have none := cutBelow.of_append.2.forall_false (by simpa using notBelow) s inRight
              exact absurd both.2 (by simp [none])
          rcases getElem?_node_of_le (lowerBound_le _ k) found with here | root
          · exact node_mem.mpr (Or.inl (ihLeft chainLeft inLeft here))
          · exact node_mem.mpr (Or.inr (Or.inl root))
      · rw [insertLeaf, if_neg above, lowerBound] at found
        split at found
        · have inRight : s ∈ right.inorder := by
            rcases node_mem.mp member with inLeft | rfl | inRight
            · have passes := (List.pairwise_append.mp cutNotAbove).2.2 s inLeft (key, value)
                List.mem_cons_self (by simpa using above)
              exact absurd both.1 (by simpa using passes)
            · exact absurd both.1 above
            · exact inRight
          rw [getElem?_node_behind] at found
          exact node_mem.mpr (Or.inr (Or.inr (ihRight chainRight inRight found)))
        · rcases getElem?_node_of_le (left.lowerBound_le k) found with here | root
          · exact node_mem.mpr (Or.inl (List.mem_of_getElem? here))
          · exact node_mem.mpr (Or.inr (Or.inl root))

/-- A new key that is not comparable with one in the tree is lost at once. -/
theorem lookup_assign_insert_eq_none {t : SearchTree κ β} {k : κ} {s : κ × β}
    (chain : Chain lt t.inorder) (absent : ∀ v, (k, v) ∉ t.inorder) (member : s ∈ t.inorder)
    (incomparable : ¬ Comparable lt k s.1) (initial new : β) :
    ((t.insert lt k initial).1.assign (t.insert lt k initial).2 new).lookup lt k = none := by
  have inserted := (inorder_assign_insert_of_absent comparison chain absent initial new).1
  rw [inserted, assign_insertLeaf, lookup]
  have lost : (t.insertLeaf lt k new).find lt k = none := by
    rw [Option.eq_none_iff_forall_ne_some]
    intro pos found
    rcases (find_eq_some_iff comparison).mp found with ⟨rfl, v, here⟩
    exact absent v (mem_of_getElem?_lowerBound_insertLeaf comparison chain member
      (not_not.mp incomparable) here)
  rw [lost]
  rfl

end SearchTree

end Chain

/-! ## The map of a tree -/

/-- The tree is a chain of the entries of a map. -/
structure Represents (lt : κ → κ → Bool) (t : SearchTree κ β) (m : κ → Option β) : Prop where
  chain : Chain lt t.inorder
  mem_iff : ∀ k v, (k, v) ∈ t.inorder ↔ m k = some v

theorem represents_nil (lt : κ → κ → Bool) :
    Represents lt (.nil : SearchTree κ β) fun _ => none :=
  ⟨List.Pairwise.nil, fun k v => by simp [SearchTree.inorder]⟩

/-- A way to rearrange a tree that leaves its entries in order. -/
structure Rebalancing (κ : Type u) (β : Type v) where
  shape : SearchTree κ β → SearchTree κ β
  inorder : ∀ t, (shape t).inorder = t.inorder

/-- The tree is left as it is. -/
def Rebalancing.idle : Rebalancing κ β where
  shape := fun t => t
  inorder := fun _ => rfl

/-- The shape of the tree is of no account. -/
theorem Represents.shape {lt : κ → κ → Bool} {t : SearchTree κ β} {m : κ → Option β}
    (represents : Represents lt t m) (rebalancing : Rebalancing κ β) :
    Represents lt (rebalancing.shape t) m := by
  constructor
  · rw [rebalancing.inorder]
    exact represents.chain
  · rw [rebalancing.inorder]
    exact represents.mem_iff

/-- A chain stays one when a value is replaced. -/
theorem Chain.replace {lt : κ → κ → Bool} {front back : List (κ × β)} {k : κ} {v v' : β}
    (chain : Chain lt (front ++ (k, v) :: back)) : Chain lt (front ++ (k, v') :: back) := by
  simpa only [Chain, List.pairwise_append, List.pairwise_cons, List.forall_mem_cons] using chain

/-- The number of live keys is the number of entries. -/
theorem ncard_isSome {l : List (κ × β)} (nodup : (l.map Prod.fst).Nodup) {m : κ → Option β}
    (mem_iff : ∀ k v, (k, v) ∈ l ↔ m k = some v) :
    {k | (m k).isSome}.ncard = l.length := by
  classical
  have live : {k | (m k).isSome} = ((l.map Prod.fst).toFinset : Set κ) := by
    ext k
    simp [Option.isSome_iff_exists, mem_iff]
  rw [live, Set.ncard_coe_finset, List.toFinset_card_of_nodup nodup, List.length_map]

section Represents

variable {lt : κ → κ → Bool} (comparison : Comparison lt) {t : SearchTree κ β}
  {m : κ → Option β} (represents : Represents lt t m)

include comparison represents

theorem Represents.lookup_eq (k : κ) : t.lookup lt k = m k :=
  Option.ext fun v => (SearchTree.lookup_eq_some_iff comparison represents.chain).trans
    (represents.mem_iff k v)

theorem Represents.size_eq : t.size = {k | (m k).isSome}.ncard := by
  rw [ncard_isSome (comparison.nodup_keys represents.chain) represents.mem_iff,
    SearchTree.length_inorder]

/-- The live keys are comparable. -/
theorem Represents.comparable {k k' : κ} (live : (m k).isSome) (live' : (m k').isSome) :
    Comparable lt k k' := by
  rcases Option.isSome_iff_exists.mp live with ⟨v, value⟩
  rcases Option.isSome_iff_exists.mp live' with ⟨v', value'⟩
  have : Std.Symm fun x y : κ × β => Comparable lt x.1 y.1 :=
    ⟨fun x y comparable both => comparable both.symm⟩
  have reflexive : ∀ x ∈ t.inorder, Comparable lt x.1 x.1 :=
    fun x _ both => by simp [comparison.irrefl] at both
  have pairwise : t.inorder.Pairwise fun x y => Comparable lt x.1 y.1 :=
    represents.chain.imp fun below both => by simp [below.2] at both
  exact pairwise.forall_of_forall reflexive ((represents.mem_iff k v).mpr value)
    ((represents.mem_iff k' v').mpr value')

variable [DecidableEq κ]

/-- A chain that differs in the entry of one key represents the updated map. -/
theorem Represents.update {t' : SearchTree κ β} {front back : List (κ × β)} {k : κ} {new : β}
    (inorder : t'.inorder = front ++ (k, new) :: back) (chain : Chain lt t'.inorder)
    (others : ∀ k' v, k' ≠ k → ((k', v) ∈ t.inorder ↔ (k', v) ∈ front ++ back)) :
    Represents lt t' (Function.update m k (some new)) := by
  constructor
  · exact chain
  · intro k' v
    have stored : (k, new) ∈ t'.inorder := by simp [inorder]
    by_cases same : k' = k
    · subst same
      rw [Function.update_self]
      constructor
      · exact fun member => congrArg some (comparison.eq_of_mem chain stored member)
      · rintro ⟨⟩
        exact stored
    · rw [Function.update_of_ne same, ← represents.mem_iff, others k' v same, inorder]
      simp [same]

/-- Inserting and writing through the iterator stores a comparable key. -/
theorem Represents.assign_insert {k : κ}
    (comparable : ∀ k', (m k').isSome → Comparable lt k k') (initial new : β) :
    Represents lt ((t.insert lt k initial).1.assign (t.insert lt k initial).2 new)
      (Function.update m k (some new)) := by
  have chain := represents.chain
  cases live : m k with
  | some w =>
      rcases List.append_of_mem ((represents.mem_iff k w).mpr live) with ⟨front, back, split⟩
      have inorder :=
        SearchTree.inorder_assign_insert_of_split comparison chain split initial new
      refine represents.update comparison inorder (inorder ▸ (split ▸ chain).replace) ?_
      intro k' v different
      simp [split, different]
  | none =>
      have absent : ∀ v, (k, v) ∉ t.inorder := fun v member => by
        rw [represents.mem_iff, live] at member
        contradiction
      have inorder :=
        (SearchTree.inorder_assign_insert_of_absent comparison chain absent initial new).2
      have whole := List.takeWhile_append_dropWhile (p := fun entry => !lt k entry.1)
        (l := t.inorder)
      have cut := comparison.isCut_notAbove chain k
      have below : ∀ entry ∈ t.inorder, lt k entry.1 = false → Below lt entry.1 k :=
        fun entry member notAbove =>
          ⟨by_contra fun notBelow => absent entry.2 (comparison.eq_of_not_lt notAbove
            (eq_false_of_ne_true notBelow) ▸ member), notAbove⟩
      have above : ∀ entry ∈ t.inorder, lt k entry.1 = true → Below lt k entry.1 :=
        fun entry member above =>
          ⟨above, eq_false_of_ne_true fun below => comparable entry.1
            (by simp [(represents.mem_iff entry.1 entry.2).mp member]) ⟨above, below⟩⟩
      refine represents.update comparison inorder ?_ ?_
      · rw [← whole] at chain
        rcases List.pairwise_append.mp chain with ⟨front, back, across⟩
        rw [inorder]
        refine List.pairwise_append.mpr ⟨front, List.pairwise_cons.mpr ⟨?_, back⟩, ?_⟩
        · intro entry member
          exact above entry ((List.dropWhile_sublist _).subset member)
            (by simpa using cut.forall_dropWhile entry member)
        · intro x memberX y memberY
          rcases List.mem_cons.mp memberY with rfl | memberY
          · exact below x ((List.takeWhile_sublist _).subset memberX)
              (by simpa using List.mem_takeWhile_imp memberX)
          · exact across x memberX y memberY
      · intro k' v _
        rw [whole]

/-- Erasing a key removes it and counts it. -/
theorem Represents.erase (k : κ) :
    Represents lt (t.erase lt k).1 (Function.update m k none) ∧
      (t.erase lt k).2 = if (m k).isSome then 1 else 0 := by
  have chain := represents.chain
  cases live : m k with
  | some w =>
      rcases List.append_of_mem ((represents.mem_iff k w).mpr live) with ⟨front, back, split⟩
      have found := SearchTree.find_of_split comparison chain split
      have inorder : (t.erase lt k).1.inorder = front ++ back := by
        simp [SearchTree.erase, found, SearchTree.inorder_eraseAt, split, List.eraseIdx_append]
      have nodup := comparison.nodup_keys (split ▸ chain)
      rw [List.map_append, List.map_cons, List.nodup_middle, ← List.map_append] at nodup
      refine ⟨⟨?_, fun k' v => ?_⟩, by simp [SearchTree.erase, found]⟩
      · rw [inorder]
        rw [split] at chain
        exact chain.sublist ((List.sublist_cons_self _ _).append_left front)
      · rw [inorder]
        by_cases same : k' = k
        · subst same
          have gone : (k', v) ∉ front ++ back := fun member =>
            (List.nodup_cons.mp nodup).1 (List.mem_map.mpr ⟨_, member, rfl⟩)
          simp [gone]
        · rw [Function.update_of_ne same, ← represents.mem_iff, split]
          simp [same]
  | none =>
      have absent : ∀ v, (k, v) ∉ t.inorder := fun v member => by
        rw [represents.mem_iff, live] at member
        contradiction
      have same : t.erase lt k = (t, 0) := by
        rw [SearchTree.erase, SearchTree.find_eq_none comparison absent]
      rw [same, ← live, Function.update_eq_self]
      exact ⟨represents, by simp [live]⟩

omit [DecidableEq κ] in
/-- Keeping the entries that pass a test, and the number of those removed. -/
theorem Represents.filter (keep : β → Bool) {t' : SearchTree κ β}
    (kept : t'.inorder = t.inorder.filter fun entry => keep entry.2) :
    Represents lt t' (fun k => (m k).filter keep) ∧
      t.size - t'.size = {k | ((m k).filter fun v => !keep v).isSome}.ncard := by
  have chain := represents.chain
  have mem_filter (keep : β → Bool) (k : κ) (v : β) :
      (k, v) ∈ t.inorder.filter (fun entry => keep entry.2) ↔ (m k).filter keep = some v := by
    rw [List.mem_filter, represents.mem_iff, Option.filter_eq_some_iff]
  constructor
  · refine ⟨?_, fun k v => ?_⟩
    · rw [kept]
      exact chain.sublist List.filter_sublist
    · rw [kept, mem_filter]
  · have removed : Chain lt (t.inorder.filter fun entry => !keep entry.2) :=
      chain.sublist List.filter_sublist
    have total := List.length_eq_length_filter_add (l := t.inorder) fun entry => keep entry.2
    rw [ncard_isSome (comparison.nodup_keys removed) (mem_filter fun v => !keep v),
      ← SearchTree.length_inorder, ← SearchTree.length_inorder, kept]
    omega

end Represents

end Elevator.Ordered
