import Mathlib.Algebra.BigOperators.Group.List.Basic
import Mathlib.Data.List.Infix
import Mathlib.Logic.Function.Iterate

/-!
# Histograms that close bucket after bucket

Events come with the bucket they fall in, and no event falls behind an earlier one.
A histogram keeps the sum of the bucket that is open and an entry for every bucket
before it; an event closes the buckets before its own, however many they are.
-/

namespace Elevator.Sequence

universe u v

/-- The entries of the closed buckets, and the sum of the open one. -/
structure Histogram (α : Type u) (β : Type v) where
  closed : List β
  current : α

/-- What falls in a bucket. -/
def bucketSum {α : Type u} [AddMonoid α] (events : List (Nat × α)) (bucket : Nat) : α :=
  ((events.filter fun event => event.1 = bucket).map Prod.snd).sum

theorem bucketSum_eq_zero {α : Type u} [AddMonoid α] {events : List (Nat × α)} {bucket : Nat}
    (none : ∀ event ∈ events, event.1 ≠ bucket) : bucketSum events bucket = 0 := by
  have empty : events.filter (fun event => event.1 = bucket) = [] := by
    rw [List.filter_eq_nil_iff]
    exact fun event member => by simpa using none event member
  rw [bucketSum, empty]
  rfl

theorem bucketSum_concat {α : Type u} [AddMonoid α] (events : List (Nat × α)) (event : Nat × α)
    (bucket : Nat) :
    bucketSum (events ++ [event]) bucket =
      bucketSum events bucket + if event.1 = bucket then event.2 else 0 := by
  rw [bucketSum, List.filter_append, List.map_append, List.sum_append]
  by_cases here : event.1 = bucket <;> simp [bucketSum, here]

/-- The bucket of the last event. -/
def latest {α : Type u} (events : List (Nat × α)) : Nat :=
  (events.getLast?.map Prod.fst).getD 0

theorem latest_concat {α : Type u} (events : List (Nat × α)) (event : Nat × α) :
    latest (events ++ [event]) = event.1 := by
  simp [latest]

/-- In the order of the buckets no event is ahead of the last. -/
theorem latest_le {α : Type u} {events : List (Nat × α)} {event : Nat × α}
    (behind : ∀ earlier ∈ events, earlier.1 ≤ event.1) : latest events ≤ event.1 := by
  rcases List.eq_nil_or_concat events with rfl | ⟨before, last, rfl⟩
  · exact Nat.zero_le _
  · rw [List.concat_eq_append, latest_concat]
    exact behind last (by simp)

namespace Histogram

variable {α : Type u} {β : Type v} [AddMonoid α] (entry : α → β)

/-- Close the open bucket. -/
def close (h : Histogram α β) : Histogram α β :=
  ⟨h.closed ++ [entry h.current], 0⟩

/-- Close the buckets before one. -/
def closeTo (h : Histogram α β) (bucket : Nat) : Histogram α β :=
  (close entry)^[bucket - h.closed.length] h

def add (h : Histogram α β) (event : Nat × α) : Histogram α β :=
  { h.closeTo entry event.1 with current := (h.closeTo entry event.1).current + event.2 }

/-- The histogram of the events so far, none of which falls behind the open bucket. -/
structure Records (h : Histogram α β) (events : List (Nat × α)) : Prop where
  closed : h.closed = (List.range h.closed.length).map fun bucket => entry (bucketSum events bucket)
  current : h.current = bucketSum events h.closed.length
  reached : ∀ event ∈ events, event.1 ≤ h.closed.length

variable {entry} {h : Histogram α β} {events : List (Nat × α)}

theorem records_nil : Records entry (⟨[], 0⟩ : Histogram α β) [] :=
  ⟨rfl, rfl, List.forall_mem_nil _⟩

theorem Records.close (records : Records entry h events) :
    Records entry (h.close entry) events := by
  have length_close : (h.close entry).closed.length = h.closed.length + 1 :=
    List.length_append.trans rfl
  constructor
  · rw [length_close, List.range_succ, List.map_append, ← records.closed, List.map_singleton,
      ← records.current]
    rfl
  · rw [length_close]
    exact (bucketSum_eq_zero fun event member =>
      Nat.ne_of_lt (Nat.lt_succ_of_le (records.reached event member))).symm
  · rw [length_close]
    exact fun event member => Nat.le_succ_of_le (records.reached event member)

theorem length_iterate_close (h : Histogram α β) (n : Nat) :
    ((close entry)^[n] h).closed.length = h.closed.length + n := by
  induction n with
  | zero => rfl
  | succ n ih =>
      rw [Function.iterate_succ_apply', close, List.length_append, ih, List.length_singleton,
        Nat.add_assoc]

theorem Records.iterate_close (records : Records entry h events) (n : Nat) :
    Records entry ((Histogram.close entry)^[n] h) events := by
  induction n with
  | zero => exact records
  | succ n ih =>
      rw [Function.iterate_succ_apply']
      exact ih.close

theorem length_closeTo {bucket : Nat} (ahead : h.closed.length ≤ bucket) :
    (h.closeTo entry bucket).closed.length = bucket := by
  rw [closeTo, length_iterate_close, Nat.add_sub_cancel' ahead]

theorem Records.closeTo (records : Records entry h events) (bucket : Nat) :
    Records entry (h.closeTo entry bucket) events :=
  records.iterate_close _

theorem add_of_open {event : Nat × α} (here : h.closed.length = event.1) :
    h.add entry event = { h with current := h.current + event.2 } := by
  rw [add, closeTo, here, Nat.sub_self]
  rfl

theorem Records.add (records : Records entry h events) {event : Nat × α}
    (ahead : h.closed.length ≤ event.1) :
    Records entry (h.add entry event) (events ++ [event]) := by
  have closed := records.closeTo event.1
  have length_closed : (h.closeTo entry event.1).closed.length = event.1 := length_closeTo ahead
  have before (bucket : Nat) (below : bucket < event.1) :
      bucketSum (events ++ [event]) bucket = bucketSum events bucket := by
    rw [bucketSum_concat, if_neg below.ne', add_zero]
  have length_add : (h.add entry event).closed.length = event.1 := length_closed
  constructor
  · rw [length_add]
    have same : (h.add entry event).closed = (h.closeTo entry event.1).closed := rfl
    rw [same, closed.closed, length_closed]
    apply List.map_congr_left
    intro bucket member
    rw [before bucket (List.mem_range.mp member)]
  · rw [length_add, bucketSum_concat, if_pos rfl, ← length_closed, ← closed.current]
    rfl
  · rw [length_add]
    intro old member
    rcases List.mem_append.mp member with earlier | last
    · exact (records.reached old earlier).trans ahead
    · rw [List.mem_singleton.mp last]

end Histogram

/-! ## The buckets together -/

section Sum

variable {α : Type u} [AddCommMonoid α]

theorem sum_single (n bucket : Nat) (x : α) :
    ((List.range n).map fun k => if bucket = k then x else 0).sum =
      if bucket < n then x else 0 := by
  induction n with
  | zero => simp
  | succ n ih =>
      rw [List.range_succ, List.map_append, List.sum_append, ih]
      rcases Nat.lt_trichotomy bucket n with before | rfl | behind
      · simp [before, before.ne, Nat.lt_succ_of_lt before]
      · simp
      · simp [behind.ne', behind.le.not_gt, Nat.not_lt.mpr (Nat.succ_le_of_lt behind)]

/-- The buckets hold every event once. -/
theorem sum_bucketSum {events : List (Nat × α)} {n : Nat}
    (reached : ∀ event ∈ events, event.1 < n) :
    ((List.range n).map (bucketSum events)).sum = (events.map Prod.snd).sum := by
  induction events using List.reverseRecOn with
  | nil =>
      have zero : bucketSum ([] : List (Nat × α)) = fun _ => 0 := rfl
      simp [zero]
  | append_singleton events event ih =>
      rw [List.forall_mem_append, List.forall_mem_singleton] at reached
      have split : bucketSum (events ++ [event]) =
          fun bucket => bucketSum events bucket + if event.1 = bucket then event.2 else 0 :=
        funext fun bucket => bucketSum_concat events event bucket
      rw [split, List.sum_map_add, ih reached.1, sum_single, if_pos reached.2, List.map_append,
        List.sum_append, List.map_singleton, List.sum_singleton]

end Sum

end Elevator.Sequence
