import Elevator.Sequence.Histogram
import Elevator.Transition.Run
import Mathlib.Algebra.Order.Group.Nat
import Mathlib.Data.UInt

/-!
# Seconds of the clock

The rate monitor and the timer subtract clock readings in unsigned nanoseconds and
share a loop, written four times in the source: while more than a second has passed
since the reference clock, one second is flushed and the reference is advanced by a
second in place.  Between normalised readings less than `2 ^ 64` nanoseconds apart the
difference is exact, and the loop flushes the seconds before the one of the reading.
-/

namespace Elevator.Harness

open Transition Sequence

/-- `NANOSECOND`, how many there are in a second. -/
def nanosecond : UInt64 := 1000000000

/-- `struct timespec`. -/
structure Timespec where
  tvSec : Int
  tvNsec : Int
  deriving DecidableEq, Repr

namespace Timespec

/-- The helper `operator-`, in nanoseconds. -/
def sub (left right : Timespec) : UInt64 :=
  if left.tvSec < right.tvSec ∨ left.tvSec = right.tvSec ∧ left.tvNsec < right.tvNsec then
    0
  else
    UInt64.ofInt ((left.tvSec - right.tvSec) * 1000000000 + left.tvNsec - right.tvNsec)

/-- The time in nanoseconds. -/
def ns (t : Timespec) : Int :=
  t.tvSec * 1000000000 + t.tvNsec

def Normalised (t : Timespec) : Prop :=
  0 ≤ t.tvNsec ∧ t.tvNsec < 1000000000

/-- The clock advanced in place by some seconds. -/
def later (t : Timespec) (seconds : Nat) : Timespec :=
  { t with tvSec := t.tvSec + seconds }

end Timespec

/-- What `clock_gettime` reads: a time since the Epoch, of which the seconds are not zero. -/
structure Reading extends Timespec where
  set : 0 < tvSec
  normalised : toTimespec.Normalised

instance : Coe Reading Timespec :=
  ⟨Reading.toTimespec⟩

open Timespec

/-- The nanoseconds from one time to another. -/
def elapsed (since now : Timespec) : Nat :=
  (now.ns - since.ns).toNat

/-- The second that an elapsed time lies in, its end included. -/
def second (elapsed : Nat) : Nat :=
  (elapsed - 1) / 1000000000

theorem elapsed_mono {since now now' : Timespec} (ordered : now.ns ≤ now'.ns) :
    elapsed since now ≤ elapsed since now' := by
  unfold elapsed
  omega

theorem second_mono {e e' : Nat} (le : e ≤ e') : second e ≤ second e' := by
  unfold second
  omega

/-- Readings of a clock that does not go back and runs for less than `2 ^ 64` nanoseconds. -/
structure Clocked (start : Reading) (readings : List Reading) : Prop where
  ordered : (start :: readings).Pairwise fun a b => a.ns ≤ b.ns
  span : ∀ r ∈ readings, elapsed start r < 2 ^ 64

theorem Clocked.of_append {start : Reading} {readings later : List Reading}
    (clock : Clocked start (readings ++ later)) : Clocked start readings where
  ordered := clock.ordered.sublist (by simp)
  span r member := clock.span r (List.mem_append_left _ member)

theorem Clocked.le_last {start : Reading} {readings : List Reading} {last : Reading}
    (clock : Clocked start (readings ++ [last])) : ∀ r ∈ readings, r.ns ≤ last.ns := by
  have ordered := (List.pairwise_cons.mp clock.ordered).2
  exact fun r member => (List.pairwise_append.mp ordered).2.2 r member last (by simp)

/-- The difference is exact up to `2 ^ 64` nanoseconds, and zero for an earlier time. -/
theorem toNat_sub {since now : Timespec} (normalised : since.Normalised)
    (normalised' : now.Normalised) (span : elapsed since now < 2 ^ 64) :
    (now.sub since).toNat = elapsed since now := by
  unfold Normalised at normalised normalised'
  unfold elapsed ns at *
  unfold sub
  split
  · have zero : (0 : UInt64).toNat = 0 := rfl
    omega
  · rw [UInt64.ofInt, UInt64.toNat_ofNat']
    omega

/-- The difference does not exceed the time that has passed. -/
theorem toNat_sub_le {since now : Timespec} (normalised : since.Normalised)
    (normalised' : now.Normalised) : (now.sub since).toNat ≤ elapsed since now := by
  by_cases span : elapsed since now < 2 ^ 64
  · exact (toNat_sub normalised normalised' span).le
  · exact (now.sub since).toNat_lt.le.trans (Nat.le_of_not_lt span)

/-- The difference to a later second is reduced modulo `2 ^ 64`, whatever the times. -/
theorem toNat_sub_of_lt {since now : Timespec} (later : since.tvSec < now.tvSec) :
    (now.sub since).toNat = ((now.ns - since.ns) % 2 ^ 64).toNat := by
  unfold sub ns
  rw [if_neg (by omega), UInt64.ofInt, UInt64.toNat_ofNat']
  omega

/-- A difference is not zero only up to a later time. -/
theorem tvSec_le_of_sub {since now : Timespec} (positive : 0 < now.sub since) :
    since.tvSec ≤ now.tvSec := by
  by_contra later
  rw [sub, if_pos (Or.inl (Int.lt_of_not_ge later))] at positive
  exact UInt64.lt_irrefl _ positive

/-- The loop that flushes the seconds that have passed and advances the clock. -/
def secondsLoop {σ : Type} (flush : σ → σ) (clockNow clockPrev : Timespec) (s : σ) : Timespec × σ :=
  if _more : clockNow.sub clockPrev > nanosecond then
    secondsLoop flush clockNow { clockPrev with tvSec := clockPrev.tvSec + 1 } (flush s)
  else
    (clockPrev, s)
termination_by (clockNow.tvSec + 1 - clockPrev.tvSec).toNat
decreasing_by
  have ordered := tvSec_le_of_sub (UInt64.lt_of_le_of_lt (UInt64.zero_le) _more)
  omega

theorem later_zero (t : Timespec) : t.later 0 = t := by
  simp [later]

theorem later_later (t : Timespec) (first second : Nat) :
    (t.later first).later second = t.later (first + second) := by
  simp [later, Int.add_assoc]

theorem elapsed_later (since now : Timespec) (seconds : Nat) :
    elapsed (since.later seconds) now = elapsed since now - seconds * 1000000000 := by
  unfold elapsed later ns
  dsimp only
  omega

theorem second_sub (e seconds : Nat) :
    second (e - seconds * 1000000000) = second e - seconds := by
  unfold second
  omega

/-- The loop flushes the seconds before the one of the reading. -/
theorem secondsLoop_eq {σ : Type} (flush : σ → σ) {clockNow clockPrev : Timespec}
    (normalised : clockPrev.Normalised) (normalised' : clockNow.Normalised)
    (span : elapsed clockPrev clockNow < 2 ^ 64) (s : σ) :
    secondsLoop flush clockNow clockPrev s =
      (clockPrev.later (second (elapsed clockPrev clockNow)),
        flush^[second (elapsed clockPrev clockNow)] s) := by
  have more_iff {clockPrev : Timespec} (normalised : clockPrev.Normalised)
      (span : elapsed clockPrev clockNow < 2 ^ 64) :
      clockNow.sub clockPrev > nanosecond ↔ 0 < second (elapsed clockPrev clockNow) := by
    have one : nanosecond.toNat = 1000000000 := rfl
    rw [gt_iff_lt, UInt64.lt_iff_toNat_lt, toNat_sub normalised normalised' span, one, second]
    omega
  fun_induction secondsLoop flush clockNow clockPrev s with
  | case1 clockPrev s more ih =>
      have next : ({ clockPrev with tvSec := clockPrev.tvSec + 1 } : Timespec) =
          clockPrev.later 1 := rfl
      have positive := (more_iff normalised span).mp more
      have elapsed_next := elapsed_later clockPrev clockNow 1
      have second_next := second_sub (elapsed clockPrev clockNow) 1
      rw [← elapsed_next] at second_next
      rw [next] at ih ⊢
      obtain ⟨rest, count⟩ := Nat.exists_eq_succ_of_ne_zero positive.ne'
      rw [ih normalised (by omega), second_next, count, later_later, Function.iterate_succ_apply,
        Nat.succ_sub_one, Nat.add_comm]
  | case2 clockPrev s stop =>
      have zero : second (elapsed clockPrev clockNow) = 0 :=
        Nat.eq_zero_of_not_pos fun positive => stop ((more_iff normalised span).mpr positive)
      rw [zero, later_zero]
      rfl

/-- What every flushed second keeps, the loop keeps. -/
theorem secondsLoop_invariant {σ : Type} {flush : σ → σ} {inv : σ → Prop}
    (keeps : ∀ s, inv s → inv (flush s)) (clockNow clockPrev : Timespec) {s : σ} (holds : inv s) :
    inv (secondsLoop flush clockNow clockPrev s).2 := by
  fun_induction secondsLoop flush clockNow clockPrev s with
  | case1 clockPrev s more ih => exact ih (keeps s holds)
  | case2 clockPrev s stop => exact holds

/-- No second is left to flush behind the loop. -/
theorem secondsLoop_stops {σ : Type} (flush : σ → σ) (clockNow clockPrev : Timespec) (s : σ) :
    ¬ clockNow.sub (secondsLoop flush clockNow clockPrev s).1 > nanosecond := by
  fun_induction secondsLoop flush clockNow clockPrev s with
  | case1 clockPrev s more ih => exact ih
  | case2 clockPrev s stop => exact stop

/-- What the flush of a second does to a part of the state, the loop does to it. -/
theorem secondsLoop_map {σ τ : Type} {flush : σ → σ} {flush' : τ → τ} {part : σ → τ}
    (commutes : ∀ s, part (flush s) = flush' (part s)) (clockNow clockPrev : Timespec) (s : σ) :
    part (secondsLoop flush clockNow clockPrev s).2 =
      (secondsLoop flush' clockNow clockPrev (part s)).2 := by
  fun_induction secondsLoop flush clockNow clockPrev s with
  | case1 clockPrev s more ih =>
      rw [ih, commutes]
      conv_rhs => rw [secondsLoop, dif_pos more]
  | case2 clockPrev s stop => rw [secondsLoop, dif_neg stop]

/-- How many seconds the loop flushes. -/
def secondsDue (clockNow clockPrev : Timespec) : Nat :=
  (secondsLoop (· + 1) clockNow clockPrev 0).2

theorem length_secondsLoop {σ : Type} {flush : σ → σ} {length : σ → Nat}
    (adds : ∀ s, length (flush s) = length s + 1) (clockNow clockPrev : Timespec) (s : σ) :
    length (secondsLoop flush clockNow clockPrev s).2 =
      length s + secondsDue clockNow clockPrev := by
  rw [secondsLoop_map adds, secondsDue,
    @secondsLoop_map _ _ (· + 1) (· + 1) (length s + ·) (fun _ => rfl)]
  rfl

/-! ## Histograms under a clock -/

section Keeps

variable {α β σ : Type} [AddMonoid α]

/-- A component that has recorded events since a start: its clock is ahead of the start by
a second for each entry. -/
structure Keeps (entry : α → β) (start : Reading) (clockPrev : Timespec) (h : Histogram α β)
    (events : List (Nat × α)) : Prop where
  clock : clockPrev = start.later h.closed.length
  records : h.Records entry events

variable {entry : α → β} {start : Reading} {clockPrev : Timespec} {events : List (Nat × α)}

theorem Keeps.tvSec_ne_zero {h : Histogram α β} (keeps : Keeps entry start clockPrev h events) :
    clockPrev.tvSec ≠ 0 := by
  have positive := start.set
  rw [keeps.clock, later]
  dsimp only
  omega

/-- The loop closes the seconds before the one of the reading. -/
theorem Keeps.secondsLoop {hist : σ → Histogram α β} {flush : σ → σ} {s : σ}
    (keeps : Keeps entry start clockPrev (hist s) events)
    (closes : ∀ s, hist (flush s) = (hist s).close entry) {now : Reading}
    (span : elapsed start now < 2 ^ 64)
    (reached : (hist s).closed.length ≤ second (elapsed start now)) :
    let flushed := secondsLoop flush now clockPrev s
    Keeps entry start flushed.1 (hist flushed.2) events ∧
      (hist flushed.2).closed.length = second (elapsed start now) := by
  intro flushed
  obtain ⟨rfl, records⟩ := keeps
  have closer := elapsed_later start now (hist s).closed.length
  have normalised : (start.later (hist s).closed.length).Normalised := start.normalised
  have loop := secondsLoop_eq flush normalised now.normalised (by omega) s
  rw [closer, second_sub, later_later, Nat.add_sub_cancel' reached] at loop
  have closed : hist flushed.2 = (hist s).closeTo entry (second (elapsed start now)) :=
    (congrArg (fun result => hist result.2) loop).trans
      ((Function.Semiconj.iterate_right closes _).eq s)
  have length_closed : (hist flushed.2).closed.length = second (elapsed start now) := by
    rw [closed, Histogram.length_closeTo reached]
  have clock : flushed.1 = start.later (hist flushed.2).closed.length := by
    rw [length_closed]
    exact congrArg Prod.fst loop
  exact ⟨⟨clock, closed ▸ records.closeTo _⟩, length_closed⟩

/-- An event of the open second is added to it. -/
theorem Keeps.add {h : Histogram α β} (keeps : Keeps entry start clockPrev h events) {bucket : Nat}
    (here : h.closed.length = bucket) (x : α) :
    Keeps entry start clockPrev { h with current := h.current + x } (events ++ [(bucket, x)]) := by
  have added : h.add entry (bucket, x) = { h with current := h.current + x } :=
    Histogram.add_of_open here
  exact ⟨keeps.clock, added ▸ keeps.records.add here.le⟩

/-- A component that adds the events of its calls, second after second, has recorded them
after every run. -/
theorem keeps_run {κ : Type} {step : σ → κ → σ} {hist : σ → Histogram α β}
    {prev : σ → Timespec} {event : κ → Nat × α} {s : σ}
    (keeps : Keeps entry start (prev s) (hist s) []) (empty : (hist s).closed = [])
    {calls : List κ} (ordered : calls.Pairwise fun a b => (event a).1 ≤ (event b).1)
    (adds : ∀ s events, ∀ call ∈ calls, Keeps entry start (prev s) (hist s) events →
      (hist s).closed.length ≤ (event call).1 →
      Keeps entry start (prev (step s call)) (hist (step s call)) (events ++ [event call]) ∧
        (hist (step s call)).closed.length = (event call).1) :
    let final := run step s calls
    Keeps entry start (prev final) (hist final) (calls.map event) ∧
      (hist final).closed.length = latest (calls.map event) := by
  induction calls using List.reverseRecOn with
  | nil => exact ⟨keeps, congrArg List.length empty⟩
  | append_singleton calls call ih =>
      obtain ⟨before, _, behind⟩ := List.pairwise_append.mp ordered
      obtain ⟨recorded, length_eq⟩ := ih before fun s events earlier member =>
        adds s events earlier (List.mem_append_left _ member)
      have reached : latest (calls.map event) ≤ (event call).1 := by
        apply latest_le
        rw [List.forall_mem_map]
        exact fun earlier member => behind earlier member call (List.mem_singleton_self call)
      intro final
      have last : final = step (run step s calls) call := run_concat step s calls call
      rw [last, List.map_append, List.map_singleton, latest_concat]
      exact adds _ _ call (by simp) recorded (length_eq.trans_le reached)

end Keeps

/-- A sum that fits is not reduced. -/
theorem toNat_sum {values : List UInt64} (small : (values.map UInt64.toNat).sum < 2 ^ 64) :
    values.sum.toNat = (values.map UInt64.toNat).sum := by
  induction values with
  | nil => rfl
  | cons value values ih =>
      rw [List.map_cons, List.sum_cons] at small ⊢
      rw [List.sum_cons, UInt64.toNat_add, ih (by omega), Nat.mod_eq_of_lt small]

end Elevator.Harness
