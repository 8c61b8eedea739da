import Elevator.Harness.Aggregation
import Elevator.Harness.Clock
import Mathlib.Algebra.Order.BigOperators.Group.List

/-!
# The rate monitor

`rateMonitor` counts events into an entry for every second since its start.  Its state
is the histogram of the events by the second that they fall in, under a clock that is
advanced by as many seconds as there are entries, for any gaps between the calls.
-/

namespace Elevator.Harness

open Transition Sequence Timespec

structure RateMonitor where
  clockPrev : Timespec
  eventsPerSecond : List UInt64
  eventsCount : UInt64

/-- A call of `Increment`: the count, the reading it makes if it has to start the clock,
and the one it always makes. -/
structure Increment where
  howMany : UInt64
  restart : Timespec
  now : Reading

namespace RateMonitor

def start (m : RateMonitor) (now : Timespec) : RateMonitor :=
  { m with clockPrev := now, eventsCount := 0 }

/-- The body of the loops. -/
def closeSecond (m : RateMonitor) : RateMonitor :=
  { m with eventsPerSecond := m.eventsPerSecond ++ [m.eventsCount], eventsCount := 0 }

/-- The loop of `Increment` and of `Stop`. -/
def flush (m : RateMonitor) (clockNow : Timespec) : RateMonitor :=
  let flushed := secondsLoop closeSecond clockNow m.clockPrev m
  { flushed.2 with clockPrev := flushed.1 }

def increment (m : RateMonitor) (call : Increment) : RateMonitor :=
  let m := if m.clockPrev.tvSec = 0 then m.start call.restart else m
  let m := if call.now.sub m.clockPrev > nanosecond then m.flush call.now else m
  { m with eventsCount := m.eventsCount + call.howMany }

/-- `Stop`, unless it divides by zero. -/
def stop (m : RateMonitor) (clockNow : Timespec) : Option RateMonitor := do
  let m := m.flush clockNow
  let d := clockNow.sub m.clockPrev
  let eventsPerSecond ←
    if m.eventsCount > 0 ∧ d > nanosecond / 20 then
      (divide (m.eventsCount * nanosecond) d).map fun rate => m.eventsPerSecond ++ [rate]
    else
      some m.eventsPerSecond
  return {
    clockPrev := { m.clockPrev with tvSec := 0 }
    eventsPerSecond
    eventsCount := 0 }

/-! ## The histogram -/

def histogram (m : RateMonitor) : Histogram UInt64 UInt64 :=
  ⟨m.eventsPerSecond, m.eventsCount⟩

/-- The outer test of `Increment` repeats that of the loop. -/
theorem flush_guarded (m : RateMonitor) (clockNow : Timespec) :
    (if clockNow.sub m.clockPrev > nanosecond then m.flush clockNow else m) = m.flush clockNow := by
  split
  · rfl
  · rename_i stop
    rw [flush, secondsLoop, dif_neg stop]

/-- The monitor has counted these events since the start. -/
abbrev Counts (start : Reading) (m : RateMonitor) (events : List (Nat × UInt64)) : Prop :=
  Keeps id start m.clockPrev m.histogram events

/-- Flushing up to a reading closes the seconds before it. -/
theorem Counts.flush {start : Reading} {m : RateMonitor} {events : List (Nat × UInt64)}
    (counts : Counts start m events) {now : Reading} (span : elapsed start now < 2 ^ 64)
    (reached : m.eventsPerSecond.length ≤ second (elapsed start now)) :
    Counts start (m.flush now) events ∧
      (m.flush now).eventsPerSecond.length = second (elapsed start now) := by
  have closes (m : RateMonitor) : m.closeSecond.histogram = m.histogram.close id := rfl
  exact counts.secondsLoop closes span reached

theorem Counts.increment {start : Reading} {m : RateMonitor} {events : List (Nat × UInt64)}
    (counts : Counts start m events) {call : Increment}
    (span : elapsed start call.now < 2 ^ 64)
    (reached : m.eventsPerSecond.length ≤ second (elapsed start call.now)) :
    Counts start (m.increment call)
        (events ++ [(second (elapsed start call.now), call.howMany)]) ∧
      (m.increment call).eventsPerSecond.length = second (elapsed start call.now) := by
  obtain ⟨flushed, length_flush⟩ := counts.flush span reached
  rw [RateMonitor.increment, if_neg counts.tvSec_ne_zero, flush_guarded]
  exact ⟨flushed.add length_flush call.howMany, length_flush⟩

/-- The second of a call and what it counts. -/
def event (start : Reading) (call : Increment) : Nat × UInt64 :=
  (second (elapsed start call.now), call.howMany)

/-- A run counts its calls. -/
theorem counts_run (m : RateMonitor) (empty : m.eventsPerSecond = []) (start : Reading)
    {calls : List Increment} (clock : Clocked start (calls.map Increment.now)) :
    Counts start (run increment (m.start start) calls) (calls.map (event start)) ∧
      (run increment (m.start start) calls).eventsPerSecond.length =
        latest (calls.map (event start)) := by
  have fresh : Counts start (m.start start) [] := by
    rw [RateMonitor.start, Counts, histogram, empty]
    exact ⟨(later_zero _).symm, Histogram.records_nil⟩
  have ordered : calls.Pairwise fun a b => (event start a).1 ≤ (event start b).1 :=
    (List.pairwise_map.mp (List.pairwise_cons.mp clock.ordered).2).imp
      fun le => second_mono (elapsed_mono le)
  apply keeps_run fresh empty ordered
  intro m events call member (counts : Counts start m events) reached
  exact counts.increment (clock.span call.now (List.mem_map_of_mem member)) reached

/-! ## The exact counts -/

/-- What calls have counted in a second since the start. -/
def countIn (start : Reading) (calls : List Increment) (k : Nat) : Nat :=
  ((calls.filter fun call => second (elapsed start call.now) = k).map
    fun call => call.howMany.toNat).sum

theorem countIn_le (start : Reading) (calls : List Increment) (k : Nat) :
    countIn start calls k ≤ (calls.map fun call => call.howMany.toNat).sum :=
  (List.filter_sublist.map _).sum_le_sum fun _ _ => Nat.zero_le _

/-- The count of a second does not overflow. -/
theorem toNat_bucketSum {start : Reading} {calls : List Increment}
    (few : (calls.map fun call => call.howMany.toNat).sum < 2 ^ 32) (k : Nat) :
    (bucketSum (calls.map (event start)) k).toNat = countIn start calls k := by
  have counts : ((calls.map (event start)).filter fun event => event.1 = k).map Prod.snd =
      (calls.filter fun call => second (elapsed start call.now) = k).map Increment.howMany := by
    rw [List.filter_map, List.map_map]
    rfl
  have small := countIn_le start calls k
  rw [countIn] at small ⊢
  rw [bucketSum, counts, toNat_sum, List.map_map]
  · rfl
  · rw [List.map_map]
    exact Nat.lt_of_le_of_lt small (by omega)

/-- The entries of a monitor that has counted calls. -/
theorem Counts.entries {start : Reading} {m : RateMonitor} {calls : List Increment}
    (counts : Counts start m (calls.map (event start)))
    (few : (calls.map fun call => call.howMany.toNat).sum < 2 ^ 32) :
    m.eventsPerSecond.map UInt64.toNat =
        (List.range m.eventsPerSecond.length).map (countIn start calls) ∧
      m.eventsCount.toNat = countIn start calls m.eventsPerSecond.length := by
  constructor
  · have closed : m.eventsPerSecond = (List.range m.eventsPerSecond.length).map
        fun bucket => bucketSum (calls.map (event start)) bucket := counts.records.closed
    have values := congrArg (List.map UInt64.toNat) closed
    rw [List.map_map] at values
    exact values.trans (List.map_congr_left fun k _ => toNat_bucketSum few k)
  · have current : m.eventsCount = bucketSum (calls.map (event start)) m.eventsPerSecond.length :=
      counts.records.current
    rw [current, toNat_bucketSum few]

/-- Nothing is counted twice or lost. -/
theorem Counts.sum {start : Reading} {m : RateMonitor} {calls : List Increment}
    (counts : Counts start m (calls.map (event start)))
    (few : (calls.map fun call => call.howMany.toNat).sum < 2 ^ 32) :
    (m.eventsPerSecond.map UInt64.toNat).sum + m.eventsCount.toNat =
      (calls.map fun call => call.howMany.toNat).sum := by
  obtain ⟨entries, current⟩ := counts.entries few
  have reached : ∀ event ∈ calls.map fun call =>
      (second (elapsed start call.now), call.howMany.toNat),
      event.1 < m.eventsPerSecond.length + 1 := by
    rw [List.forall_mem_map]
    intro call member
    exact Nat.lt_succ_of_le (counts.records.reached _ (List.mem_map_of_mem member))
  have countIn_eq : countIn start calls =
      bucketSum (calls.map fun call => (second (elapsed start call.now), call.howMany.toNat)) := by
    funext k
    rw [countIn, bucketSum, List.filter_map, List.map_map]
    rfl
  have buckets := sum_bucketSum reached
  rw [← countIn_eq, List.range_succ, List.map_append, List.sum_append, List.map_map] at buckets
  rw [List.map_singleton, List.sum_singleton] at buckets
  rw [entries, current]
  exact buckets

/-- `Stop` completes the seconds before its own, and adds the rate of its own if there is
something to divide and enough of it has passed. -/
theorem Counts.stop {start : Reading} {m : RateMonitor} {calls : List Increment}
    (counts : Counts start m (calls.map (event start)))
    (few : (calls.map fun call => call.howMany.toNat).sum < 2 ^ 32) {stopped : Reading}
    (span : elapsed start stopped < 2 ^ 64)
    (reached : m.eventsPerSecond.length ≤ second (elapsed start stopped)) :
    let b := second (elapsed start stopped)
    let n := countIn start calls b
    let d := elapsed start stopped - b * 1000000000
    ∃ m', m.stop stopped = some m' ∧
      m'.eventsPerSecond.map UInt64.toNat = (List.range b).map (countIn start calls) ++
        if 0 < n ∧ 1000000000 / 20 < d then [n * 1000000000 / d] else [] := by
  intro b n d
  obtain ⟨flushed, length_flush⟩ := counts.flush span reached
  obtain ⟨entries, current⟩ := flushed.entries few
  have clock : (m.flush stopped).clockPrev =
      start.later (m.flush stopped).eventsPerSecond.length := flushed.clock
  have length_flush : (m.flush stopped).eventsPerSecond.length = b := length_flush
  rw [length_flush] at entries current clock
  have count : (m.flush stopped).eventsCount.toNat = n := current
  have closer := elapsed_later start stopped b
  have normalised : (start.later b).Normalised := start.normalised
  have difference : (stopped.sub (m.flush stopped).clockPrev).toNat = d := by
    rw [clock, toNat_sub normalised stopped.normalised (by omega), closer]
  have one : nanosecond.toNat = 1000000000 := rfl
  have small : n < 2 ^ 32 := Nat.lt_of_le_of_lt (countIn_le start calls b) few
  have enough : (m.flush stopped).eventsCount > 0 ∧
      stopped.sub (m.flush stopped).clockPrev > nanosecond / 20 ↔
        0 < n ∧ 1000000000 / 20 < d := by
    rw [gt_iff_lt, gt_iff_lt, UInt64.lt_iff_toNat_lt, UInt64.lt_iff_toNat_lt, count, difference]
    rfl
  rw [RateMonitor.stop]
  by_cases adds : 0 < n ∧ 1000000000 / 20 < d
  · have positive : ¬ stopped.sub (m.flush stopped).clockPrev = 0 := by
      intro zero
      rw [zero] at difference
      have none : d = 0 := difference.symm
      omega
    have rate : ((m.flush stopped).eventsCount * nanosecond /
        stopped.sub (m.flush stopped).clockPrev).toNat = n * 1000000000 / d := by
      rw [UInt64.toNat_div, UInt64.toNat_mul, count, difference, one,
        Nat.mod_eq_of_lt (by omega)]
    rw [if_pos adds, if_pos (enough.mpr adds), divide, if_neg positive]
    exact ⟨_, rfl, by simp [entries, rate]⟩
  · rw [if_neg adds, if_neg (enough.not.mpr adds)]
    exact ⟨_, rfl, by simp [entries]⟩

/-- At every point of a run the entries are the counts of the seconds before that of the
latest call, and with the count of that second they are the total so far.  A `Stop`
completes the seconds before its own and appends the rate of its own. -/
theorem rates_exact (m : RateMonitor) (empty : m.eventsPerSecond = []) (start : Reading)
    (calls : List Increment) (clock : Clocked start (calls.map Increment.now))
    (few : (calls.map fun call => call.howMany.toNat).sum < 2 ^ 32) :
    (∀ done, done <+: calls →
      let monitor := run increment (m.start start) done
      monitor.eventsPerSecond.length = latest (done.map (event start)) ∧
      monitor.eventsPerSecond.map UInt64.toNat =
        (List.range monitor.eventsPerSecond.length).map (countIn start done) ∧
      (monitor.eventsPerSecond.map UInt64.toNat).sum + monitor.eventsCount.toNat =
        (done.map fun call => call.howMany.toNat).sum) ∧
    ∀ stopped : Reading, Clocked start (calls.map Increment.now ++ [stopped]) →
      let b := second (elapsed start stopped)
      let n := countIn start calls b
      let d := elapsed start stopped - b * 1000000000
      ∃ monitor, (run increment (m.start start) calls).stop stopped = some monitor ∧
        monitor.eventsPerSecond.map UInt64.toNat = (List.range b).map (countIn start calls) ++
          if 0 < n ∧ 1000000000 / 20 < d then [n * 1000000000 / d] else [] := by
  constructor
  · rintro done ⟨rest, rfl⟩
    rw [List.map_append, List.sum_append] at few
    rw [List.map_append] at clock
    obtain ⟨counts, length_eq⟩ := counts_run m empty start clock.of_append
    have fewDone : (done.map fun call => call.howMany.toNat).sum < 2 ^ 32 := by omega
    exact ⟨length_eq, (counts.entries fewDone).1, counts.sum fewDone⟩
  · intro stopped clockStop
    obtain ⟨counts, length_eq⟩ := counts_run m empty start clock
    apply counts.stop few (clockStop.span stopped (by simp))
    rw [length_eq]
    apply @latest_le _ (calls.map (event start)) (second (elapsed start stopped), 0)
    rw [List.forall_mem_map]
    intro call member
    exact second_mono (elapsed_mono (clockStop.le_last _ (List.mem_map_of_mem member)))

/-- Two events in the first second and three in the next, of which three quarters have
passed at the stop. -/
theorem rates_exact_sample :
    let start : Reading := ⟨⟨1, 0⟩, by decide, by decide, by decide⟩
    let first : Increment := ⟨2, start, ⟨⟨1, 500000000⟩, by decide, by decide, by decide⟩⟩
    let second : Increment := ⟨3, start, ⟨⟨2, 500000000⟩, by decide, by decide, by decide⟩⟩
    let stopped : Reading := ⟨⟨2, 750000000⟩, by decide, by decide, by decide⟩
    let m : RateMonitor := ⟨⟨0, 0⟩, [], 7⟩
    ∃ monitor, (run increment (m.start start) [first, second]).stop stopped = some monitor ∧
      monitor.eventsPerSecond.map UInt64.toNat = [2, 4] := by
  intro start first second stopped m
  have clock : Clocked start [first.now, second.now, stopped] :=
    ⟨by decide +kernel, by decide +kernel⟩
  obtain ⟨_, stops⟩ := rates_exact m rfl start [first, second]
    (@Clocked.of_append start [first.now, second.now] [stopped] clock) (by decide +kernel)
  obtain ⟨monitor, done, rates⟩ := stops stopped clock
  exact ⟨monitor, done, rates.trans (by decide +kernel)⟩

end RateMonitor

end Elevator.Harness
