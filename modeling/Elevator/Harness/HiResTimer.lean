import Elevator.Harness.Clock
import Mathlib.Algebra.Group.Prod
import Mathlib.Algebra.Order.BigOperators.Group.List

/-!
# The high-resolution timer

`hiResTimer` averages the time between `Start` and `Stop` over the intervals that stop
in each second.  Its constructor leaves both clocks as the memory has them, and `Start`
sets the reference clock only if its seconds are zero, so the averages are those of the
seconds since the first `Start` exactly if the memory held a zero there.
-/

namespace Elevator.Harness

open Transition Sequence Timespec

structure HiResTimer where
  clockStart : Timespec
  clockPrev : Timespec
  eventsCount : UInt64
  ns : UInt64
  nsPerSecond : List UInt64

/-- A `Start` with the `Stop` behind it: the reading that `Start` makes if the reference
clock is not set, the one it always makes, and that of `Stop`. -/
structure Interval where
  first : Reading
  start : Reading
  stop : Reading

namespace HiResTimer

/-- The constructor sets neither clock. -/
def construct (clockStart clockPrev : Timespec) : HiResTimer :=
  ⟨clockStart, clockPrev, 0, 0, []⟩

def start (s : HiResTimer) (first now : Timespec) : HiResTimer :=
  { s with
    clockPrev := if s.clockPrev.tvSec = 0 then first else s.clockPrev
    clockStart := now }

/-- The average of a second, zero if nothing was timed in it. -/
def average (timed : UInt64 × UInt64) : UInt64 :=
  timed.2 / if timed.1 = 0 then 1 else timed.1

/-- The body of the loops. -/
def closeSecond (s : HiResTimer) : HiResTimer :=
  { s with
    nsPerSecond := s.nsPerSecond ++ [average (s.eventsCount, s.ns)]
    eventsCount := 0
    ns := 0 }

/-- The loop of `Stop` and of `NsPerSecond`. -/
def flush (s : HiResTimer) (clockNow : Timespec) : HiResTimer :=
  let flushed := secondsLoop closeSecond clockNow s.clockPrev s
  { flushed.2 with clockPrev := flushed.1 }

def stop (s : HiResTimer) (clockNow : Timespec) : HiResTimer :=
  let s := if clockNow.sub s.clockPrev > nanosecond then s.flush clockNow else s
  { s with eventsCount := s.eventsCount + 1, ns := s.ns + clockNow.sub s.clockStart }

/-- `NsPerSecond`, which changes the timer too. -/
def getNsPerSecond (s : HiResTimer) (clockNow : Timespec) : HiResTimer × List UInt64 :=
  let s := s.flush clockNow
  let s :=
    if s.eventsCount > 0 then
      { s with nsPerSecond := s.nsPerSecond ++ [s.ns / s.eventsCount] }
    else
      s
  (s, s.nsPerSecond)

def timed (s : HiResTimer) (interval : Interval) : HiResTimer :=
  (s.start interval.first interval.start).stop interval.stop

/-! ## The histogram -/

/-- The averages, and the count and the time of the open second. -/
def histogram (s : HiResTimer) : Histogram (UInt64 × UInt64) UInt64 :=
  ⟨s.nsPerSecond, (s.eventsCount, s.ns)⟩

theorem flush_of_not_more {s : HiResTimer} {clockNow : Timespec}
    (stop : ¬ clockNow.sub s.clockPrev > nanosecond) : s.flush clockNow = s := by
  rw [flush, secondsLoop, dif_neg stop]

/-- The outer test of `Stop` repeats that of the loop. -/
theorem flush_guarded (s : HiResTimer) (clockNow : Timespec) :
    (if clockNow.sub s.clockPrev > nanosecond then s.flush clockNow else s) = s.flush clockNow := by
  split
  · rfl
  · rename_i stop
    exact (flush_of_not_more stop).symm

/-- The timer has recorded these intervals since its first start. -/
abbrev Times (reference : Reading) (s : HiResTimer) (events : List (Nat × (UInt64 × UInt64))) :
    Prop :=
  Keeps average reference s.clockPrev s.histogram events

/-- Flushing up to a reading closes the seconds before it. -/
theorem Times.flush {reference : Reading} {s : HiResTimer}
    {events : List (Nat × (UInt64 × UInt64))} (times : Times reference s events) {now : Reading}
    (span : elapsed reference now < 2 ^ 64)
    (reached : s.nsPerSecond.length ≤ second (elapsed reference now)) :
    Times reference (s.flush now) events ∧
      (s.flush now).nsPerSecond.length = second (elapsed reference now) := by
  have closes (s : HiResTimer) : s.closeSecond.histogram = s.histogram.close average := rfl
  exact times.secondsLoop closes span reached

theorem Times.start {reference : Reading} {s : HiResTimer}
    {events : List (Nat × (UInt64 × UInt64))} (times : Times reference s events)
    (first now : Timespec) : Times reference (s.start first now) events := by
  have same : (s.start first now).clockPrev = s.clockPrev := if_neg times.tvSec_ne_zero
  exact ⟨same.trans times.clock, times.records⟩

theorem Times.stop {reference : Reading} {s : HiResTimer}
    {events : List (Nat × (UInt64 × UInt64))} (times : Times reference s events) {now : Reading}
    (span : elapsed reference now < 2 ^ 64)
    (reached : s.nsPerSecond.length ≤ second (elapsed reference now)) :
    Times reference (s.stop now)
        (events ++ [(second (elapsed reference now), (1, now.sub s.clockStart))]) ∧
      (s.stop now).nsPerSecond.length = second (elapsed reference now) := by
  have clockStart : (s.flush now).clockStart = s.clockStart :=
    @secondsLoop_invariant _ closeSecond (fun s' => s'.clockStart = s.clockStart)
      (fun _ same => same) now s.clockPrev s rfl
  obtain ⟨flushed, length_flush⟩ := times.flush span reached
  rw [HiResTimer.stop, flush_guarded, clockStart]
  exact ⟨flushed.add length_flush (1, now.sub s.clockStart), length_flush⟩

/-- The second that an interval stops in, and what it adds to it. -/
def event (reference : Reading) (interval : Interval) : Nat × (UInt64 × UInt64) :=
  (second (elapsed reference interval.stop), (1, interval.stop.sub interval.start))

/-! ## Runs -/

/-- The readings of intervals, in the order in which they are made. -/
def readings (intervals : List Interval) : List Reading :=
  intervals.flatMap fun interval => [interval.first, interval.start, interval.stop]

/-- A run from a set clock times its intervals. -/
theorem times_run {reference : Reading} {s : HiResTimer} (times : Times reference s [])
    (empty : s.nsPerSecond = []) {intervals : List Interval}
    (clock : Clocked reference (readings intervals)) :
    Times reference (run timed s intervals) (intervals.map (event reference)) ∧
      (run timed s intervals).nsPerSecond.length = latest (intervals.map (event reference)) := by
  have ordered : intervals.Pairwise fun a b => (event reference a).1 ≤ (event reference b).1 := by
    have inOrder := (List.pairwise_cons.mp clock.ordered).2
    apply (List.pairwise_flatMap.mp inOrder).2.imp
    intro a b le
    exact second_mono (elapsed_mono (le _ (by simp) _ (by simp)))
  apply keeps_run times empty ordered
  intro s events interval member (times : Times reference s events) reached
  have among : interval.stop ∈ readings intervals :=
    List.mem_flatMap.mpr ⟨interval, member, by simp⟩
  exact (times.start interval.first interval.start).stop (clock.span interval.stop among) reached

/-! ## The averages -/

/-- How long the intervals were that stopped in a second since the first start. -/
def durationsIn (reference : Reading) (intervals : List Interval) (k : Nat) : List Nat :=
  (intervals.filter fun interval => second (elapsed reference interval.stop) = k).map
    fun interval => elapsed interval.start interval.stop

/-- Their average, zero if there are none. -/
def averageIn (reference : Reading) (intervals : List Interval) (k : Nat) : Nat :=
  (durationsIn reference intervals k).sum / (durationsIn reference intervals k).length

/-- What `NsPerSecond` is to return: an average for each second that is complete since the
first start, and one for the intervals of the second that is not. -/
def expected (reference : Reading) (intervals : List Interval) (asked : Reading) : List Nat :=
  let b := second (elapsed reference asked)
  (List.range b).map (averageIn reference intervals) ++
    if durationsIn reference intervals b = [] then [] else [averageIn reference intervals b]

/-- From clocks that the memory holds, every run of fewer than `2 ^ 64` intervals is
reported as it should be. -/
def ReportsAverages (clockStart clockPrev : Timespec) : Prop :=
  ∀ first rest (asked : Reading), (first :: rest).length < 2 ^ 64 →
    Clocked first.first (readings (first :: rest) ++ [asked]) →
    ((run timed (construct clockStart clockPrev) (first :: rest)).getNsPerSecond asked).2.map
      UInt64.toNat = expected first.first (first :: rest) asked

/-- Durations of intervals in order do not exceed the time that they are in. -/
theorem sum_elapsed_le {since last : Reading} {intervals : List Interval}
    (ordered : (since :: (readings intervals ++ [last])).Pairwise fun a b => a.ns ≤ b.ns) :
    (intervals.map fun interval => elapsed interval.start interval.stop).sum ≤
      elapsed since last := by
  induction intervals generalizing since with
  | nil => exact Nat.zero_le _
  | cons interval rest ih =>
      have split : readings (interval :: rest) ++ [last] =
          interval.first :: interval.start :: interval.stop :: (readings rest ++ [last]) := rfl
      rw [split] at ordered
      have toStart := (List.pairwise_cons.mp ordered).1 interval.start (by simp)
      have fromStart := ordered.of_cons.of_cons
      have toStop := (List.pairwise_cons.mp fromStart).1 interval.stop (by simp)
      have fromStop := fromStart.of_cons
      have toLast := (List.pairwise_cons.mp fromStop).1 last (by simp)
      have behind := ih fromStop
      rw [List.map_cons, List.sum_cons]
      unfold elapsed at behind ⊢
      omega

/-- A sum of pairs is the pair of the sums. -/
theorem sum_map_one (values : List UInt64) :
    (values.map fun value => ((1 : UInt64), value)).sum =
      ((List.replicate values.length 1).sum, values.sum) := by
  induction values with
  | nil => rfl
  | cons value values ih =>
      rw [List.map_cons, List.sum_cons, ih, List.length_cons, List.replicate_succ, List.sum_cons,
        List.sum_cons]
      rfl

/-- The count and the time of a second do not overflow. -/
theorem toNat_bucketSum {reference last : Reading} {intervals : List Interval}
    (few : intervals.length < 2 ^ 64) (clock : Clocked reference (readings intervals ++ [last]))
    (k : Nat) :
    (bucketSum (intervals.map (event reference)) k).1.toNat =
        (durationsIn reference intervals k).length ∧
      (bucketSum (intervals.map (event reference)) k).2.toNat =
        (durationsIn reference intervals k).sum := by
  let stopped := intervals.filter fun interval => second (elapsed reference interval.stop) = k
  let values := stopped.map fun interval => interval.stop.sub interval.start
  have length_values : values.length = (durationsIn reference intervals k).length := by
    rw [List.length_map, durationsIn, List.length_map]
  have length_le : values.length ≤ intervals.length := by
    rw [List.length_map]
    exact List.length_filter_le _ _
  have timed : bucketSum (intervals.map (event reference)) k =
      ((List.replicate values.length 1).sum, values.sum) := by
    rw [bucketSum, List.filter_map, List.map_map, ← sum_map_one, List.map_map]
    rfl
  have span := clock.span last (by simp)
  have within : (durationsIn reference intervals k).sum ≤ elapsed reference last :=
    le_trans ((List.filter_sublist.map _).sum_le_sum fun _ _ => Nat.zero_le _)
      (sum_elapsed_le clock.ordered)
  have durations : values.map UInt64.toNat = durationsIn reference intervals k := by
    rw [List.map_map]
    apply List.map_congr_left
    intro interval member
    apply toNat_sub interval.start.normalised interval.stop.normalised
    have single := List.le_sum_of_mem (List.mem_map_of_mem
      (f := fun interval : Interval => elapsed interval.start interval.stop) member)
    exact Nat.lt_of_le_of_lt single (Nat.lt_of_le_of_lt within span)
  rw [timed]
  constructor
  · have ones : ((List.replicate values.length 1).map UInt64.toNat).sum = values.length := by
      simp
    rw [toNat_sum (by omega), ones, length_values]
  · rw [toNat_sum (by rw [durations]; omega), durations]

/-- The entry of a second is the average of its intervals. -/
theorem toNat_average {timed : UInt64 × UInt64} {durations : List Nat}
    (count : timed.1.toNat = durations.length) (time : timed.2.toNat = durations.sum) :
    (average timed).toNat = durations.sum / durations.length := by
  rw [average, UInt64.toNat_div, time]
  by_cases none : timed.1 = 0
  · rw [none] at count
    have empty : durations = [] := List.eq_nil_of_length_eq_zero count.symm
    rw [if_pos none, empty]
    rfl
  · rw [if_neg none, count]

/-- A timer that has recorded intervals reports their averages. -/
theorem Times.reports {reference asked : Reading} {s : HiResTimer} {intervals : List Interval}
    (times : Times reference s (intervals.map (event reference)))
    (few : intervals.length < 2 ^ 64) (clock : Clocked reference (readings intervals ++ [asked]))
    (reached : s.nsPerSecond.length ≤ second (elapsed reference asked)) :
    (s.getNsPerSecond asked).2.map UInt64.toNat = expected reference intervals asked := by
  obtain ⟨flushed, length_flush⟩ := times.flush (clock.span asked (by simp)) reached
  rw [expected]
  generalize second (elapsed reference asked) = b at length_flush
  have entries : (s.flush asked).nsPerSecond.map UInt64.toNat =
      (List.range b).map (averageIn reference intervals) := by
    have closed : (s.flush asked).nsPerSecond =
        (List.range (s.flush asked).nsPerSecond.length).map fun bucket =>
          average (bucketSum (intervals.map (event reference)) bucket) := flushed.records.closed
    rw [length_flush] at closed
    rw [closed, List.map_map]
    apply List.map_congr_left
    intro k _
    obtain ⟨count, time⟩ := toNat_bucketSum few clock k
    exact toNat_average count time
  have current : ((s.flush asked).eventsCount, (s.flush asked).ns) =
      bucketSum (intervals.map (event reference)) (s.flush asked).nsPerSecond.length :=
    flushed.records.current
  obtain ⟨count, time⟩ := toNat_bucketSum few clock b
  rw [length_flush] at current
  rw [← current] at count time
  have some_iff : (s.flush asked).eventsCount > 0 ↔ durationsIn reference intervals b ≠ [] := by
    rw [gt_iff_lt, UInt64.lt_iff_toNat_lt, count, ← List.length_pos_iff]
    rfl
  rw [getNsPerSecond]
  by_cases none : durationsIn reference intervals b = []
  · have idle := some_iff.not.mpr (not_not.mpr none)
    rw [if_pos none, List.append_nil, ← entries]
    dsimp only
    rw [if_neg idle]
  · have busy := some_iff.mpr none
    rw [if_neg none, averageIn, ← entries, ← count, ← time]
    dsimp only
    rw [if_pos busy, List.map_append, List.map_singleton, UInt64.toNat_div]

/-! ## Unset clocks -/

/-- The first interval sets a reference clock of zero seconds. -/
theorem timed_construct (clockStart : Timespec) {clockPrev : Timespec} (unset : clockPrev.tvSec = 0)
    (interval : Interval) :
    (construct clockStart clockPrev).timed interval =
      (construct clockStart interval.first).timed interval := by
  have set : ¬ interval.first.tvSec = 0 := interval.first.set.ne'
  have started : (construct clockStart clockPrev).start interval.first interval.start =
      (construct clockStart interval.first).start interval.first interval.start := by
    simp only [HiResTimer.start, construct, unset, set, if_true, if_false]
  rw [timed, timed, started]

theorem reportsAverages_of_unset (clockStart : Timespec) {clockPrev : Timespec}
    (unset : clockPrev.tvSec = 0) : ReportsAverages clockStart clockPrev := by
  intro first rest asked few clock
  have fresh : Times first.first (construct clockStart first.first) [] :=
    ⟨(later_zero _).symm, Histogram.records_nil⟩
  obtain ⟨times, length_eq⟩ := times_run fresh rfl clock.of_append
  rw [run_cons, timed_construct clockStart unset, ← run_cons]
  apply times.reports few clock
  rw [length_eq]
  apply @latest_le _ ((first :: rest).map (event first.first))
    (second (elapsed first.first asked), (0, 0))
  rw [List.forall_mem_map]
  intro interval member
  apply second_mono (elapsed_mono (clock.le_last _ _))
  exact List.mem_flatMap.mpr ⟨interval, member, by simp⟩

/-! ## Clocks that are left over -/

/-- An interval of no length, timed over a clock that the memory happens to hold. -/
theorem timed_instant (clockStart : Timespec) {clockPrev : Timespec}
    (leftOver : clockPrev.tvSec ≠ 0) (r : Reading) :
    (construct clockStart clockPrev).timed ⟨r, r, r⟩ =
      { (construct r clockPrev).flush r with
        eventsCount := ((construct r clockPrev).flush r).eventsCount + 1
        ns := ((construct r clockPrev).flush r).ns +
          r.sub ((construct r clockPrev).flush r).clockStart } := by
  have started : (construct clockStart clockPrev).start r r = construct r clockPrev := by
    simp only [HiResTimer.start, construct, leftOver, if_false]
  rw [timed, started, stop, flush_guarded]

/-- Where no second is left to flush, one entry is added for what was timed. -/
theorem length_getNsPerSecond {s : HiResTimer} (busy : s.eventsCount > 0) {asked : Timespec}
    (stops : ¬ asked.sub s.clockPrev > nanosecond) :
    (s.getNsPerSecond asked).2.length = s.nsPerSecond.length + 1 := by
  rw [getNsPerSecond, flush_of_not_more stops]
  dsimp only
  rw [if_pos busy, List.length_append, List.length_singleton]

/-- The report after an interval of no length, at a time when no second is left to flush. -/
theorem length_report (clockStart : Timespec) {clockPrev : Timespec}
    (leftOver : clockPrev.tvSec ≠ 0) {r asked : Reading}
    (idle : ((construct r clockPrev).flush r).eventsCount = 0)
    (stops : ¬ asked.sub ((construct r clockPrev).flush r).clockPrev > nanosecond) :
    ((run timed (construct clockStart clockPrev) [⟨r, r, r⟩]).getNsPerSecond asked).2.length =
      ((construct r clockPrev).flush r).nsPerSecond.length + 1 := by
  rw [run_cons, run_nil, timed_instant clockStart leftOver]
  generalize (construct r clockPrev).flush r = s at idle stops
  have busy : s.eventsCount + 1 > 0 := by
    rw [idle]
    decide
  exact @length_getNsPerSecond
    { s with eventsCount := s.eventsCount + 1, ns := s.ns + r.sub s.clockStart } busy asked stops

/-- Over a clock of the past the first interval comes behind seconds that never were. -/
theorem not_reportsAverages_of_past (clockStart : Timespec) {clockPrev : Timespec}
    (leftOver : clockPrev.tvSec ≠ 0) {r : Reading} (past : r.sub clockPrev > nanosecond) :
    ¬ ReportsAverages clockStart clockPrev := by
  intro reports
  have clock : Clocked r [r, r, r, r] := ⟨by simp, by simp [elapsed]⟩
  have lengths := congrArg List.length (reports ⟨r, r, r⟩ [] r (by simp) clock)
  have one : (expected r [⟨r, r, r⟩] r).length = 1 := by
    simp [expected, durationsIn, elapsed, second]
  have stops : ¬ r.sub ((construct r clockPrev).flush r).clockPrev > nanosecond :=
    secondsLoop_stops closeSecond r clockPrev (construct r clockPrev)
  have closed (s : HiResTimer) :
      s.closeSecond.eventsCount = 0 ∧ 0 < s.closeSecond.nsPerSecond.length := by
    simp [closeSecond]
  have flushed : ((construct r clockPrev).flush r).eventsCount = 0 ∧
      0 < ((construct r clockPrev).flush r).nsPerSecond.length := by
    have prev : (construct r clockPrev).clockPrev = clockPrev := rfl
    rw [flush, prev, secondsLoop, dif_pos past]
    exact @secondsLoop_invariant _ closeSecond
      (fun s => s.eventsCount = 0 ∧ 0 < s.nsPerSecond.length) (fun s _ => closed s) r _ _ (closed _)
  rw [List.length_map, length_report clockStart leftOver flushed.1 stops] at lengths
  have none : ((construct r clockPrev).flush r).nsPerSecond.length = 0 :=
    Nat.succ_inj.mp (lengths.trans one)
  exact flushed.2.ne' none

/-- Over a clock of the future seconds go by without an entry. -/
theorem not_reportsAverages_of_future (clockStart : Timespec) {clockPrev : Timespec}
    (future : 6 ≤ clockPrev.tvSec) : ¬ ReportsAverages clockStart clockPrev := by
  intro reports
  let r : Reading := ⟨⟨1, 0⟩, by decide, by decide, by decide⟩
  let asked : Reading := ⟨⟨5, 0⟩, by decide, by decide, by decide⟩
  have clock : Clocked r [r, r, r, asked] := ⟨by decide +kernel, by decide +kernel⟩
  have lengths := congrArg List.length (reports ⟨r, r, r⟩ [] asked (by simp) clock)
  have three : (expected r [⟨r, r, r⟩] asked).length = 3 := by decide +kernel
  have stops (now : Timespec) (before : now.tvSec < clockPrev.tvSec) :
      ¬ now.sub (construct r clockPrev).clockPrev > nanosecond := by
    have zero : now.sub (construct r clockPrev).clockPrev = 0 := if_pos (Or.inl before)
    rw [zero]
    decide
  have idle : (construct r clockPrev).flush r = construct r clockPrev :=
    flush_of_not_more (stops r (lt_of_lt_of_le (by decide) future))
  have leftOver : clockPrev.tvSec ≠ 0 := by omega
  have stopsAsked := stops asked (lt_of_lt_of_le (by decide) future)
  rw [← idle] at stopsAsked
  have none : ((construct r clockPrev).flush r).eventsCount = 0 := by
    rw [idle]
    rfl
  rw [List.length_map, length_report clockStart leftOver none stopsAsked, idle] at lengths
  have four : 0 + 1 = 3 := lengths.trans three
  contradiction

/-- The averages are reported exactly from a memory that holds zero seconds in place of the
reference clock. -/
theorem reportsAverages_iff (clockStart clockPrev : Timespec) :
    ReportsAverages clockStart clockPrev ↔ clockPrev.tvSec = 0 := by
  constructor
  · intro reports
    by_contra leftOver
    rcases lt_or_ge clockPrev.tvSec 6 with before | future
    · let sixth : Reading := ⟨⟨6, 0⟩, by decide, by decide, by decide⟩
      let eighth : Reading := ⟨⟨8, 0⟩, by decide, by decide, by decide⟩
      have either : sixth.sub clockPrev > nanosecond ∨ eighth.sub clockPrev > nanosecond := by
        have one : nanosecond.toNat = 1000000000 := rfl
        have ns_sixth : sixth.ns = 6000000000 := rfl
        have ns_eighth : eighth.ns = 8000000000 := rfl
        have after : clockPrev.tvSec < eighth.tvSec := before.trans (by decide)
        rw [gt_iff_lt, gt_iff_lt, UInt64.lt_iff_toNat_lt, UInt64.lt_iff_toNat_lt,
          toNat_sub_of_lt before, toNat_sub_of_lt after, one, ns_sixth, ns_eighth]
        omega
      rcases either with past | past
      · exact not_reportsAverages_of_past clockStart leftOver past reports
      · exact not_reportsAverages_of_past clockStart leftOver past reports
    · exact not_reportsAverages_of_future clockStart future reports
  · exact reportsAverages_of_unset clockStart

/-- Over a clock that was left at one second, a report at six seconds has four entries for
seconds before the first start. -/
theorem leftOver_reported :
    let clockPrev : Timespec := ⟨1, 0⟩
    let r : Reading := ⟨⟨6, 0⟩, by decide, by decide, by decide⟩
    let s := run timed (construct ⟨0, 0⟩ clockPrev) [⟨r, r, r⟩]
    (s.getNsPerSecond r).2 = [0, 0, 0, 0, 0] ∧ expected r [⟨r, r, r⟩] r = [0] ∧
      ¬ ReportsAverages ⟨0, 0⟩ clockPrev := by
  intro clockPrev r s
  have reported : (s.getNsPerSecond r).2 = [0, 0, 0, 0, 0] := by decide +kernel
  have wanted : expected r [⟨r, r, r⟩] r = [0] := by decide +kernel
  constructor
  · exact reported
  constructor
  · exact wanted
  · intro reports
    have clock : Clocked r [r, r, r, r] := ⟨by simp, by simp [elapsed]⟩
    have report := reports ⟨r, r, r⟩ [] r (by simp) clock
    have same : ([0, 0, 0, 0, 0] : List UInt64).map UInt64.toNat = [0] :=
      (congrArg (List.map UInt64.toNat) reported).symm.trans (report.trans wanted)
    contradiction

end HiResTimer

end Elevator.Harness
