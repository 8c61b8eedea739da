import Elevator.Sequence.PointwiseSum
import Mathlib.Data.UInt

/-!
# Adding up the threads

A worker that is done adds its rates and timers to the vectors of the parent, one
worker at a time.  Whatever the order, the parent is left with pointwise sums, each
as long as the longest contribution; a timer contributes where it has rates, so no
timer is longer than the rates by which `main` divides it.  The loops count in 32 bits
and do not end on a vector of 2^32 entries or more.
-/

namespace Elevator.Harness

open Transition Sequence

/-- What a worker has measured when it reaches the block. -/
structure Worker where
  eventsPerSecond : List UInt64
  readNsPerSecond : List UInt64
  writeNsPerSecond : List UInt64

/-- The vectors of the parent. -/
structure Aggregate where
  rate : List UInt64
  readTimer : List UInt64
  writeTimer : List UInt64

/-- The body of the loop over the rates. -/
def rateTurn (eventsPerSecond : List UInt64) (aggRate : List UInt64) (i : Nat) : List UInt64 :=
  addOrAppend aggRate i (eventsPerSecond.getD i 0)

def addRates (fuel : Nat) (eventsPerSecond aggRate : List UInt64) : Option (List UInt64) :=
  countedLoop (rateTurn eventsPerSecond) (fun _ => eventsPerSecond.length) fuel aggRate 0

/-- The body of the loops over a timer. -/
def timerTurn (eventsPerSecond nsPerSecond : List UInt64) (timer : List UInt64) (i : Nat) :
    List UInt64 :=
  if i < eventsPerSecond.length then
    addOrAppend timer i (eventsPerSecond.getD i 0 * nsPerSecond.getD i 0)
  else
    timer

def addTimer (fuel : Nat) (eventsPerSecond nsPerSecond timer : List UInt64) :
    Option (List UInt64) :=
  countedLoop (timerTurn eventsPerSecond nsPerSecond) (fun _ => nsPerSecond.length) fuel timer 0

/-- The block that a worker runs under `consoleMutex`, with fuel for each of its loops. -/
def addResults (fuel : Nat) (parent : Aggregate) (worker : Worker) : Option Aggregate := do
  let rate ← addRates fuel worker.eventsPerSecond parent.rate
  let readTimer ← addTimer fuel worker.eventsPerSecond worker.readNsPerSecond parent.readTimer
  let writeTimer ← addTimer fuel worker.eventsPerSecond worker.writeNsPerSecond parent.writeTimer
  return ⟨rate, readTimer, writeTimer⟩

/-- The workers in the order in which they take the mutex. -/
def aggregate (fuel : Nat) (order : List Worker) : Option Aggregate :=
  order.foldlM (addResults fuel) ⟨[], [], []⟩

/-- A division, unless it is by zero. -/
def divide (dividend divisor : UInt64) : Option UInt64 :=
  if divisor = 0 then none else some (dividend / divisor)

/-- The body of an averaging loop of `main`; without a result an index is out of
range or a division by zero. -/
def averageTurn (aggregateRate : List UInt64) (timer : List UInt64) (i : Nat) :
    Option (List UInt64) := do
  let rate ← aggregateRate[i]?
  let sum ← timer[i]?
  if rate > 0 then
    let average ← divide sum rate
    return timer.set i average
  else
    return timer.set i 0

/-- An averaging loop of `main`, with fuel; a failure of its body ends it. -/
def average (fuel : Nat) (aggregateRate timer : List UInt64) : Option (Option (List UInt64)) :=
  countedLoop (fun timer i => timer.bind fun timer => averageTurn aggregateRate timer i)
    (fun timer => timer.elim 0 List.length) fuel (some timer) 0

/-! ## The sums -/

/-- What a worker adds to the rate of second `i`. -/
def Worker.rate (worker : Worker) (i : Nat) : UInt64 :=
  worker.eventsPerSecond.getD i 0

/-- What a worker adds to the read timer of second `i`. -/
def Worker.readTime (worker : Worker) (i : Nat) : UInt64 :=
  worker.eventsPerSecond.getD i 0 * worker.readNsPerSecond.getD i 0

/-- What a worker adds to the write timer of second `i`. -/
def Worker.writeTime (worker : Worker) (i : Nat) : UInt64 :=
  worker.eventsPerSecond.getD i 0 * worker.writeNsPerSecond.getD i 0

/-- The seconds for which a worker has rates. -/
def Worker.seconds (worker : Worker) : Nat :=
  worker.eventsPerSecond.length

/-- The seconds for which a worker has rates and read times. -/
def Worker.readSeconds (worker : Worker) : Nat :=
  min worker.eventsPerSecond.length worker.readNsPerSecond.length

/-- The seconds for which a worker has rates and write times. -/
def Worker.writeSeconds (worker : Worker) : Nat :=
  min worker.eventsPerSecond.length worker.writeNsPerSecond.length

/-- The entries of every vector can be counted in 32 bits. -/
structure Worker.Small (worker : Worker) : Prop where
  rates : worker.eventsPerSecond.length < 2 ^ 32
  reads : worker.readNsPerSecond.length < 2 ^ 32
  writes : worker.writeNsPerSecond.length < 2 ^ 32

/-- The number of turns of its longest loop. -/
def Worker.turns (worker : Worker) : Nat :=
  max worker.eventsPerSecond.length
    (max worker.readNsPerSecond.length worker.writeNsPerSecond.length)

/-- A timer is added where there are rates. -/
theorem addTimer_eq {eventsPerSecond nsPerSecond : List UInt64}
    (small : nsPerSecond.length < 2 ^ 32) {fuel : Nat} (enough : nsPerSecond.length < fuel)
    (timer : List UInt64) :
    addTimer fuel eventsPerSecond nsPerSecond timer =
      some (addValues (fun i => eventsPerSecond.getD i 0 * nsPerSecond.getD i 0) timer
        (min eventsPerSecond.length nsPerSecond.length)) := by
  rw [addTimer, countedLoop_const small enough, addValues, Nat.min_comm]
  exact congrArg some (run_range_below _ timer nsPerSecond.length eventsPerSecond.length)

/-- What a worker leaves when its loops end. -/
def sumResults (parent : Aggregate) (worker : Worker) : Aggregate where
  rate := addValues worker.rate parent.rate worker.seconds
  readTimer := addValues worker.readTime parent.readTimer worker.readSeconds
  writeTimer := addValues worker.writeTime parent.writeTimer worker.writeSeconds

theorem addResults_eq {worker : Worker} (small : worker.Small) {fuel : Nat}
    (enough : worker.turns < fuel) (parent : Aggregate) :
    addResults fuel parent worker = some (sumResults parent worker) := by
  rcases Nat.max_lt.mp enough with ⟨rates, timers⟩
  rcases Nat.max_lt.mp timers with ⟨reads, writes⟩
  rw [addResults, addRates, countedLoop_const small.rates rates, addTimer_eq small.reads reads,
    addTimer_eq small.writes writes]
  rfl

theorem aggregate_eq_run {order : List Worker} (small : ∀ worker ∈ order, worker.Small)
    {fuel : Nat} (enough : ∀ worker ∈ order, worker.turns < fuel) :
    aggregate fuel order = some (run sumResults ⟨[], [], []⟩ order) := by
  have general (parent : Aggregate) :
      order.foldlM (addResults fuel) parent = some (run sumResults parent order) := by
    induction order generalizing parent with
    | nil => rfl
    | cons worker order ih =>
        rcases List.forall_mem_cons.mp small with ⟨first, rest⟩
        rcases List.forall_mem_cons.mp enough with ⟨ends, endsRest⟩
        rw [List.foldlM_cons, addResults_eq first ends]
        exact ih rest endsRest _
  exact general _

/-- The pointwise sums of what the workers have measured. -/
def sums (workers : List Worker) : Aggregate where
  rate := pointwiseSum Worker.rate Worker.seconds workers
  readTimer := pointwiseSum Worker.readTime Worker.readSeconds workers
  writeTimer := pointwiseSum Worker.writeTime Worker.writeSeconds workers

theorem run_sumResults (order : List Worker) :
    run sumResults ⟨[], [], []⟩ order = sums order := by
  have rate : (run sumResults ⟨[], [], []⟩ order).rate =
      addAll Worker.rate Worker.seconds [] order :=
    @run_map _ _ _ sumResults _ Aggregate.rate (fun _ _ => rfl) _ order
  have readTimer : (run sumResults ⟨[], [], []⟩ order).readTimer =
      addAll Worker.readTime Worker.readSeconds [] order :=
    @run_map _ _ _ sumResults _ Aggregate.readTimer (fun _ _ => rfl) _ order
  have writeTimer : (run sumResults ⟨[], [], []⟩ order).writeTimer =
      addAll Worker.writeTime Worker.writeSeconds [] order :=
    @run_map _ _ _ sumResults _ Aggregate.writeTimer (fun _ _ => rfl) _ order
  rw [addAll_eq_pointwiseSum] at rate readTimer writeTimer
  rw [sums, ← rate, ← readTimer, ← writeTimer]

/-- No worker counts more seconds for a timer than for its rates. -/
theorem length_timer_le {seconds : Worker → Nat}
    (within : ∀ worker, seconds worker ≤ worker.seconds)
    (values : Worker → Nat → UInt64) (workers : List Worker) :
    (pointwiseSum values seconds workers).length ≤ (sums workers).rate.length := by
  rw [sums, length_pointwiseSum, length_pointwiseSum]
  exact longest_le_longest within workers

theorem sums_perm {order workers : List Worker} (finished : order.Perm workers) :
    sums order = sums workers := by
  rw [sums, sums, pointwiseSum_perm _ _ finished, pointwiseSum_perm _ _ finished,
    pointwiseSum_perm _ _ finished]

/-! ## The averages -/

/-- A turn inside both vectors goes through. -/
theorem averageTurn_of_lt {aggregateRate timer : List UInt64} {i : Nat}
    (rated : i < aggregateRate.length) (timed : i < timer.length) :
    ∃ timer', averageTurn aggregateRate timer i = some timer' ∧
      timer'.length = timer.length := by
  simp only [averageTurn, List.getElem?_eq_getElem rated, List.getElem?_eq_getElem timed,
    Option.bind_eq_bind, Option.bind_some]
  by_cases positive : aggregateRate[i] > 0
  · have nonzero : aggregateRate[i] ≠ 0 := by
      intro zero
      rw [zero] at positive
      contradiction
    refine ⟨timer.set i (timer[i] / aggregateRate[i]), ?_, List.length_set⟩
    simp [positive, divide, nonzero]
  · exact ⟨timer.set i 0, by simp [positive], List.length_set⟩

/-- A timer no longer than the rates is averaged without a failure. -/
theorem exists_average {aggregateRate timer : List UInt64}
    (shorter : timer.length ≤ aggregateRate.length) (small : timer.length < 2 ^ 32) {fuel : Nat}
    (enough : timer.length < fuel) :
    ∃ averaged, average fuel aggregateRate timer = some (some averaged) := by
  have ends := @countedLoop_eq_run _
    (fun timer i => timer.bind fun timer => averageTurn aggregateRate timer i)
    (fun timer => timer.elim 0 List.length)
    (fun current => ∃ timer', current = some timer' ∧ timer'.length = timer.length) timer.length
    (by
      rintro _ ⟨timer', rfl, length⟩
      exact length)
    (by
      rintro _ i inside ⟨timer', rfl, length⟩
      rcases averageTurn_of_lt (Nat.lt_of_lt_of_le inside shorter) (length ▸ inside) with
        ⟨next, turned, kept⟩
      exact ⟨next, turned, kept.trans length⟩)
    small _ _ enough (some timer) ⟨timer, rfl, rfl⟩ 0 (Nat.zero_add _)
  rcases ends with ⟨ended, averaged, same, _⟩
  exact ⟨averaged, ended.trans (congrArg some same)⟩

/-- In whatever order workers with fewer than 2^32 entries finish, their loops end and
leave the parent the pointwise sums, and `main` averages both timers without a failure. -/
theorem aggregate_eq_pointwiseSum {workers order : List Worker} (finished : order.Perm workers)
    (small : ∀ worker ∈ workers, worker.Small) :
    ∃ fuel, aggregate fuel order = some (sums workers) ∧
      (∃ averaged, average fuel (sums workers).rate (sums workers).readTimer =
        some (some averaged)) ∧
      ∃ averaged, average fuel (sums workers).rate (sums workers).writeTimer =
        some (some averaged) := by
  have turns : ∀ worker ∈ order, worker.turns < 2 ^ 32 := by
    intro worker member
    rcases small worker (finished.subset member) with ⟨rates, reads, writes⟩
    exact Nat.max_lt.mpr ⟨rates, Nat.max_lt.mpr ⟨reads, writes⟩⟩
  have added := aggregate_eq_run (fun worker member => small worker (finished.subset member)) turns
  rw [run_sumResults, sums_perm finished] at added
  have rates : (sums workers).rate.length < 2 ^ 32 := by
    rw [sums, length_pointwiseSum]
    exact longest_lt _ (by simp) fun worker member => (small worker member).rates
  have averaged {timer : List UInt64} (shorter : timer.length ≤ (sums workers).rate.length) :=
    exists_average shorter (shorter.trans_lt rates) (shorter.trans_lt rates)
  refine ⟨2 ^ 32, added, ?_, ?_⟩
  · exact averaged (length_timer_le (fun _ => Nat.min_le_left _ _) _ workers)
  · exact averaged (length_timer_le (fun _ => Nat.min_le_left _ _) _ workers)

/-- Two workers, of whom the second finishes first. -/
theorem aggregate_eq_pointwiseSum_swap :
    let long : Worker := ⟨[2, 0, 3], [10, 20], [5, 5, 5, 5]⟩
    let short : Worker := ⟨[1], [7, 7], []⟩
    ∃ fuel, aggregate fuel [short, long] = some (sums [long, short]) ∧
      (∃ averaged, average fuel (sums [long, short]).rate (sums [long, short]).readTimer =
        some (some averaged)) ∧
      ∃ averaged, average fuel (sums [long, short]).rate (sums [long, short]).writeTimer =
        some (some averaged) := by
  apply aggregate_eq_pointwiseSum (List.Perm.swap _ _ _)
  intro worker member
  rcases List.mem_pair.mp member with rfl | rfl <;> constructor <;> simp

/-- A worker with more rates than its index can count never leaves the block. -/
theorem aggregate_eq_none {worker : Worker} (long : 2 ^ 32 ≤ worker.eventsPerSecond.length)
    (fuel : Nat) : aggregate fuel [worker] = none := by
  rw [aggregate, List.foldlM_cons, addResults, addRates, countedLoop_const_of_long long]
  rfl

/-- One such worker. -/
theorem aggregate_long :
    let worker : Worker := ⟨List.replicate (2 ^ 32) 0, [], []⟩
    ∀ fuel, aggregate fuel [worker] = none := by
  intro worker fuel
  apply aggregate_eq_none
  rw [List.length_replicate]

end Elevator.Harness
