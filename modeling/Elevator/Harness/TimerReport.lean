import Elevator.Harness.Aggregation
import Elevator.Harness.HiResTimer

/-!
# Reading the timers

`NsPerSecond` adds an entry for the unfinished second each time it is called, and leaves
the count of that second as it is.  The loops of a worker call it for their bound and for
their values, so the bound runs ahead of them as long as events are counted.  Where none
are, the loop adds the timer to that of the parent and ends.
-/

namespace Elevator.Harness.HiResTimer

open Transition Sequence

/-- The loop of `WorkerThread` over a timer, with fuel, at a clock that stands still: how
often its body ran, the timer and that of the parent. -/
def timerLoop (clockNow : Timespec) (eventsPerSecond : List UInt64) :
    Nat → HiResTimer → List UInt64 → UInt32 → Option (Nat × HiResTimer × List UInt64)
  | 0, _, _, _ => none
  | fuel + 1, s, timer, i =>
      let bound := s.getNsPerSecond clockNow
      if i.toNat < bound.2.length then
        let turned :=
          if i.toNat < eventsPerSecond.length then
            let read := bound.1.getNsPerSecond clockNow
            (read.1, addOrAppend timer i.toNat
              (eventsPerSecond.getD i.toNat 0 * read.2.getD i.toNat 0))
          else
            (bound.1, timer)
        (timerLoop clockNow eventsPerSecond fuel turned.1 turned.2 (i + 1)).map fun result =>
          (result.1 + 1, result.2)
      else
        some (0, bound.1, timer)

/-- A second call returns what the first one did. -/
def Repeatable (s : HiResTimer) (clockNow : Timespec) : Prop :=
  ((s.getNsPerSecond clockNow).1.getNsPerSecond clockNow).2 = (s.getNsPerSecond clockNow).2

/-- The loops over the timer end after as many turns as it has entries. -/
def LoopsEnd (s : HiResTimer) (clockNow : Timespec) : Prop :=
  ∀ eventsPerSecond timer, ∃ fuel s' timer',
    timerLoop clockNow eventsPerSecond fuel s timer 0 =
      some ((s.getNsPerSecond clockNow).2.length, s', timer')

/-! ## The count of the unfinished second -/

/-- Events are counted in a second that is not over. -/
def Busy (s : HiResTimer) (clockNow : Timespec) : Prop :=
  s.eventsCount > 0 ∧ ¬ clockNow.sub s.clockPrev > nanosecond

theorem length_flush (s : HiResTimer) (clockNow : Timespec) :
    (s.flush clockNow).nsPerSecond.length =
      s.nsPerSecond.length + secondsDue clockNow s.clockPrev := by
  have adds (s : HiResTimer) : s.closeSecond.nsPerSecond.length = s.nsPerSecond.length + 1 := by
    rw [closeSecond, List.length_append, List.length_singleton]
  exact @length_secondsLoop _ closeSecond (fun s => s.nsPerSecond.length) adds clockNow
    s.clockPrev s

/-- A second that is over is left without events. -/
theorem eventsCount_flush {s : HiResTimer} {clockNow : Timespec} (idle : ¬ s.Busy clockNow) :
    ¬ (s.flush clockNow).eventsCount > 0 := by
  by_cases more : clockNow.sub s.clockPrev > nanosecond
  · have none : (s.flush clockNow).eventsCount = 0 := by
      rw [flush, secondsLoop, dif_pos more]
      exact @secondsLoop_invariant _ closeSecond (fun s => s.eventsCount = 0) (fun _ _ => rfl)
        clockNow _ _ rfl
    rw [none]
    decide
  · rw [flush_of_not_more more]
    exact fun some => idle ⟨some, more⟩

/-- Without events a call flushes, and the next one does nothing. -/
theorem getNsPerSecond_of_idle {s : HiResTimer} {clockNow : Timespec}
    (idle : ¬ s.Busy clockNow) :
    s.getNsPerSecond clockNow = (s.flush clockNow, (s.flush clockNow).nsPerSecond) ∧
      (s.flush clockNow).getNsPerSecond clockNow =
        (s.flush clockNow, (s.flush clockNow).nsPerSecond) := by
  have none := eventsCount_flush idle
  have again : (s.flush clockNow).flush clockNow = s.flush clockNow :=
    flush_of_not_more (secondsLoop_stops closeSecond clockNow s.clockPrev s)
  constructor
  · rw [getNsPerSecond]
    rw [if_neg none]
  · rw [getNsPerSecond, again]
    rw [if_neg none]

/-- With events every call adds an entry and leaves them counted. -/
theorem getNsPerSecond_of_busy {s : HiResTimer} {clockNow : Timespec} (busy : s.Busy clockNow) :
    (s.getNsPerSecond clockNow).1.Busy clockNow ∧
      (s.getNsPerSecond clockNow).1.nsPerSecond = (s.getNsPerSecond clockNow).2 ∧
      (s.getNsPerSecond clockNow).2.length = s.nsPerSecond.length + 1 := by
  have added : s.getNsPerSecond clockNow =
      ({ s with nsPerSecond := s.nsPerSecond ++ [s.ns / s.eventsCount] },
        s.nsPerSecond ++ [s.ns / s.eventsCount]) := by
    rw [getNsPerSecond, flush_of_not_more busy.2]
    rw [if_pos busy.1]
  rw [added]
  exact ⟨busy, rfl, List.length_append⟩

/-! ## The loop -/

/-- With events the loop never ends. -/
theorem timerLoop_of_busy {clockNow : Timespec} {eventsPerSecond : List UInt64} (fuel : Nat)
    {s : HiResTimer} (busy : s.Busy clockNow) (timer : List UInt64) {i : UInt32}
    (behind : i.toNat ≤ s.nsPerSecond.length) :
    timerLoop clockNow eventsPerSecond fuel s timer i = none := by
  induction fuel generalizing s timer i with
  | zero => rfl
  | succ fuel ih =>
      obtain ⟨busyBound, same, longer⟩ := getNsPerSecond_of_busy busy
      obtain ⟨busyRead, sameRead, longerRead⟩ := getNsPerSecond_of_busy busyBound
      have next : (i + 1).toNat ≤ i.toNat + 1 := by
        rw [UInt32.toNat_add]
        exact Nat.mod_le _ _
      rw [timerLoop]
      dsimp only
      rw [if_pos (by omega)]
      split
      · rw [ih busyRead _ (by rw [sameRead, longerRead, same]; omega)]
        rfl
      · rw [ih busyBound _ (by rw [same]; omega)]
        rfl

section Settled

variable {clockNow : Timespec} {eventsPerSecond : List UInt64} {s : HiResTimer}
  (settled : s.getNsPerSecond clockNow = (s, s.nsPerSecond))

include settled

/-- One turn of the loop over a timer that no call changes. -/
theorem timerLoop_succ (fuel : Nat) (timer : List UInt64) {i : UInt32}
    (inside : i.toNat < s.nsPerSecond.length) :
    timerLoop clockNow eventsPerSecond (fuel + 1) s timer i =
      (timerLoop clockNow eventsPerSecond fuel s
        (timerTurn eventsPerSecond s.nsPerSecond timer i.toNat) (i + 1)).map fun result =>
          (result.1 + 1, result.2) := by
  rw [timerLoop, timerTurn]
  simp only [settled, inside, if_true]
  split <;> rfl

/-- The loop over such a timer goes through its entries. -/
theorem timerLoop_eq (small : s.nsPerSecond.length < 2 ^ 32) {count : Nat} (timer : List UInt64)
    {i : UInt32} (left : i.toNat + count = s.nsPerSecond.length) :
    timerLoop clockNow eventsPerSecond (count + 1) s timer i =
      some (count, s, run (timerTurn eventsPerSecond s.nsPerSecond) timer
        (List.range' i.toNat count)) := by
  induction count generalizing timer i with
  | zero =>
      have done : ¬ i.toNat < s.nsPerSecond.length := by omega
      rw [timerLoop]
      simp only [settled, done, if_false]
      rfl
  | succ count ih =>
      have next : (i + 1).toNat = i.toNat + 1 := by
        have one : (1 : UInt32).toNat = 1 := rfl
        rw [UInt32.toNat_add, one, Nat.mod_eq_of_lt (by omega)]
      rw [timerLoop_succ settled _ timer (by omega), ih _ (by omega), next, List.range'_succ,
        run_cons]
      rfl

/-- An index of 32 bits does not reach the end of a longer vector. -/
theorem timerLoop_of_long (long : 2 ^ 32 ≤ s.nsPerSecond.length) (fuel : Nat)
    (timer : List UInt64) (i : UInt32) :
    timerLoop clockNow eventsPerSecond fuel s timer i = none := by
  induction fuel generalizing timer i with
  | zero => rfl
  | succ fuel ih =>
      rw [timerLoop_succ settled fuel timer (i.toNat_lt.trans_le long), ih]
      rfl

end Settled

/-- The first call of the loop settles a timer without events. -/
theorem timerLoop_settle {s : HiResTimer} {clockNow : Timespec} (idle : ¬ s.Busy clockNow)
    (eventsPerSecond : List UInt64) (fuel : Nat) (timer : List UInt64) (i : UInt32) :
    timerLoop clockNow eventsPerSecond fuel s timer i =
      timerLoop clockNow eventsPerSecond fuel (s.flush clockNow) timer i := by
  obtain ⟨first, again⟩ := getNsPerSecond_of_idle idle
  cases fuel with
  | zero => rfl
  | succ fuel =>
      rw [timerLoop, timerLoop]
      simp only [first, again]

/-- A loop over a timer without events adds it to that of the parent. -/
theorem timerLoop_of_idle {s : HiResTimer} {clockNow : Timespec} (idle : ¬ s.Busy clockNow)
    (small : (s.flush clockNow).nsPerSecond.length < 2 ^ 32)
    (eventsPerSecond timer : List UInt64) :
    let entries := (s.getNsPerSecond clockNow).2
    ∃ added, addTimer (entries.length + 1) eventsPerSecond entries timer = some added ∧
      timerLoop clockNow eventsPerSecond (entries.length + 1) s timer 0 =
        some (entries.length, s.flush clockNow, added) := by
  intro entries
  obtain ⟨first, again⟩ := getNsPerSecond_of_idle idle
  have same : entries = (s.flush clockNow).nsPerSecond := congrArg Prod.snd first
  rw [timerLoop_settle idle, same, timerLoop_eq again small timer (Nat.zero_add _)]
  refine ⟨_, countedLoop_const small (Nat.lt_succ_self _) timer, ?_⟩
  rw [List.range_eq_range']
  rfl

/-- A timer is read alike twice, and the loops over it end, exactly if no event is counted
in a second that is not over and the entries can be counted in 32 bits. -/
theorem repeatable_iff (s : HiResTimer) (clockNow : Timespec) :
    s.Repeatable clockNow ∧ s.LoopsEnd clockNow ↔
      (s.eventsCount = 0 ∨ clockNow.sub s.clockPrev > nanosecond) ∧
        s.nsPerSecond.length + secondsDue clockNow s.clockPrev < 2 ^ 32 := by
  have idle_iff : s.eventsCount = 0 ∨ clockNow.sub s.clockPrev > nanosecond ↔
      ¬ s.Busy clockNow := by
    rw [Busy, not_and_or, not_not, gt_iff_lt, UInt64.not_lt, UInt64.le_zero_iff]
  rw [idle_iff, ← length_flush]
  constructor
  · rintro ⟨repeatable, ends⟩
    have idle : ¬ s.Busy clockNow := by
      intro busy
      obtain ⟨busyAfter, same, _⟩ := getNsPerSecond_of_busy busy
      have longer := (getNsPerSecond_of_busy busyAfter).2.2
      rw [same] at longer
      have lengths := congrArg List.length repeatable
      omega
    refine ⟨idle, Nat.lt_of_not_le fun long => ?_⟩
    obtain ⟨fuel, s', timer', ended⟩ := ends [] []
    rw [timerLoop_settle idle, timerLoop_of_long (getNsPerSecond_of_idle idle).2 long] at ended
    cases ended
  · rintro ⟨idle, small⟩
    obtain ⟨first, again⟩ := getNsPerSecond_of_idle idle
    constructor
    · rw [Repeatable, first, again]
    · intro eventsPerSecond timer
      obtain ⟨added, _, ended⟩ := timerLoop_of_idle idle small eventsPerSecond timer
      exact ⟨_, _, added, ended⟩

/-- A timer with an interval in the unfinished second grows with every call, and the loops
over it never end. -/
theorem pending_read_twice :
    let s : HiResTimer := ⟨⟨1, 0⟩, ⟨1, 0⟩, 1, 5, []⟩
    let clockNow : Timespec := ⟨1, 5⟩
    (s.getNsPerSecond clockNow).2 = [5] ∧
      ((s.getNsPerSecond clockNow).1.getNsPerSecond clockNow).2 = [5, 5] ∧
      (∀ eventsPerSecond timer fuel,
        timerLoop clockNow eventsPerSecond fuel s timer 0 = none) ∧
      ¬ (s.Repeatable clockNow ∧ s.LoopsEnd clockNow) := by
  intro s clockNow
  have busy : s.Busy clockNow := by
    constructor <;> decide
  have endless eventsPerSecond timer fuel :
      timerLoop clockNow eventsPerSecond fuel s timer 0 = none :=
    timerLoop_of_busy fuel busy timer (Nat.zero_le _)
  constructor
  · decide +kernel
  constructor
  · decide +kernel
  constructor
  · exact endless
  · rintro ⟨_, ends⟩
    obtain ⟨fuel, s', timer', ended⟩ := ends [] []
    rw [endless] at ended
    cases ended

end Elevator.Harness.HiResTimer
