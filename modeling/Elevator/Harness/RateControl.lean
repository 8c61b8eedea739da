import Elevator.Harness.Clock

/-!
# The event-based rate limit

`rateControl` makes a caller wait until as much time has passed since `Start` as the
events so far should have taken.  It multiplies the count by the nanoseconds of one
event, a quotient without its remainder, in 64 bits.  So a caller is held back long
enough exactly if nothing remains of that division and the product fits.

`Elevator.Harness.Pacing` adds the hit-based mode.
-/

namespace Elevator.Harness

open Timespec

/-- `rateControl` in its mode `EVENT_BASED`; a rate of zero is no limit. -/
structure RateControl where
  eventsCount : UInt64
  clockPrev : Timespec
  eventsPerSecond : UInt64

namespace RateControl

def start (c : RateControl) (now : Timespec) : RateControl :=
  { c with clockPrev := now, eventsCount := 0 }

/-- The time that the events so far should have taken, in nanoseconds. -/
def due (c : RateControl) : UInt64 :=
  nanosecond / c.eventsPerSecond * c.eventsCount

/-- The waiting loop: the reading that ends it, and the readings behind that one.  What the
loop sleeps between two readings shows in the second one only. -/
def wait (c : RateControl) : List Reading → Option (Reading × List Reading)
  | [] => none
  | clockNow :: clock =>
      if c.due > clockNow.sub c.clockPrev then c.wait clock else some (clockNow, clock)

/-- `IncrementAndWait`: the controller, the last reading that the call makes, if it makes
one, and the readings behind; no result as long as the caller waits. -/
def incrementAndWait (c : RateControl) (howMany : UInt64) (clock : List Reading) :
    Option (RateControl × Option Reading × List Reading) :=
  let c := { c with eventsCount := c.eventsCount + howMany }
  if c.eventsPerSecond = 0 then
    some (c, none, clock)
  else
    (c.wait clock).map fun woken => (c, some woken.1, woken.2)

/-- A number of calls for one event each, and the result of the last. -/
def calls (c : RateControl) (clock : List Reading) :
    Nat → Option (RateControl × Option Reading × List Reading)
  | 0 => some (c, none, clock)
  | n + 1 => (c.calls clock n).bind fun before => before.1.incrementAndWait 1 before.2.2

/-! ## One call -/

theorem wait_not_due {c : RateControl} {clock behind : List Reading} {woken : Reading}
    (waited : c.wait clock = some (woken, behind)) : ¬ c.due > woken.sub c.clockPrev := by
  induction clock with
  | nil => cases waited
  | cons clockNow clock ih =>
      rw [wait] at waited
      split at waited
      · exact ih waited
      · rename_i passed
        obtain ⟨rfl, rfl⟩ := Prod.mk.inj (Option.some.inj waited)
        exact passed

/-- A call counts its events and returns at a reading at which they are no longer due. -/
theorem incrementAndWait_eq_some {c c' : RateControl} {howMany : UInt64}
    {clock behind : List Reading} {woken : Option Reading}
    (returned : c.incrementAndWait howMany clock = some (c', woken, behind)) :
    c' = { c with eventsCount := c.eventsCount + howMany } ∧
      (c.eventsPerSecond ≠ 0 →
        ∃ clockNow, woken = some clockNow ∧ ¬ c'.due > clockNow.sub c'.clockPrev) := by
  rw [incrementAndWait] at returned
  dsimp only at returned
  split at returned
  · rename_i unlimited
    cases returned
    exact ⟨rfl, fun limited => absurd unlimited limited⟩
  · obtain ⟨⟨clockNow, left⟩, waited, same⟩ := Option.map_eq_some_iff.mp returned
    cases same
    exact ⟨rfl, fun _ => ⟨clockNow, rfl, wait_not_due waited⟩⟩

/-- A call at a reading at which nothing is due returns at once. -/
theorem incrementAndWait_of_not_due {c : RateControl} (limited : c.eventsPerSecond ≠ 0)
    {howMany : UInt64} {clockNow : Reading}
    (passed : ¬ ({ c with eventsCount := c.eventsCount + howMany } : RateControl).due >
      clockNow.sub c.clockPrev) (clock : List Reading) :
    c.incrementAndWait howMany (clockNow :: clock) =
      some ({ c with eventsCount := c.eventsCount + howMany }, some clockNow, clock) := by
  rw [incrementAndWait]
  dsimp only
  rw [if_neg limited, wait, if_neg passed]
  rfl

/-! ## Runs -/

/-- After some calls the controller has counted them. -/
def counted (c : RateControl) (start : Timespec) (n : Nat) : RateControl :=
  { c.start start with eventsCount := UInt64.ofNat n }

theorem counted_succ (c : RateControl) (start : Timespec) (n : Nat) :
    { c.counted start n with eventsCount := (c.counted start n).eventsCount + 1 } =
      c.counted start (n + 1) := by
  rw [counted, counted, UInt64.ofNat_add]
  rfl

/-- The product is reduced modulo `2 ^ 64`. -/
theorem toNat_due_counted (c : RateControl) (start : Timespec) (n : Nat) :
    (c.counted start n).due.toNat = 1000000000 / c.eventsPerSecond.toNat * n % 2 ^ 64 := by
  have one : nanosecond.toNat = 1000000000 := rfl
  change (nanosecond / c.eventsPerSecond * UInt64.ofNat n).toNat = _
  rw [UInt64.toNat_mul, UInt64.toNat_div, UInt64.toNat_ofNat', one, Nat.mul_mod_mod]

/-- Some calls after a start leave their count, and the last of them returns at a reading
at which that many events are no longer due. -/
theorem calls_eq_some {c c' : RateControl} {start : Timespec} {clock behind : List Reading}
    {woken : Option Reading} {n : Nat}
    (returned : (c.start start).calls clock n = some (c', woken, behind)) :
    c' = c.counted start n ∧
      (0 < n → c.eventsPerSecond ≠ 0 →
        ∃ clockNow, woken = some clockNow ∧
          ¬ (c.counted start n).due > clockNow.sub start) := by
  induction n generalizing c' woken behind with
  | zero =>
      cases returned
      exact ⟨rfl, fun none => absurd none (Nat.lt_irrefl 0)⟩
  | succ n ih =>
      obtain ⟨⟨before, woken', left⟩, earlier, last⟩ := Option.bind_eq_some_iff.mp returned
      obtain ⟨rfl, _⟩ := ih earlier
      obtain ⟨same, woke⟩ := incrementAndWait_eq_some last
      rw [counted_succ] at same
      rw [same] at woke
      exact ⟨same, fun _ => woke⟩

/-- Where the clock stands at a reading at which none of the calls has to wait, all of them
return at once. -/
theorem calls_replicate {c : RateControl} (limited : c.eventsPerSecond ≠ 0) {start : Timespec}
    {clockNow : Reading} {n : Nat}
    (passed : ∀ i ≤ n, ¬ (c.counted start i).due > clockNow.sub start) (clock : List Reading) :
    (c.start start).calls (List.replicate n clockNow ++ clock) n =
      some (c.counted start n, if n = 0 then none else some clockNow, clock) := by
  induction n generalizing clock with
  | zero => rfl
  | succ n ih =>
      have before := ih (fun i le => passed i (Nat.le_succ_of_le le)) (clockNow :: clock)
      have last := passed (n + 1) (Nat.le_refl _)
      rw [← counted_succ] at last
      have next := incrementAndWait_of_not_due (c := c.counted start n) limited last clock
      rw [counted_succ] at next
      rw [List.replicate_succ', List.append_assoc, List.singleton_append, calls, before,
        Option.bind_some, if_neg (Nat.succ_ne_zero n)]
      exact next

/-! ## The limit -/

/-- When the last of some calls returns, as much time has passed since the start as that
many events take at the rate, whatever the clock reads. -/
def NeverEarly (eventsPerSecond : UInt64) (n : Nat) : Prop :=
  ∀ (c : RateControl) (start : Reading) clock c' clockNow behind,
    c.eventsPerSecond = eventsPerSecond →
    (c.start start).calls clock n = some (c', some clockNow, behind) →
    (n * 1000000000 : Int) ≤ eventsPerSecond.toNat * (clockNow.ns - start.ns)

/-- Without a remainder and an overflow the limit is kept. -/
theorem neverEarly_of_dvd {r : UInt64} {n : Nat} (limited : r ≠ 0) (positive : 0 < n)
    (divides : r.toNat ∣ 1000000000) (fits : n * (1000000000 / r.toNat) < 2 ^ 64) :
    NeverEarly r n := by
  rintro c start clock c' clockNow behind rfl returned
  obtain ⟨_, same, passed⟩ := (calls_eq_some returned).2 positive limited
  cases same
  have passedNat := UInt64.le_iff_toNat_le.mp (UInt64.not_lt.mp passed)
  rw [toNat_due_counted, Nat.mul_comm, Nat.mod_eq_of_lt fits] at passedNat
  have waited := passedNat.trans (toNat_sub_le start.normalised clockNow.normalised)
  have exact' : c.eventsPerSecond.toNat * (1000000000 / c.eventsPerSecond.toNat) = 1000000000 :=
    Nat.mul_div_cancel' divides
  have interval : 0 < 1000000000 / c.eventsPerSecond.toNat := by
    apply Nat.pos_of_ne_zero
    intro zero
    rw [zero] at exact'
    contradiction
  have later : 0 < elapsed start clockNow := (Nat.mul_pos positive interval).trans_le waited
  have difference : clockNow.ns - start.ns = elapsed start clockNow := by
    unfold elapsed at later ⊢
    omega
  have enough : n * 1000000000 ≤ c.eventsPerSecond.toNat * elapsed start clockNow :=
    calc n * 1000000000
      _ = c.eventsPerSecond.toNat * (n * (1000000000 / c.eventsPerSecond.toNat)) := by
          rw [Nat.mul_left_comm, exact']
      _ ≤ c.eventsPerSecond.toNat * elapsed start clockNow := Nat.mul_le_mul_left _ waited
  rw [difference]
  exact_mod_cast enough

/-- A reading some nanoseconds after the first second. -/
def readingAfter (ns : Nat) : Reading where
  tvSec := 1 + ns / 1000000000
  tvNsec := ns % 1000000000
  set := by omega
  normalised := by
    constructor <;> dsimp only <;> omega

theorem ns_readingAfter (ns : Nat) : (readingAfter ns).ns - (readingAfter 0).ns = ns := by
  simp only [readingAfter, Timespec.ns]
  omega

/-- A clock that stands still lets the calls return as early as it can. -/
theorem le_of_neverEarly {r : UInt64} {n : Nat} (limited : r ≠ 0) (positive : 0 < n)
    (never : NeverEarly r n) :
    n * 1000000000 ≤ r.toNat * min (n * (1000000000 / r.toNat)) (2 ^ 64 - 1) := by
  let ns := min (n * (1000000000 / r.toNat)) (2 ^ 64 - 1)
  let c : RateControl := ⟨0, ⟨0, 0⟩, r⟩
  have span : elapsed (readingAfter 0) (readingAfter ns) = ns := by
    rw [elapsed, ns_readingAfter, Int.toNat_natCast]
  have passed : ∀ i ≤ n,
      ¬ (c.counted (readingAfter 0) i).due > (readingAfter ns).sub (readingAfter 0) := by
    intro i le
    have difference : ((readingAfter ns).sub (readingAfter 0)).toNat = ns := by
      rw [toNat_sub (readingAfter 0).normalised (readingAfter ns).normalised (by omega), span]
    apply UInt64.not_lt.mpr
    rw [UInt64.le_iff_toNat_le, toNat_due_counted, difference]
    apply Nat.le_min.mpr
    constructor
    · exact (Nat.mod_le _ _).trans (Nat.mul_comm n _ ▸ Nat.mul_le_mul_left _ le)
    · exact Nat.le_sub_one_of_lt (Nat.mod_lt _ (by decide))
  have returned := calls_replicate (c := c) limited passed []
  rw [if_neg positive.ne'] at returned
  have early := never c (readingAfter 0) _ _ _ _ rfl returned
  rw [ns_readingAfter] at early
  exact_mod_cast early

/-- The limit is kept exactly if a second is divided into events without a remainder and
the product of that interval and the count is less than `2 ^ 64`. -/
theorem neverEarly_iff (r : UInt64) (n : Nat) (limited : r ≠ 0) (positive : 0 < n) :
    NeverEarly r n ↔
      r.toNat ∣ 1000000000 ∧ n * (1000000000 / r.toNat) < 2 ^ 64 := by
  constructor
  · intro never
    have early := le_of_neverEarly limited positive never
    have rate : 0 < r.toNat :=
      Nat.pos_of_ne_zero fun zero => limited (UInt64.toNat_inj.mp zero)
    have interval : r.toNat * (1000000000 / r.toNat) ≤ 1000000000 := Nat.mul_div_le _ _
    have least : r.toNat * min (n * (1000000000 / r.toNat)) (2 ^ 64 - 1) ≤
        n * (r.toNat * (1000000000 / r.toNat)) := by
      rw [Nat.mul_left_comm]
      exact Nat.mul_le_mul_left _ (Nat.min_le_left _ _)
    constructor
    · have whole : 1000000000 ≤ r.toNat * (1000000000 / r.toNat) :=
        Nat.le_of_mul_le_mul_left (early.trans least) positive
      exact Dvd.intro _ (interval.antisymm whole)
    · by_contra overflow
      have shorter : min (n * (1000000000 / r.toNat)) (2 ^ 64 - 1) <
          n * (1000000000 / r.toNat) := by
        omega
      have less := Nat.mul_lt_mul_of_pos_left shorter rate
      rw [Nat.mul_left_comm] at less
      have whole := Nat.mul_le_mul_left n interval
      omega
  · rintro ⟨divides, fits⟩
    exact neverEarly_of_dvd limited positive divides fits

/-- Ten events at a thousand a second. -/
theorem neverEarly_thousand : NeverEarly 1000 10 :=
  (neverEarly_iff 1000 10 (by decide) (by decide)).mpr ⟨by decide, by decide⟩

/-- At three events a second the first call returns a third of a nanosecond early. -/
theorem third_early :
    let c : RateControl := ⟨0, ⟨0, 0⟩, 3⟩
    let clockNow := readingAfter 333333333
    (c.start (readingAfter 0)).calls [clockNow] 1 =
        some (c.counted (readingAfter 0) 1, some clockNow, []) ∧
      ¬ (1 * 1000000000 : Int) ≤ 3 * (clockNow.ns - (readingAfter 0).ns) ∧ ¬ NeverEarly 3 1 := by
  intro c clockNow
  have returned : (c.start (readingAfter 0)).calls [clockNow] 1 =
      some (c.counted (readingAfter 0) 1, some clockNow, []) := by
    rw [calls, calls, Option.bind_some, incrementAndWait_of_not_due (by decide) (by decide)]
    rfl
  have early : ¬ (1 * 1000000000 : Int) ≤ 3 * (clockNow.ns - (readingAfter 0).ns) := by
    decide
  constructor
  · exact returned
  constructor
  · exact early
  · intro never
    exact early (never c (readingAfter 0) _ _ _ _ rfl returned)

end RateControl

end Elevator.Harness
