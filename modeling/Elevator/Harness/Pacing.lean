import Elevator.Harness.RateControl
import Elevator.Cookie.Table

/-!
# Pacing a replay

In its mode `HIT_BASED` the controller keeps a virtual clock, which starts at the first hit
and runs faster or slower than the real one, and holds a hit back until the virtual
clock has reached its time.  A first hit with time zero does not start it.

How fast the virtual clock runs is a floating-point number.  The seconds that it has run
for, which the source computes from those of the real clock and casts to an integer, are
a parameter here.  What the loop sleeps between two readings shows in the second one
only.
-/

namespace Elevator.Harness

open Wire Timespec

/-- `rateControl` in its mode `HIT_BASED`. -/
structure ReplayControl where
  eventsCount : UInt64
  firstHitTime : TimeT
  startClockTime : TimeT
  virtualSeconds : TimeT → TimeT

namespace ReplayControl

/-- `time(NULL)`. -/
def time (clockNow : Reading) : TimeT :=
  Int64.ofInt clockNow.tvSec

def virtualTime (c : ReplayControl) (clockNow : Reading) : TimeT :=
  c.virtualSeconds (time clockNow - c.startClockTime) + c.firstHitTime

/-- The waiting loop: the reading that ends it, and the readings behind that one. -/
def wait (c : ReplayControl) (hitTimeGmt : TimeT) :
    List Reading → Option (Reading × List Reading)
  | [] => none
  | clockNow :: clock =>
      if c.virtualTime clockNow < hitTimeGmt then c.wait hitTimeGmt clock
      else some (clockNow, clock)

/-- `IncrementAndWait`: the controller, the last reading that the call makes, and the
readings behind. -/
def incrementAndWait (c : ReplayControl) (howMany : UInt64) (hitTimeGmt : TimeT)
    (clock : List Reading) : Option (ReplayControl × Reading × List Reading) :=
  let c : ReplayControl := { c with eventsCount := c.eventsCount + howMany }
  if c.firstHitTime = 0 then
    match clock with
    | [] => none
    | clockNow :: clock =>
        some ({ c with firstHitTime := hitTimeGmt, startClockTime := time clockNow }, clockNow,
          clock)
  else
    (c.wait hitTimeGmt clock).map fun woken => (c, woken.1, woken.2)

/-- The virtual clock has reached a time. -/
theorem wait_reached {c : ReplayControl} {hitTimeGmt : TimeT} {clock behind : List Reading}
    {woken : Reading} (waited : c.wait hitTimeGmt clock = some (woken, behind)) :
    ¬ c.virtualTime woken < hitTimeGmt := by
  induction clock with
  | nil => cases waited
  | cons clockNow clock ih =>
      rw [wait] at waited
      split at waited
      · exact ih waited
      · rename_i reached
        obtain ⟨rfl, rfl⟩ := Prod.mk.inj (Option.some.inj waited)
        exact reached

theorem wait_sublist {c : ReplayControl} {hitTimeGmt : TimeT} {clock behind : List Reading}
    {woken : Reading} (waited : c.wait hitTimeGmt clock = some (woken, behind)) :
    (woken :: behind).Sublist clock := by
  induction clock with
  | nil => cases waited
  | cons clockNow clock ih =>
      rw [wait] at waited
      split at waited
      · exact (ih waited).cons clockNow
      · obtain ⟨rfl, rfl⟩ := Prod.mk.inj (Option.some.inj waited)
        exact List.Sublist.refl _

/-- A call starts the virtual clock, or returns when it has reached the hit. -/
theorem incrementAndWait_eq_some {c c' : ReplayControl} {howMany : UInt64} {hitTimeGmt : TimeT}
    {clock behind : List Reading} {woken : Reading}
    (returned : c.incrementAndWait howMany hitTimeGmt clock = some (c', woken, behind)) :
    c'.virtualSeconds = c.virtualSeconds ∧
      if c.firstHitTime = 0 then
        c'.firstHitTime = hitTimeGmt ∧ c'.startClockTime = time woken
      else
        c'.firstHitTime = c.firstHitTime ∧ c'.startClockTime = c.startClockTime ∧
          ¬ c.virtualTime woken < hitTimeGmt := by
  unfold incrementAndWait at returned
  dsimp only at returned
  split at returned
  · rename_i unset
    rw [if_pos unset]
    split at returned
    · cases returned
    · cases returned
      exact ⟨rfl, rfl, rfl⟩
  · rename_i started
    rw [if_neg started]
    obtain ⟨⟨reading, left⟩, woke, same⟩ := Option.map_eq_some_iff.mp returned
    cases same
    have reached := wait_reached woke
    exact ⟨rfl, rfl, rfl, reached⟩

end ReplayControl

/-! ## Either mode -/

/-- `rateControl`. -/
inductive Controller
  | eventBased (c : RateControl)
  | hitBased (c : ReplayControl)

namespace Controller

/-- `IncrementAndWait`: the controller, the last reading that the call makes, if it makes
one, and the readings behind. -/
def incrementAndWait (howMany : UInt64) (hitTimeGmt : TimeT) (clock : List Reading) :
    Controller → Option (Controller × Option Reading × List Reading)
  | .eventBased c =>
      (c.incrementAndWait howMany clock).map fun result =>
        (.eventBased result.1, result.2.1, result.2.2)
  | .hitBased c =>
      (c.incrementAndWait howMany hitTimeGmt clock).map fun result =>
        (.hitBased result.1, some result.2.1, result.2.2)

end Controller

end Elevator.Harness
