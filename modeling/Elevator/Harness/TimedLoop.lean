import Elevator.Harness.HiResTimer
import Elevator.Harness.Pacing
import Elevator.Harness.RateMonitor
import Elevator.Harness.Worker

/-!
# The loop over the hits and its clocks

Around every hit `WorkerThread` counts, waits, and times the constructor and the `Store`
of its cookie.  All of them read one clock, whose readings to come are a list here.  What
is done with the cookies does not depend on the clock; how often it is done in a second
is limited by the controller, and what the monitor and the timers have recorded is that
of exactly the hits that were served.
-/

namespace Elevator.Harness

open Wire Transition Sequence Timespec

/-! ## Readings -/

/-- The readings that `Increment` makes; the first one is made only if the clock is not
set. -/
def RateMonitor.counting (m : RateMonitor) (clock : List Reading) :
    Option (Increment × List Reading) :=
  if m.clockPrev.tvSec = 0 then
    match clock with
    | restart :: now :: clock => some (⟨1, restart, now⟩, clock)
    | _ => none
  else
    match clock with
    | now :: clock => some (⟨1, now, now⟩, clock)
    | _ => none

/-- The readings that `Start` and `Stop` make; the first one is made only if the reference
clock is not set. -/
def HiResTimer.timing (s : HiResTimer) (clock : List Reading) :
    Option (Interval × List Reading) :=
  if s.clockPrev.tvSec = 0 then
    match clock with
    | first :: start :: stop :: clock => some (⟨first, start, stop⟩, clock)
    | _ => none
  else
    match clock with
    | start :: stop :: clock => some (⟨start, start, stop⟩, clock)
    | _ => none

/-- What a worker counts, waits and times with, and the readings to come. -/
structure Instruments where
  clock : List Reading
  monitor : RateMonitor
  controller : Controller
  readTimer : HiResTimer
  writeTimer : HiResTimer

/-- A turn of the loop: the hit, and the readings made around it. -/
structure Turn where
  hit : HitData
  counted : Increment
  woken : Option Reading
  read : Interval
  written : Interval

/-- What a turn does but for the cookie; no result as long as it has to wait. -/
def Instruments.turn (instruments : Instruments) (hit : HitData) : Option (Turn × Instruments) := do
  let (counted, clock) ← instruments.monitor.counting instruments.clock
  let (controller, woken, clock) ←
    instruments.controller.incrementAndWait 1 hit.hitTimeGmt clock
  let (read, clock) ← instruments.readTimer.timing clock
  let (written, clock) ← instruments.writeTimer.timing clock
  return (⟨hit, counted, woken, read, written⟩,
    { clock
      monitor := instruments.monitor.increment counted
      controller
      readTimer := instruments.readTimer.timed read
      writeTimer := instruments.writeTimer.timed written })

/-- What the loop leaves. -/
structure Finished (σ : Type) where
  hits : DwfileHitSource
  store : σ
  instruments : Instruments
  turns : List Turn

open DwfileHitSource in
/-- The loop over the hits with what is around each, unless `NextHit` throws. -/
def timedLoop {σ : Type} (engine : StorageEngine σ) (junk : UInt8) (cast : LexicalCast) :
    Nat → DwfileHitSource → σ → Instruments → Option (Finished σ)
  | 0, hits, store, instruments => some ⟨hits, store, instruments, []⟩
  | requests + 1, hits, store, instruments =>
      match nextHit cast hits with
      | (.hit hit, hits) => do
          let (turn, instruments) ← instruments.turn hit
          let finished ←
            timedLoop engine junk cast requests hits (serve engine junk store hit) instruments
          return { finished with turns := turn :: finished.turns }
      | (.ended, hits) => some ⟨hits, store, instruments, []⟩
      | (.threw, _) => none

/-! ## Turns -/

/-- Readings made of those to come, in their order; one may be used twice. -/
structure Drawn (made clock : List Reading) : Prop where
  among : ∀ r ∈ made, r ∈ clock
  ordered : (clock.Pairwise fun a b => a.ns ≤ b.ns) → made.Pairwise fun a b => a.ns ≤ b.ns

namespace Drawn

variable {made made' clock : List Reading}

theorem of_sublist (sub : made.Sublist clock) : Drawn made clock where
  among _ member := sub.subset member
  ordered inOrder := inOrder.sublist sub

theorem trans (drawn : Drawn made made') (drawn' : Drawn made' clock) : Drawn made clock where
  among r member := drawn'.among r (drawn.among r member)
  ordered inOrder := drawn.ordered (drawn'.ordered inOrder)

theorem append_left (drawn : Drawn made clock) (before : List Reading) :
    Drawn (before ++ made) (before ++ clock) where
  among r member :=
    (List.mem_append.mp member).elim (List.mem_append_left _)
      fun later => List.mem_append_right _ (drawn.among r later)
  ordered inOrder := by
    rcases List.pairwise_append.mp inOrder with ⟨first, rest, across⟩
    exact List.pairwise_append.mpr ⟨first, drawn.ordered rest, fun a earlier b later =>
      across a earlier b (drawn.among b later)⟩

theorem twice (r : Reading) (clock : List Reading) : Drawn (r :: r :: clock) (r :: clock) where
  among r' member := by simpa using member
  ordered inOrder := by
    have behind := (List.pairwise_cons.mp inOrder).1
    exact List.pairwise_cons.mpr ⟨List.forall_mem_cons.mpr ⟨Int.le_refl _, behind⟩, inOrder⟩

end Drawn

theorem Clocked.drawn {start : Reading} {made clock : List Reading}
    (clocked : Clocked start clock) (drawn : Drawn made clock) : Clocked start made where
  ordered := by
    rcases List.pairwise_cons.mp clocked.ordered with ⟨behind, inOrder⟩
    exact List.pairwise_cons.mpr
      ⟨fun r member => behind r (drawn.among r member), drawn.ordered inOrder⟩
  span r member := clocked.span r (drawn.among r member)

/-- The readings of a turn, in their order. -/
def Turn.readings (turn : Turn) : List Reading :=
  turn.counted.now :: (turn.woken.toList ++
    [turn.read.first, turn.read.start, turn.read.stop,
      turn.written.first, turn.written.start, turn.written.stop])

theorem RateMonitor.counting_eq_some {m : RateMonitor} {clock behind : List Reading}
    {counted : Increment} (made : m.counting clock = some (counted, behind)) :
    counted.howMany = 1 ∧ Drawn (counted.now :: behind) clock := by
  unfold counting at made
  split at made
  · split at made
    · cases made
      exact ⟨rfl, .of_sublist (List.sublist_cons_self _ _)⟩
    · cases made
  · split at made
    · cases made
      exact ⟨rfl, .of_sublist (List.Sublist.refl _)⟩
    · cases made

theorem HiResTimer.timing_drawn {s : HiResTimer} {clock behind : List Reading}
    {interval : Interval} (made : s.timing clock = some (interval, behind)) :
    Drawn (interval.first :: interval.start :: interval.stop :: behind) clock := by
  unfold timing at made
  split at made
  · split at made
    · cases made
      exact .of_sublist (List.Sublist.refl _)
    · cases made
  · split at made
    · cases made
      exact .twice _ _
    · cases made

theorem RateControl.wait_sublist {c : RateControl} {clock behind : List Reading} {woken : Reading}
    (waited : c.wait clock = some (woken, behind)) : (woken :: behind).Sublist clock := by
  induction clock with
  | nil => cases waited
  | cons clockNow clock ih =>
      rw [wait] at waited
      split at waited
      · exact (ih waited).cons clockNow
      · rcases Prod.mk.inj (Option.some.inj waited) with ⟨rfl, rfl⟩
        exact List.Sublist.refl _

theorem Controller.incrementAndWait_drawn {c c' : Controller} {howMany : UInt64}
    {hitTimeGmt : TimeT} {clock behind : List Reading} {woken : Option Reading}
    (returned : c.incrementAndWait howMany hitTimeGmt clock = some (c', woken, behind)) :
    Drawn (woken.toList ++ behind) clock := by
  apply Drawn.of_sublist
  cases c with
  | eventBased c =>
      rcases Option.map_eq_some_iff.mp returned with ⟨result, waited, same⟩
      cases same
      rw [RateControl.incrementAndWait] at waited
      dsimp only at waited
      split at waited
      · cases waited
        exact List.Sublist.refl _
      · rcases Option.map_eq_some_iff.mp waited with ⟨_, woke, same⟩
        cases same
        exact RateControl.wait_sublist woke
  | hitBased c =>
      rcases Option.map_eq_some_iff.mp returned with ⟨result, waited, same⟩
      cases same
      unfold ReplayControl.incrementAndWait at waited
      dsimp only at waited
      split at waited
      · split at waited
        · cases waited
        · cases waited
          exact List.Sublist.refl _
      · rcases Option.map_eq_some_iff.mp waited with ⟨_, woke, same⟩
        cases same
        exact ReplayControl.wait_sublist woke

/-- What a turn does to each instrument. -/
structure TurnDone (before : Instruments) (turn : Turn) (after : Instruments) : Prop where
  once : turn.counted.howMany = 1
  monitor : after.monitor = before.monitor.increment turn.counted
  readTimer : after.readTimer = before.readTimer.timed turn.read
  writeTimer : after.writeTimer = before.writeTimer.timed turn.written
  paced : ∃ clock behind,
    before.controller.incrementAndWait 1 turn.hit.hitTimeGmt clock =
      some (after.controller, turn.woken, behind)
  clock : Drawn (turn.readings ++ after.clock) before.clock

theorem turnDone {before after : Instruments} {hit : HitData} {turn : Turn}
    (done : before.turn hit = some (turn, after)) :
    turn.hit = hit ∧ TurnDone before turn after := by
  rcases Option.bind_eq_some_iff.mp done with ⟨⟨counted, clock₁⟩, counting, rest⟩
  rcases Option.bind_eq_some_iff.mp rest with ⟨⟨controller, woken, clock₂⟩, pacing, rest⟩
  rcases Option.bind_eq_some_iff.mp rest with ⟨⟨read, clock₃⟩, reading, rest⟩
  rcases Option.bind_eq_some_iff.mp rest with ⟨⟨written, clock₄⟩, writing, rest⟩
  cases rest
  rcases RateMonitor.counting_eq_some counting with ⟨once, first⟩
  have second := Controller.incrementAndWait_drawn pacing
  have third := HiResTimer.timing_drawn reading
  have fourth := HiResTimer.timing_drawn writing
  constructor
  · rfl
  · constructor
    · exact once
    · rfl
    · rfl
    · rfl
    · exact ⟨clock₁, clock₂, pacing⟩
    · have behind := (fourth.append_left [read.first, read.start, read.stop]).trans third
      have all := ((behind.append_left woken.toList).trans second).append_left [counted.now]
      rw [Turn.readings, List.cons_append, List.append_assoc]
      exact all.trans first

/-- Turns one after the other. -/
inductive Ran : Instruments → List Turn → Instruments → Prop
  | nil (instruments : Instruments) : Ran instruments [] instruments
  | cons {before between after : Instruments} {turn : Turn} {turns : List Turn}
      (first : TurnDone before turn between) (rest : Ran between turns after) :
      Ran before (turn :: turns) after

/-- The loop does with the cookies what it does without a clock, and its turns are those of
the hits that it serves. -/
theorem timedLoop_eq_some {σ : Type} {engine : StorageEngine σ} {junk : UInt8}
    {cast : LexicalCast} {requests : Nat} {hits : DwfileHitSource} {store : σ}
    {instruments : Instruments} {finished : Finished σ}
    (done : timedLoop engine junk cast requests hits store instruments = some finished) :
    workerLoop engine junk cast requests hits store = some (finished.hits, finished.store) ∧
      finished.store = run (serve engine junk) store (finished.turns.map Turn.hit) ∧
      finished.turns.length ≤ requests ∧
      Ran instruments finished.turns finished.instruments := by
  induction requests generalizing hits store instruments finished with
  | zero =>
      cases done
      exact ⟨rfl, rfl, Nat.le_refl 0, Ran.nil instruments⟩
  | succ requests ih =>
      rw [timedLoop] at done
      rw [workerLoop]
      rcases next : DwfileHitSource.nextHit cast hits with ⟨returned, left⟩
      rw [next] at done
      cases returned with
      | hit hit =>
          rcases Option.bind_eq_some_iff.mp done with ⟨⟨turn, between⟩, first, rest⟩
          rcases Option.bind_eq_some_iff.mp rest with ⟨later, looped, same⟩
          cases same
          rcases turnDone first with ⟨rfl, turned⟩
          rcases ih looped with ⟨plain, served, few, ran⟩
          exact ⟨plain, served, Nat.succ_le_succ few, Ran.cons turned ran⟩
      | ended =>
          cases done
          exact ⟨rfl, rfl, Nat.zero_le _, Ran.nil instruments⟩
      | threw => cases done

namespace Ran

variable {before after : Instruments} {turns : List Turn}

theorem once (ran : Ran before turns after) : ∀ turn ∈ turns, turn.counted.howMany = 1 := by
  induction ran with
  | nil instruments => exact fun _ member => by cases member
  | cons first rest ih => exact List.forall_mem_cons.mpr ⟨first.once, ih⟩

theorem monitor (ran : Ran before turns after) :
    after.monitor = run RateMonitor.increment before.monitor (turns.map Turn.counted) := by
  induction ran with
  | nil instruments => rfl
  | cons first rest ih => rw [ih, first.monitor, List.map_cons, run_cons]

theorem readTimer (ran : Ran before turns after) :
    after.readTimer = run HiResTimer.timed before.readTimer (turns.map Turn.read) := by
  induction ran with
  | nil instruments => rfl
  | cons first rest ih => rw [ih, first.readTimer, List.map_cons, run_cons]

theorem writeTimer (ran : Ran before turns after) :
    after.writeTimer = run HiResTimer.timed before.writeTimer (turns.map Turn.written) := by
  induction ran with
  | nil instruments => rfl
  | cons first rest ih => rw [ih, first.writeTimer, List.map_cons, run_cons]

/-- The readings of the turns are made one behind the other. -/
theorem clock (ran : Ran before turns after) :
    Drawn (turns.flatMap Turn.readings ++ after.clock) before.clock := by
  induction ran with
  | nil instruments => exact .of_sublist (List.Sublist.refl _)
  | cons first rest ih =>
      rw [List.flatMap_cons, List.append_assoc]
      exact (ih.append_left _).trans first.clock

/-- No turn counts before an earlier one has waited. -/
theorem ordered (ran : Ran before turns after) {started : Reading}
    (clock : Clocked started before.clock) :
    turns.Pairwise fun a b => ∀ w, a.woken = some w → w.ns ≤ b.counted.now.ns := by
  have inOrder := (List.pairwise_cons.mp (clock.drawn ran.clock).ordered).2.sublist
    (List.sublist_append_left _ _)
  apply (List.pairwise_flatMap.mp inOrder).2.imp
  intro a b le w woken
  exact le w (by simp [Turn.readings, woken]) b.counted.now (by simp [Turn.readings])

/-- An event-based controller lets a turn go on when its hit and those before are no longer
due. -/
theorem eventBased (ran : Ran before turns after) {c : RateControl} {start : Timespec} {n : Nat}
    (controller : before.controller = .eventBased (c.counted start n))
    (limited : c.eventsPerSecond ≠ 0) :
    ∀ i turn, turns[i]? = some turn →
      ∃ w, turn.woken = some w ∧ ¬ (c.counted start (n + i + 1)).due > w.sub start := by
  induction ran generalizing n with
  | nil instruments => exact fun i turn found => by cases found
  | cons first rest ih =>
      rcases first.paced with ⟨clock, behind, paced⟩
      rw [controller] at paced
      rcases Option.map_eq_some_iff.mp paced with ⟨result, waited, same⟩
      rcases RateControl.incrementAndWait_eq_some waited with ⟨counts, woke⟩
      rw [RateControl.counted_succ] at counts
      rw [counts] at same woke
      rcases Prod.mk.inj same with ⟨next, sameWoken⟩
      rcases Prod.mk.inj sameWoken with ⟨woken, -⟩
      intro i turn found
      cases i with
      | zero =>
          cases found
          rcases woke limited with ⟨w, here, passed⟩
          exact ⟨w, woken ▸ here, passed⟩
      | succ i =>
          have later := ih next.symm i turn found
          rwa [Nat.add_assoc n 1 i, Nat.add_comm 1 i] at later

end Ran

/-! ## A limited worker -/

/-- The instruments as the loop begins.  Besides the two calls of `Start` that it knows,
both constructors have read the clock. -/
def Instruments.limited (requestRate : UInt64) (constructed constructed' start started : Reading)
    (readTimer writeTimer : HiResTimer) (clock : List Reading) : Instruments where
  clock := clock
  monitor := (⟨constructed', [], 0⟩ : RateMonitor).start started
  controller := .eventBased ((⟨0, constructed, requestRate⟩ : RateControl).start start)
  readTimer := readTimer
  writeTimer := writeTimer

section Limited

variable {before after : Instruments} {turns : List Turn} {start started : Reading}
  {requestRate : UInt64}

/-- A turn is not counted before the hits of the earlier turns have had their time. -/
theorem Ran.notBefore (ran : Ran before turns after) {constructed : Timespec}
    (controller : before.controller =
      .eventBased ((⟨0, constructed, requestRate⟩ : RateControl).start start))
    (limited : requestRate ≠ 0) (clock : Clocked started before.clock)
    (few : turns.length < 2 ^ 32) {i : Nat} {turn : Turn} (found : turns[i]? = some turn) :
    i * (1000000000 / requestRate.toNat) ≤ elapsed start turn.counted.now := by
  cases i with
  | zero => exact (Nat.zero_mul _).trans_le (Nat.zero_le _)
  | succ i =>
      rcases List.getElem?_eq_some_iff.mp found with ⟨inside, same⟩
      have earlier : turns[i]? = some (turns[i]) := List.getElem?_eq_getElem _
      have fresh : before.controller =
          .eventBased ((⟨0, constructed, requestRate⟩ : RateControl).counted start 0) := controller
      rcases ran.eventBased fresh limited i _ earlier with ⟨w, woken, passed⟩
      have inOrder := List.pairwise_iff_getElem.mp (ran.ordered clock) i (i + 1) (by omega) inside
        (Nat.lt_succ_self i) w woken
      have passedNat := UInt64.le_iff_toNat_le.mp (UInt64.not_lt.mp passed)
      have interval : 1000000000 / requestRate.toNat ≤ 1000000000 := Nat.div_le_self _ _
      have fits : 1000000000 / requestRate.toNat * (0 + i + 1) < 2 ^ 64 :=
        calc 1000000000 / requestRate.toNat * (0 + i + 1)
          _ ≤ 1000000000 * 2 ^ 32 := Nat.mul_le_mul interval (by omega)
          _ < 2 ^ 64 := by decide
      rw [RateControl.toNat_due_counted, Nat.mod_eq_of_lt fits] at passedNat
      calc (i + 1) * (1000000000 / requestRate.toNat)
        _ = 1000000000 / requestRate.toNat * (0 + i + 1) := by rw [Nat.zero_add, Nat.mul_comm]
        _ ≤ elapsed start w := passedNat.trans (toNat_sub_le start.normalised w.normalised)
        _ ≤ elapsed start turn.counted.now := elapsed_mono (same ▸ inOrder)

/-- The last entry that passes is behind all the others that do. -/
theorem exists_of_countP_pos {α : Type*} {test : α → Bool} {entries : List α}
    (some : 0 < entries.countP test) :
    ∃ (i : Nat) (entry : α), entries[i]? = Option.some entry ∧ test entry = true ∧
      entries.countP test ≤ i + 1 := by
  induction entries using List.reverseRecOn with
  | nil => exact absurd some (Nat.lt_irrefl 0)
  | append_singleton entries last ih =>
      rw [List.countP_append, List.countP_singleton] at some ⊢
      by_cases passes : test last = true
      · refine ⟨entries.length, last, by simp, passes, ?_⟩
        rw [if_pos passes]
        exact Nat.add_le_add_right List.countP_le_length 1
      · rw [if_neg passes] at some ⊢
        rcases ih some with ⟨i, entry, found, test, last'⟩
        refine ⟨i, entry, ?_, test, last'⟩
        rw [List.getElem?_append_left (List.getElem?_eq_some_iff.mp found).1, found]

/-- How many turns are counted in a time. -/
theorem Ran.countP_le (ran : Ran before turns after) {constructed : Timespec}
    (controller : before.controller =
      .eventBased ((⟨0, constructed, requestRate⟩ : RateControl).start start))
    (limited : requestRate ≠ 0) (clock : Clocked started before.clock)
    (few : turns.length < 2 ^ 32) (time : Nat) :
    (turns.countP (fun turn => elapsed start turn.counted.now ≤ time) - 1) *
        (1000000000 / requestRate.toNat) ≤ time := by
  by_cases some : 0 < turns.countP fun turn => elapsed start turn.counted.now ≤ time
  · rcases exists_of_countP_pos some with ⟨i, turn, found, within, last⟩
    have bound := ran.notBefore controller limited clock few found
    exact (Nat.mul_le_mul_right _ (Nat.sub_le_of_le_add last)).trans
      (bound.trans (of_decide_eq_true within))
  · rw [Nat.eq_zero_of_not_pos some, Nat.zero_sub, Nat.zero_mul]
    exact Nat.zero_le _

/-- The counts of the first seconds, added up. -/
theorem sum_countIn {turns : List Turn} (once : ∀ turn ∈ turns, turn.counted.howMany = 1)
    (k : Nat) :
    ((List.range k).map (RateMonitor.countIn started (turns.map Turn.counted))).sum =
      turns.countP fun turn => second (elapsed started turn.counted.now) < k := by
  induction turns with
  | nil =>
      have zero : RateMonitor.countIn started [] = fun _ => 0 := rfl
      simp [zero]
  | cons turn turns ih =>
      rcases List.forall_mem_cons.mp once with ⟨first, rest⟩
      have split : RateMonitor.countIn started ((turn :: turns).map Turn.counted) = fun k =>
          RateMonitor.countIn started (turns.map Turn.counted) k +
            if second (elapsed started turn.counted.now) = k then 1 else 0 := by
        funext k
        rw [RateMonitor.countIn, RateMonitor.countIn, List.map_cons, List.filter_cons]
        by_cases here : second (elapsed started turn.counted.now) = k
        · rw [if_pos (decide_eq_true here), if_pos here, List.map_cons, List.sum_cons, first,
            Nat.add_comm]
          rfl
        · rw [if_neg (by simpa using here), if_neg here, Nat.add_zero]
      rw [split, List.sum_map_add, ih rest, sum_single, List.countP_cons]
      simp only [decide_eq_true_eq]

theorem sum_howMany {turns : List Turn} (once : ∀ turn ∈ turns, turn.counted.howMany = 1) :
    ((turns.map Turn.counted).map fun call => call.howMany.toNat).sum = turns.length := by
  induction turns with
  | nil => rfl
  | cons turn turns ih =>
      rcases List.forall_mem_cons.mp once with ⟨first, rest⟩
      rw [List.map_cons, List.map_cons, List.sum_cons, ih rest, first, List.length_cons,
        Nat.add_comm]
      rfl

theorem second_lt_iff {e k : Nat} (positive : 0 < k) : second e < k ↔ e ≤ k * 1000000000 := by
  unfold second
  omega

theorem elapsed_le_add (start started now : Timespec) :
    elapsed start now ≤ elapsed started now + elapsed start started := by
  unfold elapsed
  omega

theorem sublist_flatMap_cons (turns : List Turn) :
    (turns.map (Increment.now ∘ Turn.counted)).Sublist (turns.flatMap Turn.readings) := by
  induction turns with
  | nil => exact List.Sublist.refl _
  | cons turn turns ih =>
      rw [List.map_cons, List.flatMap_cons]
      exact (ih.trans (List.sublist_append_right _ _)).cons_cons turn.counted.now

end Limited

/-- Under a limit a worker serves what it would serve without a clock, and reports every
hit that it serves.  In the first seconds since its monitor was started it reports one
hit more at most than there are intervals of the limit in the time since its controller
was started. -/
theorem limited_reports {σ : Type} {engine : StorageEngine σ} {junk : UInt8} {cast : LexicalCast}
    {requests : UInt32} {hits : DwfileHitSource} {store : σ} {requestRate : UInt64}
    {constructed constructed' start started stopped : Reading} {readTimer writeTimer : HiResTimer}
    {clock behind : List Reading} {finished : Finished σ} (limited : requestRate ≠ 0)
    (ordered : Clocked started clock)
    (done : timedLoop engine junk cast requests.toNat hits store
      (Instruments.limited requestRate constructed constructed' start started readTimer writeTimer
        clock) = some finished)
    (stop : finished.instruments.clock = stopped :: behind) :
    workerLoop engine junk cast requests.toNat hits store =
        some (finished.hits, finished.store) ∧
      ∃ monitor, finished.instruments.monitor.stop stopped = some monitor ∧
        let entries := monitor.eventsPerSecond.map UInt64.toNat
        let seconds := second (elapsed started stopped)
        (∀ k ≤ seconds, ((entries.take k).sum - 1) * (1000000000 / requestRate.toNat) ≤
            k * 1000000000 + elapsed start started) ∧
          (entries.take seconds).sum + RateMonitor.countIn started
            (finished.turns.map Turn.counted) seconds = finished.turns.length := by
  rcases timedLoop_eq_some done with ⟨plain, -, many, ran⟩
  have few : finished.turns.length < 2 ^ 32 := Nat.lt_of_le_of_lt many requests.toNat_lt
  have once := sum_howMany ran.once
  have made : Drawn ((finished.turns.map Turn.counted).map Increment.now ++ [stopped]) clock := by
    have counted : ((finished.turns.map Turn.counted).map Increment.now).Sublist
        (finished.turns.flatMap Turn.readings) := by
      rw [List.map_map]
      exact sublist_flatMap_cons finished.turns
    have all := ran.clock
    rw [stop] at all
    have drawn := Drawn.of_sublist (counted.append ((List.nil_sublist behind).cons_cons stopped))
    exact drawn.trans all
  have clockStop := ordered.drawn made
  have monitor : finished.instruments.monitor = run RateMonitor.increment
      ((⟨constructed', [], 0⟩ : RateMonitor).start started)
        (finished.turns.map Turn.counted) := ran.monitor
  obtain ⟨counts, length_eq⟩ := RateMonitor.counts_run ⟨constructed', [], 0⟩ rfl started
    clockStop.of_append
  have reached : latest ((finished.turns.map Turn.counted).map (RateMonitor.event started)) ≤
      second (elapsed started stopped) := by
    apply @latest_le _ _ (second (elapsed started stopped), 0)
    rw [List.forall_mem_map]
    intro call member
    exact second_mono (elapsed_mono (clockStop.le_last _ (List.mem_map_of_mem member)))
  obtain ⟨m', stops, entries⟩ := counts.stop (once.trans_lt few)
    (clockStop.span stopped (by simp)) (length_eq.trans_le reached)
  rw [monitor]
  refine ⟨plain, m', stops, ?_⟩
  have first : ∀ k ≤ second (elapsed started stopped),
      ((m'.eventsPerSecond.map UInt64.toNat).take k).sum =
        finished.turns.countP fun turn => second (elapsed started turn.counted.now) < k := by
    intro k within
    rw [entries, List.take_append_of_le_length (by simpa using within), ← List.map_take,
      List.take_range, Nat.min_eq_left within, sum_countIn ran.once]
  constructor
  · intro k within
    rw [first k within]
    by_cases positive : 0 < k
    · have early : (finished.turns.countP fun turn =>
          second (elapsed started turn.counted.now) < k) ≤ finished.turns.countP fun turn =>
            elapsed start turn.counted.now ≤ k * 1000000000 + elapsed start started := by
        apply List.countP_mono_left
        intro turn _ inside
        have within := (second_lt_iff positive).mp (of_decide_eq_true inside)
        have added := elapsed_le_add start started turn.counted.now
        exact decide_eq_true (by omega)
      exact (Nat.mul_le_mul_right _ (Nat.sub_le_sub_right early 1)).trans
        (ran.countP_le rfl limited ordered few _)
    · rw [Nat.eq_zero_of_not_pos positive]
      simp
  · have all : (finished.turns.countP fun turn =>
        second (elapsed started turn.counted.now) < second (elapsed started stopped) + 1) =
          finished.turns.length := by
      rw [List.countP_eq_length]
      intro turn member
      have before := clockStop.le_last turn.counted.now
        (List.mem_map_of_mem (List.mem_map_of_mem member))
      exact decide_eq_true (Nat.lt_succ_of_le (second_mono (elapsed_mono before)))
    rw [first _ (Nat.le_refl _), ← sum_countIn ran.once, ← all, ← sum_countIn ran.once,
      List.range_succ, List.map_append, List.sum_append, List.map_singleton, List.sum_singleton]

deriving instance DecidableEq for Reading

/-- A worker with a limit of a thousand hits a second and readings for one of them. -/
def plainInstruments : Instruments :=
  let now (ns : Nat) : Reading := RateControl.readingAfter ns
  let timer : HiResTimer := HiResTimer.construct ⟨0, 0⟩ ⟨0, 0⟩
  Instruments.limited 1000 (now 0) (now 0) (now 0) (now 0) timer timer
    (now 0 :: (List.replicate 7 (now 2000000) ++ [now 1500000000]))

theorem clocked_plainInstruments :
    Clocked (RateControl.readingAfter 0) plainInstruments.clock :=
  ⟨by decide +kernel, by decide +kernel⟩

theorem limited_reports_plain :
    ∃ finished, timedLoop VCStoreInMemory.engine 0 plainCast (1 : UInt32).toNat
        (DwfileHitSource.construct [some plainLine]) .nil plainInstruments = some finished ∧
      ∃ monitor,
        finished.instruments.monitor.stop (RateControl.readingAfter 1500000000) = some monitor ∧
        (((monitor.eventsPerSecond.map UInt64.toNat).take 1).sum - 1) *
            (1000000000 / (1000 : UInt64).toNat) ≤
          1 * 1000000000 + elapsed (RateControl.readingAfter 0) (RateControl.readingAfter 0) := by
  have ran : (timedLoop VCStoreInMemory.engine 0 plainCast (1 : UInt32).toNat
      (DwfileHitSource.construct [some plainLine]) .nil plainInstruments).map
        (fun finished => finished.instruments.clock) =
          some [RateControl.readingAfter 1500000000] := by
    decide +kernel
  rcases Option.map_eq_some_iff.mp ran with ⟨finished, done, stop⟩
  obtain ⟨-, monitor, stops, limits, -⟩ :=
    limited_reports (by decide) clocked_plainInstruments done stop
  exact ⟨finished, done, monitor, stops, limits 1 (by decide +kernel)⟩

/-! ## What the timers report -/

/-- Readings from the first of them on. -/
theorem Clocked.from_first {start first : Reading} {rest : List Reading}
    (clocked : Clocked start (first :: rest)) : Clocked first (first :: rest) where
  ordered := (Drawn.twice first rest).ordered (List.pairwise_cons.mp clocked.ordered).2
  span r member := by
    have span := clocked.span r member
    have behind := (List.pairwise_cons.mp clocked.ordered).1 first List.mem_cons_self
    unfold elapsed at span ⊢
    omega

/-- A timer that is used in every turn reports the averages of its intervals, if the
memory held no clock. -/
theorem Ran.reports {before after : Instruments} {turns : List Turn}
    (ran : Ran before turns after) {started asked : Reading}
    (ordered : Clocked started before.clock) (behind : asked ∈ after.clock)
    (few : turns.length < 2 ^ 64) {interval : Turn → Interval}
    (inTurn : ∀ turn, [(interval turn).first, (interval turn).start, (interval turn).stop].Sublist
      turn.readings) {clockStart clockPrev : Timespec} (unset : clockPrev.tvSec = 0)
    {first : Turn} {rest : List Turn} (some : turns = first :: rest) :
    ((run HiResTimer.timed (HiResTimer.construct clockStart clockPrev)
        (turns.map interval)).getNsPerSecond asked).2.map UInt64.toNat =
      HiResTimer.expected (interval first).first (turns.map interval) asked := by
  have within : (HiResTimer.readings (turns.map interval)).Sublist
      (turns.flatMap Turn.readings) := by
    clear some few ran
    induction turns with
    | nil => exact List.Sublist.refl _
    | cons turn turns ih => exact (inTurn turn).append ih
  have drawn := (Drawn.of_sublist (within.append (List.singleton_sublist.mpr behind))).trans
    ran.clock
  have clocked := ordered.drawn drawn
  subst some
  exact HiResTimer.reportsAverages_of_unset clockStart unset _ _ asked (by simpa using few)
    clocked.from_first

/-- If the memory held no clock where the timers are, they report the averages of the time
that the constructors and the stores of exactly the hits that were served have taken. -/
theorem timers_report {σ : Type} {engine : StorageEngine σ} {junk : UInt8} {cast : LexicalCast}
    {requests : UInt32} {hits : DwfileHitSource} {store : σ} {instruments : Instruments}
    {finished : Finished σ} {started : Reading}
    {clockStart clockPrev clockStart' clockPrev' : Timespec}
    (readUnset : clockPrev.tvSec = 0) (writeUnset : clockPrev'.tvSec = 0)
    (ordered : Clocked started instruments.clock)
    (done : timedLoop engine junk cast requests.toNat hits store
      { instruments with
        readTimer := HiResTimer.construct clockStart clockPrev
        writeTimer := HiResTimer.construct clockStart' clockPrev' } = some finished) :
    finished.store = run (serve engine junk) store (finished.turns.map Turn.hit) ∧
      ∀ first rest, finished.turns = first :: rest → ∀ asked ∈ finished.instruments.clock,
        (finished.instruments.readTimer.getNsPerSecond asked).2.map UInt64.toNat =
            HiResTimer.expected first.read.first (finished.turns.map Turn.read) asked ∧
          (finished.instruments.writeTimer.getNsPerSecond asked).2.map UInt64.toNat =
            HiResTimer.expected first.written.first (finished.turns.map Turn.written) asked := by
  rcases timedLoop_eq_some done with ⟨-, served, many, ran⟩
  have few : finished.turns.length < 2 ^ 64 :=
    (Nat.lt_of_le_of_lt many requests.toNat_lt).trans (by decide)
  refine ⟨served, ?_⟩
  intro first rest some asked behind
  rw [ran.readTimer, ran.writeTimer]
  constructor
  · apply ran.reports ordered behind few _ readUnset some
    intro turn
    rw [Turn.readings]
    exact ((List.sublist_append_left _ _).trans (List.sublist_append_right _ _)).cons _
  · apply ran.reports ordered behind few _ writeUnset some
    intro turn
    rw [Turn.readings]
    exact ((List.sublist_append_right [turn.read.first, turn.read.start, turn.read.stop] _).trans
      (List.sublist_append_right _ _)).cons _

theorem timers_report_plain :
    ∃ finished, timedLoop VCStoreInMemory.engine 0 plainCast (1 : UInt32).toNat
        (DwfileHitSource.construct [some plainLine]) .nil plainInstruments = some finished ∧
      ∃ first rest, finished.turns = first :: rest ∧ ∀ asked ∈ finished.instruments.clock,
        (finished.instruments.readTimer.getNsPerSecond asked).2.map UInt64.toNat =
            HiResTimer.expected first.read.first (finished.turns.map Turn.read) asked ∧
          (finished.instruments.writeTimer.getNsPerSecond asked).2.map UInt64.toNat =
            HiResTimer.expected first.written.first (finished.turns.map Turn.written) asked := by
  have ran : (timedLoop VCStoreInMemory.engine 0 plainCast (1 : UInt32).toNat
      (DwfileHitSource.construct [some plainLine]) .nil plainInstruments).map
        (fun finished => finished.turns.length) = some 1 := by
    decide +kernel
  rcases Option.map_eq_some_iff.mp ran with ⟨finished, done, one⟩
  rcases List.length_eq_one_iff.mp one with ⟨first, turns⟩
  obtain ⟨-, reports⟩ := @timers_report _ _ _ _ _ _ _ plainInstruments _ _ ⟨0, 0⟩ ⟨0, 0⟩ ⟨0, 0⟩
    ⟨0, 0⟩ rfl rfl clocked_plainInstruments done
  exact ⟨finished, done, first, [], turns, reports first [] turns⟩

/-! ## A paced worker -/

/-- The instruments as the loop of a replay begins.  The constructor leaves the count and
the start of the controller as the memory has them; `Start` sets the count. -/
def Instruments.paced (virtualSeconds : TimeT → TimeT) (startClockTime : TimeT)
    (constructed started : Reading) (readTimer writeTimer : HiResTimer) (clock : List Reading) :
    Instruments where
  clock := clock
  monitor := (⟨constructed, [], 0⟩ : RateMonitor).start started
  controller := .hitBased ⟨0, 0, startClockTime, virtualSeconds⟩
  readTimer := readTimer
  writeTimer := writeTimer

theorem TurnDone.hitBased {before after : Instruments} {turn : Turn}
    (done : TurnDone before turn after) {c : ReplayControl}
    (controller : before.controller = .hitBased c) :
    ∃ c' w, after.controller = .hitBased c' ∧ turn.woken = some w ∧
      c'.virtualSeconds = c.virtualSeconds ∧
      if c.firstHitTime = 0 then
        c'.firstHitTime = turn.hit.hitTimeGmt ∧ c'.startClockTime = ReplayControl.time w
      else
        c'.firstHitTime = c.firstHitTime ∧ c'.startClockTime = c.startClockTime ∧
          ¬ c.virtualTime w < turn.hit.hitTimeGmt := by
  rcases done.paced with ⟨clock, behind, paced⟩
  rw [controller] at paced
  rcases Option.map_eq_some_iff.mp paced with ⟨⟨c', w, left⟩, returned, same⟩
  rcases Prod.mk.inj same with ⟨next, sameWoken⟩
  rcases Prod.mk.inj sameWoken with ⟨woken, -⟩
  exact ⟨c', w, next.symm, woken.symm, ReplayControl.incrementAndWait_eq_some returned⟩

/-- Once it is started the virtual clock has reached every hit that goes on. -/
theorem Ran.reached {before after : Instruments} {turns : List Turn}
    (ran : Ran before turns after) {c : ReplayControl}
    (controller : before.controller = .hitBased c) (started : c.firstHitTime ≠ 0) :
    ∀ turn ∈ turns, ∃ w, turn.woken = some w ∧
      ¬ c.virtualSeconds (ReplayControl.time w - c.startClockTime) + c.firstHitTime <
        turn.hit.hitTimeGmt := by
  induction ran generalizing c with
  | nil instruments => exact fun turn member => by cases member
  | cons first rest ih =>
      rcases first.hitBased controller with ⟨c', w, next, woken, sameSeconds, paced⟩
      rw [if_neg started] at paced
      rcases paced with ⟨sameFirst, sameStart, reached⟩
      intro turn member
      rcases List.mem_cons.mp member with rfl | later
      · exact ⟨w, woken, reached⟩
      · have behind := ih next (sameFirst ▸ started) turn later
        rwa [sameSeconds, sameFirst, sameStart] at behind

/-- The virtual clock is started by the first hit whose time is not zero. -/
theorem Ran.began {before after : Instruments} {untimed later : List Turn} {first : Turn}
    (ran : Ran before (untimed ++ first :: later) after) {c : ReplayControl}
    (controller : before.controller = .hitBased c) (unset : c.firstHitTime = 0)
    (zero : ∀ turn ∈ untimed, turn.hit.hitTimeGmt = 0) (timed : first.hit.hitTimeGmt ≠ 0) :
    ∃ began, first.woken = some began ∧
      ∀ turn ∈ later, ∃ woken, turn.woken = some woken ∧
        ¬ c.virtualSeconds (ReplayControl.time woken - ReplayControl.time began) +
          first.hit.hitTimeGmt < turn.hit.hitTimeGmt := by
  induction untimed generalizing before c with
  | nil =>
      cases ran with
      | cons done rest =>
          rcases done.hitBased controller with ⟨c', w, next, woken, sameSeconds, paced⟩
          rw [if_pos unset] at paced
          rcases paced with ⟨firstHitTime, startClockTime⟩
          have behind := rest.reached next (firstHitTime ▸ timed)
          rw [sameSeconds, firstHitTime, startClockTime] at behind
          exact ⟨w, woken, behind⟩
  | cons turn untimed ih =>
      cases ran with
      | cons done rest =>
          rcases done.hitBased controller with ⟨c', w, next, woken, sameSeconds, paced⟩
          rw [if_pos unset] at paced
          rcases List.forall_mem_cons.mp zero with ⟨here, zeroRest⟩
          have behind := ih rest next (paced.1.trans here) zeroRest
          rwa [sameSeconds] at behind

/-- A replay serves what a worker would serve without a clock.  Its virtual clock starts at
the first hit whose time is not zero, and every hit behind that one goes on only when the
clock has reached it. -/
theorem replay_paced {σ : Type} {engine : StorageEngine σ} {junk : UInt8} {cast : LexicalCast}
    {requests : Nat} {hits : DwfileHitSource} {store : σ} {virtualSeconds : TimeT → TimeT}
    {startClockTime : TimeT} {constructed started : Reading} {readTimer writeTimer : HiResTimer}
    {clock : List Reading} {finished : Finished σ}
    (done : timedLoop engine junk cast requests hits store
      (Instruments.paced virtualSeconds startClockTime constructed started readTimer writeTimer
        clock) = some finished) :
    workerLoop engine junk cast requests hits store = some (finished.hits, finished.store) ∧
      ∀ untimed first later, finished.turns = untimed ++ first :: later →
        (∀ turn ∈ untimed, turn.hit.hitTimeGmt = 0) → first.hit.hitTimeGmt ≠ 0 →
        ∃ began, first.woken = some began ∧
          ∀ turn ∈ later, ∃ woken, turn.woken = some woken ∧
            ¬ virtualSeconds (ReplayControl.time woken - ReplayControl.time began) +
              first.hit.hitTimeGmt < turn.hit.hitTimeGmt := by
  rcases timedLoop_eq_some done with ⟨plain, -, -, ran⟩
  refine ⟨plain, ?_⟩
  intro untimed first later turns zero timed
  rw [turns] at ran
  exact ran.began (c := ⟨0, 0, startClockTime, virtualSeconds⟩) rfl rfl zero timed

/-- Two hits of one time, at the real speed. -/
theorem replay_paced_plain :
    let now := RateControl.readingAfter 0
    let timer : HiResTimer := HiResTimer.construct ⟨0, 0⟩ ⟨0, 0⟩
    let instruments := Instruments.paced id 0 now now timer timer (List.replicate 14 now)
    ∃ finished, timedLoop VCStoreInMemory.engine 0 plainCast 2
        (DwfileHitSource.construct [some plainLine, some plainLine]) .nil instruments =
          some finished ∧
      finished.turns.length = 2 ∧
      ∀ untimed first later, finished.turns = untimed ++ first :: later →
        (∀ turn ∈ untimed, turn.hit.hitTimeGmt = 0) → first.hit.hitTimeGmt ≠ 0 →
        ∃ began, first.woken = some began ∧
          ∀ turn ∈ later, ∃ woken, turn.woken = some woken ∧
            ¬ id (ReplayControl.time woken - ReplayControl.time began) +
              first.hit.hitTimeGmt < turn.hit.hitTimeGmt := by
  intro now timer instruments
  have ran : (timedLoop VCStoreInMemory.engine 0 plainCast 2
      (DwfileHitSource.construct [some plainLine, some plainLine]) .nil instruments).map
        (fun finished => finished.turns.length) = some 2 := by
    decide +kernel
  rcases Option.map_eq_some_iff.mp ran with ⟨finished, done, two⟩
  exact ⟨finished, done, two, (replay_paced done).2⟩

end Elevator.Harness
