import Elevator.Sequence.ShortestSum
import Mathlib.Algebra.BigOperators.Group.Multiset.Basic
import Mathlib.Algebra.Order.BigOperators.Group.List
import Mathlib.Algebra.Order.Group.Nat
import Mathlib.Algebra.Ring.Nat
import Mathlib.Data.List.ReduceOption

/-!
# Adding up the clients

`aggregateResults.pl` adds the results of several clients under a number of threads, in
the order in which Perl gives the keys of a hash.  From the start time of a client and
the latest of all it takes how many entries remain, but it adds the first entries of the
client, not the remaining ones.  An empty array counts as the start, so a client of which
nothing remains makes the arrays start anew.

The numbers are natural ones and exact.  The loop over the clients is stated for any
values that can be added: sets of clients in place of numbers show where an entry comes
from.
-/

namespace Elevator.Report

open Transition Sequence

universe u

/-- The results of a client. -/
structure Client (α : Type u) where
  timestamp : Nat
  aggRate : List α
  aggRead : List α
  aggWrite : List α

/-- A key of the hash: a client, or `general`, which has no time stamp. -/
abbrev Key (α : Type u) : Type u :=
  Option (Client α)

section Loops

variable {α : Type u}

/-- The time stamp under a key; an undefined one counts as zero. -/
def timestamp : Key α → Int
  | none => 0
  | some client => client.timestamp

/-- `max`. -/
def maximum (first second : Int) : Int :=
  if second > first then second else first

/-- The loop that finds the latest start time. -/
def startTime (keys : List (Key α)) : Int :=
  run (fun startTime key => maximum startTime (timestamp key)) (-1) keys

/-- The arrays that the clients are added into, and how many clients there were. -/
structure Held (α : Type u) where
  numServers : Nat
  aggRate : List α
  aggRead : List α
  aggWrite : List α

variable [AddCommMonoid α]

/-- Set the last index of an array to `len - 1`, below which an array is empty; a new entry
is undefined and counts as zero. -/
def setLength (array : List α) (len : Int) : List α :=
  array.take len.toNat ++ List.replicate (len.toNat - array.length) 0

/-- One turn of the loop over the servers. -/
def serverTurn (startTime : Int) (held : Held α) : Key α → Held α
  | none => held
  | some client =>
      let offset := startTime - client.timestamp
      let len := client.aggRate.length - offset
      let cut (array : List α) := if len < held.aggRate.length then setLength array len else array
      let size := (cut held.aggRate).length
      let len := if size < len ∧ size ≠ 0 then (size : Int) else len
      { numServers := held.numServers + 1
        aggRate := addValues (fun i => client.aggRate.getD i 0) (cut held.aggRate) len.toNat
        aggRead := addValues (fun i => client.aggRead.getD i 0) (cut held.aggRead) len.toNat
        aggWrite := addValues (fun i => client.aggWrite.getD i 0) (cut held.aggWrite) len.toNat }

/-- The arrays after the loop over the servers. -/
def addServers (keys : List (Key α)) : Held α :=
  run (serverTurn (startTime keys)) ⟨0, [], [], []⟩ keys

end Loops

/-- One turn of the loop that averages. -/
def averageTurn (held : Held Nat) (i : Nat) : Held Nat :=
  { held with
    aggRead := held.aggRead.set i (held.aggRead.getD i 0 / held.numServers)
    aggWrite := held.aggWrite.set i (held.aggWrite.getD i 0 / held.numServers) }

/-- What is printed for a number of threads. -/
def aggregate (keys : List (Key Nat)) : Held Nat :=
  let held := addServers keys
  run averageTurn held (List.range held.aggRead.length)

/-! ## Remaining lengths -/

section Remaining

variable {α : Type u}

/-- The latest of some time stamps. -/
def latest (timestamps : List Nat) : Nat :=
  timestamps.foldr max 0

theorem latest_cons (timestamp : Nat) (timestamps : List Nat) :
    latest (timestamp :: timestamps) = max timestamp (latest timestamps) :=
  rfl

/-- The latest start of some clients. -/
def latestStart (clients : List (Client α)) : Nat :=
  latest (clients.map Client.timestamp)

/-- What remains of a client from a start time on. -/
def Client.remaining (client : Client α) (startTime : Int) : Int :=
  client.aggRate.length - (startTime - client.timestamp)

/-- How many entries of a client remain. -/
def Client.count (startTime : Int) (client : Client α) : Nat :=
  (client.remaining startTime).toNat

/-- The shortest length that remains of a client. -/
def shortestRemaining (clients : List (Client α)) : Nat :=
  shortest (Client.count (latestStart clients)) clients

/-- An index below the shortest length is one below what remains of each client. -/
theorem lt_remaining {clients : List (Client α)} {i : Nat}
    (inside : i < shortestRemaining clients) :
    ∀ client ∈ clients, i < client.remaining (latestStart clients) := by
  intro client member
  have each := (lt_shortest_iff _ (List.ne_nil_of_mem member) i).mp inside client member
  rw [Client.count] at each
  omega

/-- The keys of the hash in some order. -/
def Visits (keys : List (Key α)) (clients : List (Client α)) : Prop :=
  keys.Perm (none :: clients.map some)

theorem maximum_eq (first second : Int) : maximum first second = max first second := by
  unfold maximum
  split <;> omega

/-- The latest start is found in any order. -/
theorem run_maximum (keys : List (Key α)) {first : Int} (positive : 0 ≤ first) :
    run (fun startTime key => maximum startTime (timestamp key)) first keys =
      max first (latestStart keys.reduceOption) := by
  induction keys generalizing first with
  | nil => exact (max_eq_left positive).symm
  | cons key keys ih =>
      rw [run_cons, maximum_eq, ih (positive.trans (le_max_left _ _))]
      cases key with
      | none => rw [timestamp, max_eq_left positive, List.reduceOption_cons_of_none]
      | some client =>
          rw [timestamp, List.reduceOption_cons_of_some, latestStart, latestStart, List.map_cons,
            latest_cons]
          omega

theorem le_latest {timestamps : List Nat} {timestamp : Nat} (member : timestamp ∈ timestamps) :
    timestamp ≤ latest timestamps := by
  induction timestamps with
  | nil => contradiction
  | cons first timestamps ih =>
      rw [latest_cons]
      rcases List.mem_cons.mp member with rfl | later
      · exact Nat.le_max_left _ _
      · exact (ih later).trans (Nat.le_max_right _ _)

theorem latest_le {timestamps : List Nat} {bound : Nat}
    (below : ∀ timestamp ∈ timestamps, timestamp ≤ bound) : latest timestamps ≤ bound := by
  induction timestamps with
  | nil => exact Nat.zero_le _
  | cons first timestamps ih =>
      obtain ⟨firstBelow, restBelow⟩ := List.forall_mem_cons.mp below
      exact Nat.max_le.mpr ⟨firstBelow, ih restBelow⟩

theorem latestStart_perm {clients clients' : List (Client α)} (order : clients.Perm clients') :
    latestStart clients = latestStart clients' :=
  (order.map Client.timestamp).foldr_eq' (fun m _ n _ k => Nat.max_left_comm n m k) 0

theorem reduceOption_map_some {β : Type*} (l : List β) : (l.map some).reduceOption = l := by
  change (l.map some).filterMap id = l
  rw [List.filterMap_map]
  exact List.filterMap_some

theorem Visits.reduceOption {keys : List (Key α)} {clients : List (Client α)}
    (visits : Visits keys clients) : keys.reduceOption.Perm clients := by
  have order : keys.reduceOption.Perm (none :: clients.map some).reduceOption :=
    visits.filterMap id
  rwa [List.reduceOption_cons_of_none, reduceOption_map_some] at order

theorem Visits.startTime {keys : List (Key α)} {clients : List (Client α)}
    (visits : Visits keys clients) : startTime keys = latestStart clients := by
  rw [← latestStart_perm visits.reduceOption]
  cases keys with
  | nil => exact absurd visits.length_eq (by simp)
  | cons key keys =>
      -- A time stamp is at least zero, so the loop might as well start there.
      have first : maximum (-1) (timestamp key) = maximum 0 (timestamp key) := by
        rw [maximum_eq, maximum_eq]
        cases key with
        | none => rfl
        | some client =>
            rw [timestamp]
            omega
      rw [Report.startTime, run_cons, first, ← run_cons, run_maximum _ (Int.le_refl 0)]
      exact max_eq_right (Int.natCast_nonneg _)

end Remaining

/-! ## The loop over the servers -/

section Sums

variable {α : Type u} [AddCommMonoid α]

theorem length_setLength (array : List α) (len : Int) :
    (setLength array len).length = len.toNat := by
  rw [setLength, List.length_append, List.length_take, List.length_replicate]
  omega

/-- To set a smaller length cuts the array. -/
theorem setLength_of_lt {array : List α} {len : Int} (shorter : len < array.length) :
    setLength array len = array.take len.toNat := by
  have none : len.toNat - array.length = 0 := by omega
  rw [setLength, none, List.replicate_zero, List.append_nil]

/-- The length of an array that is cut. -/
def cutLength (size : Nat) (len : Int) : Nat :=
  if len < size then len.toNat else size

theorem length_cut {array : List α} {size : Nat} (same : array.length = size) (len : Int) :
    (if len < size then setLength array len else array).length = cutLength size len := by
  rw [cutLength]
  split
  · exact length_setLength array len
  · exact same

/-- A turn adds a client to each array as far as both reach. -/
theorem addValues_cut (values : Nat → α) {array : List α} {size : Nat}
    (same : array.length = size) (len : Int) :
    addValues values (if len < size then setLength array len else array)
        (if cutLength size len < len ∧ cutLength size len ≠ 0 then (cutLength size len : Int)
          else len).toNat =
      addShortest values len.toNat array := by
  rw [addShortest, addValues_eq_map, length_cut same, cutLength]
  by_cases shorter : len < size
  · have added : (if len.toNat < len ∧ len.toNat ≠ 0 then (len.toNat : Int) else len).toNat =
        len.toNat := by
      split <;> omega
    rw [if_pos shorter, if_pos shorter, added, Nat.max_self, setLength_of_lt (same ▸ shorter)]
    by_cases empty : array = []
    · have none : len.toNat = 0 := by
        rw [empty, List.length_nil] at same
        omega
      rw [none, if_pos empty]
      rfl
    · rw [if_neg empty, Nat.min_eq_right (by omega)]
      apply List.map_congr_left
      intro i member
      have inside := List.mem_range.mp member
      simp [List.getD_eq_getElem?_getD, inside]
  · rw [if_neg shorter, if_neg shorter]
    by_cases empty : array = []
    · have none : size = 0 := by
        rw [← same, empty, List.length_nil]
      rw [if_pos empty, empty, none]
      simp only [ne_eq, not_true_eq_false, and_false, if_false, Nat.zero_max]
      apply List.map_congr_left
      intro i member
      simp [List.mem_range.mp member]
    · have some : array.length ≠ 0 := fun zero => empty (List.length_eq_zero_iff.mp zero)
      have added : (if size < len ∧ size ≠ 0 then (size : Int) else len).toNat = size := by
        split <;> omega
      rw [added, if_neg empty, Nat.max_self, Nat.min_eq_left (by omega), same]
      apply List.map_congr_left
      intro i member
      rw [if_pos (List.mem_range.mp member)]

/-- The entries of the array `field` of a client. -/
def entry (field : Client α → List α) (client : Client α) (i : Nat) : α :=
  (field client).getD i 0

/-- The sum of the clients as long as the shortest, in one array. -/
def sumOf (field : Client α → List α) (startTime : Int) (clients : List (Client α)) : List α :=
  sumShortest (entry field) (Client.count startTime) clients

theorem length_sumOf (field field' : Client α → List α) (startTime : Int)
    (clients : List (Client α)) :
    (sumOf field startTime clients).length = (sumOf field' startTime clients).length := by
  induction clients using List.reverseRecOn with
  | nil => rfl
  | append_singleton clients last ih =>
      unfold sumOf at ih ⊢
      rw [sumShortest_concat, sumShortest_concat, length_addShortest, length_addShortest, ih]
      simp only [← List.length_eq_zero_iff, ih]

/-- A turn adds a client to arrays of one length. -/
theorem serverTurn_some {held : Held α} (read : held.aggRead.length = held.aggRate.length)
    (write : held.aggWrite.length = held.aggRate.length) (startTime : Int) (client : Client α) :
    serverTurn startTime held (some client) =
      ⟨held.numServers + 1,
        addShortest (entry Client.aggRate client) (client.count startTime) held.aggRate,
        addShortest (entry Client.aggRead client) (client.count startTime) held.aggRead,
        addShortest (entry Client.aggWrite client) (client.count startTime) held.aggWrite⟩ := by
  have cutRate := @length_cut _ _ held.aggRate _ rfl (client.remaining startTime)
  rw [Client.count, ← addValues_cut (entry Client.aggRate client) rfl,
    ← addValues_cut (entry Client.aggRead client) read,
    ← addValues_cut (entry Client.aggWrite client) write, ← cutRate]
  rfl

/-- The loop leaves the three sums. -/
theorem run_serverTurn (startTime : Int) (keys : List (Key α)) :
    run (serverTurn startTime) ⟨0, [], [], []⟩ keys =
      ⟨keys.reduceOption.length, sumOf Client.aggRate startTime keys.reduceOption,
        sumOf Client.aggRead startTime keys.reduceOption,
        sumOf Client.aggWrite startTime keys.reduceOption⟩ := by
  induction keys using List.reverseRecOn with
  | nil => rfl
  | append_singleton keys key ih =>
      rw [run_concat, ih, List.reduceOption_append, List.reduceOption_singleton]
      cases key with
      | none =>
          rw [Option.toList_none, List.append_nil]
          rfl
      | some client =>
          rw [serverTurn_some (length_sumOf _ _ _ _) (length_sumOf _ _ _ _), Option.toList_some,
            List.length_append, List.length_singleton, sumOf, sumOf, sumOf, sumOf, sumOf, sumOf,
            sumShortest_concat, sumShortest_concat, sumShortest_concat]

/-- Whatever the order of the keys, the loop leaves the sums from the latest start on. -/
theorem Visits.addServers {keys : List (Key α)} {clients : List (Client α)}
    (visits : Visits keys clients) :
    addServers keys =
      ⟨clients.length, sumOf Client.aggRate (latestStart clients) keys.reduceOption,
        sumOf Client.aggRead (latestStart clients) keys.reduceOption,
        sumOf Client.aggWrite (latestStart clients) keys.reduceOption⟩ := by
  rw [Report.addServers, run_serverTurn, visits.startTime, visits.reduceOption.length_eq]

/-- Where something remains of every client, the sums are those of all clients. -/
theorem sumOf_eq {clients order : List (Client α)} (perm : order.Perm clients)
    (positive : ∀ client ∈ clients, 0 < client.remaining (latestStart clients))
    (field : Client α → List α) :
    sumOf field (latestStart clients) order =
      (List.range (shortestRemaining clients)).map fun i =>
        (clients.map fun client => entry field client i).sum := by
  have counted : ∀ client ∈ order, 0 < client.count (latestStart clients) := by
    intro client member
    have remains := positive client (perm.mem_iff.mp member)
    rw [Client.count]
    omega
  rw [sumOf, sumShortest_eq _ _ counted, shortestRemaining, ← shortest_perm _ perm]
  exact List.map_congr_left fun i _ => (perm.map _).sum_eq

end Sums

/-! ## The averages -/

/-- A turn of the averaging loop in one array. -/
def divideEntry (divisor : Nat) (array : List Nat) (i : Nat) : List Nat :=
  array.set i (array.getD i 0 / divisor)

theorem run_averageTurn (held : Held Nat) (indices : List Nat) :
    run averageTurn held indices =
      { held with
        aggRead := run (divideEntry held.numServers) held.aggRead indices
        aggWrite := run (divideEntry held.numServers) held.aggWrite indices } := by
  induction indices generalizing held with
  | nil => rfl
  | cons i indices ih =>
      rw [run_cons, ih]
      rfl

theorem run_divideEntry (divisor : Nat) (array : List Nat) :
    run (divideEntry divisor) array (List.range array.length) = array.map (· / divisor) := by
  have upTo : ∀ n ≤ array.length, run (divideEntry divisor) array (List.range n) =
      (array.take n).map (· / divisor) ++ array.drop n := by
    intro n
    induction n with
    | zero => exact fun _ => rfl
    | succ n ih =>
        intro within
        have before := ih (Nat.le_of_succ_le within)
        have length_take : ((array.take n).map (· / divisor)).length = n := by
          rw [List.length_map, List.length_take, Nat.min_eq_left (Nat.le_of_succ_le within)]
        rw [List.range_succ, run_concat, before, divideEntry, List.drop_eq_getElem_cons within,
          List.set_append_right _ _ length_take.le, length_take, Nat.sub_self, List.set_cons_zero,
          List.getD_eq_getElem?_getD, List.getElem?_append_right length_take.le, length_take,
          Nat.sub_self, List.getElem?_cons_zero, Option.getD_some, List.take_add_one,
          List.getElem?_eq_getElem within, Option.toList_some, List.map_append,
          List.append_assoc]
        rfl
  rw [upTo _ (Nat.le_refl _), List.take_length, List.drop_length, List.append_nil]

/-- What is printed: the sum of the rates, and the other two divided by the number of
clients. -/
theorem Visits.aggregate {keys : List (Key Nat)} {clients : List (Client Nat)}
    (visits : Visits keys clients) :
    aggregate keys =
      ⟨clients.length, sumOf Client.aggRate (latestStart clients) keys.reduceOption,
        (sumOf Client.aggRead (latestStart clients) keys.reduceOption).map (· / clients.length),
        (sumOf Client.aggWrite (latestStart clients) keys.reduceOption).map
          (· / clients.length)⟩ := by
  have lengths := length_sumOf Client.aggRead Client.aggWrite (latestStart clients)
    keys.reduceOption
  rw [Report.aggregate, visits.addServers]
  dsimp only
  rw [run_averageTurn, run_divideEntry, lengths, run_divideEntry]

end Elevator.Report
