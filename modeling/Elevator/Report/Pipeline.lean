import Elevator.Report.Summary

/-!
# From transcripts to rows

The report that `aggregateResults.pl` prints on a transcript goes into `results2csv.pl`.
For a transcript of complete outputs the two make one row for each number of threads, in
ascending order, which holds the sums over the latest output of each server.  None of it
depends on the orders in which Perl gives the keys.
-/

namespace Elevator.Report

open Transition Sequence

/-- The numbers of threads in a transcript. -/
def threadCounts (parts : List Part) : List Nat :=
  ((outputs parts).map Output.threads).dedup.insertionSort (· ≤ ·)

/-- The store, the requests and the request rate that an output leaves under `general`. -/
def Output.heading (o : Output) : Text × Text × Text :=
  (storeName o.engine.1, decimal o.requests, o.requestRate)

/-- What the latest output with a number of threads leaves under `general`. -/
def headingOf (parts : List Part) (threads : Nat) : Text × Text × Text :=
  ((latestUnder Output.threads threads (outputs parts)).map Output.heading).getD ([], [], [])

/-- The summary of a number of threads, in any order of the keys. -/
def summaryOf (parts : List Part) (threads : Nat) : Summary :=
  { store := (headingOf parts threads).1
    servers := Script.servers
      ((standing Booking.server (bookingsOf threads none parts)).map Booking.server)
    threads := decimal threads
    requests := (headingOf parts threads).2.1
    requestRate := (headingOf parts threads).2.2
    held := sumsOf (clientsOf threads parts) }

/-! ## Keys of a transcript -/

def Entry.heading (e : Entry) : Text × Text × Text :=
  (e.store.getD [], e.requests.getD [], e.requestRate.getD [])

/-- What is held under `general` with a configuration. -/
theorem Script.test_setConfig_general (s : Script) (config : Text × Text × Text)
    (results : Entry → Entry) (threads : Text) (server : s.server.getD [] ≠ general) :
    ((s.setConfig config).assignServer results).test threads general =
      if threads = config.1 then
        some { (s.test threads general).getD .blank with
          store := s.store, requests := some config.2.1, requestRate := some config.2.2 }
      else
        s.test threads general := by
  have other : ∀ {c : Prop}, ¬ (c ∧ general = s.server.getD []) :=
    fun both => server both.2.symm
  rw [setConfig, assignServer_assignServer, assignServer, test_assign]
  refine (if_neg other).trans ?_
  rw [test_assign]
  by_cases same : threads = config.1
  · rw [if_pos same]
    exact if_pos ⟨same, rfl⟩
  · rw [if_neg same]
    exact if_neg fun both => same both.1

section Complete

variable {parts : List Part}

/-- A complete output leaves something under `general` and under its server. -/
theorem isSome_test_output {o : Output} (complete : o.Complete) (s : Script) (threads key : Text) :
    ((run Script.take s (Part.output o).found).test threads key).isSome ↔
      threads = decimal o.threads ∧ (key = general ∨ key = o.hostname.1) ∨
        (s.test threads key).isSome := by
  have named : (s.setHarness (o.engine.1, o.hostname.1)).server.getD [] ≠ general :=
    complete.server
  rw [run_output complete]
  by_cases here : threads = decimal o.threads
  · by_cases server : key = general
    · subst server
      rw [Script.test_setConfig_general _ _ _ _ named, if_pos here]
      simp [here]
    · rw [Script.test_setConfig _ _ _ _ server]
      by_cases same : key = o.hostname.1
      · rw [if_pos ⟨here, same⟩]
        simp [here, same]
      · rw [if_neg fun both => same both.2]
        simp [server, same, Script.setHarness]
  · by_cases server : key = general
    · subst server
      rw [Script.test_setConfig_general _ _ _ _ named, if_neg here]
      simp [here, Script.setHarness]
    · rw [Script.test_setConfig _ _ _ _ server, if_neg fun both => here both.1]
      simp [here, Script.setHarness]

/-- Something is held under the keys of the outputs. -/
theorem isSome_test_run (complete : ∀ o, Part.output o ∈ parts → o.Complete) (s : Script)
    (threads key : Text) :
    ((run Script.take s (parts.flatMap Part.found)).test threads key).isSome ↔
      (∃ o ∈ outputs parts, threads = decimal o.threads ∧ (key = general ∨ key = o.hostname.1)) ∨
        (s.test threads key).isSome := by
  induction parts generalizing s with
  | nil => simp [outputs, run]
  | cons part parts ih =>
      have rest := fun s => ih (fun o later => complete o (List.mem_cons_of_mem _ later)) s
      rw [List.flatMap_cons, run_append, rest]
      cases part with
      | stamp stamp => rfl
      | other line quiet => rfl
      | output o =>
          have first : outputs (.output o :: parts) = o :: outputs parts := rfl
          rw [isSome_test_output (complete o List.mem_cons_self), first, ← or_assoc]
          simp only [List.mem_cons, exists_eq_or_imp]
          rw [or_comm (b := ∃ _, _)]

/-- The numbers of threads that something is held under. -/
theorem exists_isSome_iff (complete : ∀ o, Part.output o ∈ parts → o.Complete) (threads : Text) :
    (∃ key, ((scriptOf parts).test threads key).isSome) ↔
      threads ∈ (threadCounts parts).map decimal := by
  rw [scriptOf_eq, List.mem_map]
  simp only [isSome_test_run complete, threadCounts, List.mem_insertionSort, List.mem_dedup,
    List.mem_map]
  constructor
  · rintro ⟨key, ⟨o, member, rfl, -⟩ | none⟩
    · exact ⟨o.threads, ⟨o, member, rfl⟩, rfl⟩
    · cases none
  · rintro ⟨_, ⟨o, member, rfl⟩, rfl⟩
    exact ⟨general, Or.inl ⟨o, member, rfl, Or.inl rfl⟩⟩

/-- What the latest output with a number of threads leaves under `general`. -/
theorem heading_run (complete : ∀ o, Part.output o ∈ parts → o.Complete) (s : Script)
    (threads : Nat) :
    ((run Script.take s (parts.flatMap Part.found)).test (decimal threads) general).map
        Entry.heading =
      ((latestUnder Output.threads threads (outputs parts)).map Output.heading).or
        ((s.test (decimal threads) general).map Entry.heading) := by
  induction parts generalizing s with
  | nil => rfl
  | cons part parts ih =>
      have rest := fun s => ih (fun o later => complete o (List.mem_cons_of_mem _ later)) s
      rw [List.flatMap_cons, run_append, rest]
      cases part with
      | stamp stamp => rfl
      | other line quiet => rfl
      | output o =>
          have here := complete o List.mem_cons_self
          have first : outputs (.output o :: parts) = o :: outputs parts := rfl
          have named : (s.setHarness (o.engine.1, o.hostname.1)).server.getD [] ≠ general :=
            here.server
          rw [run_output here, Script.test_setConfig_general _ _ _ _ named, first,
            latestUnder_cons, Option.map_or, Option.or_assoc]
          congr 1
          by_cases same : o.threads = threads
          · rw [if_pos same, if_pos (congrArg decimal same.symm)]
            rfl
          · rw [if_neg same, if_neg fun equal => same (decimal_inj.mp equal).symm]
            rfl

theorem inGeneral_eq (s : Script) (threads : Text) :
    (s.inGeneral threads Entry.store, s.inGeneral threads Entry.requests,
        s.inGeneral threads Entry.requestRate) =
      ((s.test threads general).map Entry.heading).getD ([], [], []) := by
  unfold Script.inGeneral
  cases s.test threads general <;> rfl

/-- What is held under `general` of a transcript. -/
theorem inGeneral_scriptOf (complete : ∀ o, Part.output o ∈ parts → o.Complete) (threads : Nat) :
    ((scriptOf parts).inGeneral (decimal threads) Entry.store,
        (scriptOf parts).inGeneral (decimal threads) Entry.requests,
        (scriptOf parts).inGeneral (decimal threads) Entry.requestRate) =
      headingOf parts threads := by
  rw [inGeneral_eq, scriptOf_eq, heading_run complete, headingOf]
  exact congrArg (Option.getD · _) Option.or_none

/-! ## Orders of the keys -/

/-- The names of the servers do not depend on the order of the keys, nor on `general`. -/
theorem servers_eq {order servers : List Text} (perm : order.Perm (general :: servers)) :
    Script.servers order = Script.servers servers := by
  let named (server : Text) : Bool := (shortName server).isSome
  have kept (l : List Text) : l.filterMap shortName = (l.filter named).filterMap shortName := by
    rw [List.filterMap_filter]
    congr 1
    funext server
    by_cases some : named server
    · exact (if_pos some).symm
    · exact (Option.not_isSome_iff_eq_none.mp some).trans (if_neg some).symm
  have sorted (l : List Text) : ((l.insertionSort (· ≤ ·)).filter named).SortedLE :=
    (List.sortedLE_insertionSort.pairwise.filter named).sortedLE
  have unnamed : (general :: servers).filter named = servers.filter named :=
    List.filter_cons_of_neg (by decide)
  have same : (order.insertionSort (· ≤ ·)).filter named =
      (servers.insertionSort (· ≤ ·)).filter named := by
    apply List.Perm.eq_of_sortedLE (sorted order) (sorted servers)
    have front := ((List.perm_insertionSort (· ≤ ·) order).trans perm).filter named
    rw [unnamed] at front
    exact front.trans ((List.perm_insertionSort (· ≤ ·) servers).filter named).symm
  rw [Script.servers, Script.servers, kept, same, ← kept]

theorem nodup_threadCounts (parts : List Part) : (threadCounts parts).Nodup :=
  (List.perm_insertionSort _ _).nodup_iff.mpr (List.nodup_dedup _)

variable {threadOrder : List Text} {orders : Text → List Text}

/-- Perl gives the numbers of threads in one order, and under each of them `general` and the
servers in any order. -/
theorem orders_iff (complete : ∀ o, Part.output o ∈ parts → o.Complete) :
    (scriptOf parts).Orders threadOrder orders ↔
      threadOrder = (threadCounts parts).map decimal ∧
        ∀ threads ∈ threadCounts parts, (orders (decimal threads)).Perm
          (general :: (standing Booking.server (bookingsOf threads none parts)).map
            Booking.server) := by
  have nodup : ((threadCounts parts).map decimal).Nodup :=
    (nodup_threadCounts parts).map fun _ _ => decimal_inj.mp
  have ascending : ((threadCounts parts).map decimal).Pairwise
      fun a b => ofDecimal a ≤ ofDecimal b := by
    rw [List.pairwise_map]
    simp only [ofDecimal_decimal]
    exact List.sortedLE_insertionSort.pairwise
  constructor
  · intro given
    have perm : threadOrder.Perm ((threadCounts parts).map decimal) := by
      rw [List.perm_ext_iff_of_nodup given.nodup nodup]
      exact fun threads => (given.complete threads).trans (exists_isSome_iff complete threads)
    have same : threadOrder = (threadCounts parts).map decimal := by
      apply List.Perm.eq_of_pairwise _ given.ascending ascending perm
      intro a b inside inside' le le'
      obtain ⟨m, -, rfl⟩ := List.mem_map.mp (perm.mem_iff.mp inside)
      obtain ⟨n, -, rfl⟩ := List.mem_map.mp inside'
      rw [ofDecimal_decimal, ofDecimal_decimal] at le le'
      exact congrArg decimal (Nat.le_antisymm le le')
    refine ⟨same, fun threads member => ?_⟩
    exact (keys_iff complete).mp (given.keys _ (same ▸ List.mem_map_of_mem member))
  · rintro ⟨rfl, perms⟩
    constructor
    · exact nodup
    · exact fun threads => (exists_isSome_iff complete threads).symm
    · exact ascending
    · intro threads member
      obtain ⟨n, inside, rfl⟩ := List.mem_map.mp member
      exact (keys_iff complete).mpr (perms n inside)

/-! ## The rows -/

/-- The summaries of a transcript whose clients all reach the latest start. -/
theorem summaries_read (complete : ∀ o, Part.output o ∈ parts → o.Complete)
    (positive : ∀ threads ∈ threadCounts parts, ∀ client ∈ clientsOf threads parts,
      0 < client.remaining (latestStart (clientsOf threads parts)))
    (given : (scriptOf parts).Orders threadOrder orders) :
    (scriptOf parts).summaries threadOrder orders =
      (threadCounts parts).map (summaryOf parts) := by
  obtain ⟨rfl, perms⟩ := (orders_iff complete).mp given
  rw [Script.summaries, List.map_map]
  apply List.map_congr_left
  intro threads member
  have perm := perms threads member
  have held := (visits_read complete ((keys_iff complete).mpr perm)).sums (positive threads member)
  obtain ⟨store, rest⟩ := Prod.mk.inj (inGeneral_scriptOf complete threads)
  obtain ⟨requests, requestRate⟩ := Prod.mk.inj rest
  rw [Function.comp_apply, Script.summary, store, requests, requestRate, servers_eq perm,
    Script.printed, held]
  rfl

theorem map_output_bookings (timestamp : Option Nat) (parts : List Part) :
    (bookings timestamp parts).map Booking.output = outputs parts := by
  induction parts generalizing timestamp with
  | nil => rfl
  | cons part parts ih =>
      cases part with
      | stamp s => exact ih (some s.time)
      | other line quiet => exact ih timestamp
      | output o => exact congrArg (o :: ·) (ih timestamp)

/-- A number of threads has a client. -/
theorem clientsOf_ne_nil {threads : Nat} (member : threads ∈ threadCounts parts) :
    clientsOf threads parts ≠ [] := by
  rw [threadCounts, List.mem_insertionSort, List.mem_dedup, List.mem_map] at member
  obtain ⟨o, inside, rfl⟩ := member
  rw [← map_output_bookings none, List.mem_map] at inside
  obtain ⟨b, booked, rfl⟩ := inside
  have latest : (latestUnder Booking.server b.server
      (bookingsOf b.output.threads none parts)).isSome := by
    rw [latestUnder, List.getLast?_isSome]
    apply @List.ne_nil_of_mem _ b
    exact List.mem_filter.mpr ⟨List.mem_filter.mpr ⟨booked, decide_eq_true rfl⟩,
      decide_eq_true rfl⟩
  have stands := (mem_map_standing_iff Booking.server).mpr latest
  intro none
  rw [clientsOf, List.map_eq_nil_iff] at none
  rw [none] at stands
  cases stands

/-- The two scripts make of a transcript whose clients all reach the latest start one row
for each number of threads, in ascending order, whatever the orders of the keys. -/
theorem rows_read (complete : ∀ o, Part.output o ∈ parts → o.Complete)
    (positive : ∀ threads ∈ threadCounts parts, ∀ client ∈ clientsOf threads parts,
      0 < client.remaining (latestStart (clientsOf threads parts)))
    (given : (scriptOf parts).Orders threadOrder orders) :
    (Table.blank.read ((scriptOf parts).report threadOrder orders)).rows =
      (threadCounts parts).map fun threads => (summaryOf parts threads).row := by
  have summaries := summaries_read complete positive given
  have written : ∀ u ∈ (scriptOf parts).summaries threadOrder orders, u.held.aggWrite ≠ [] := by
    rw [summaries, List.forall_mem_map]
    intro threads member none
    have remains : 0 < shortestRemaining (clientsOf threads parts) :=
      (lt_shortest_iff _ (clientsOf_ne_nil member) 0).mpr fun client inside =>
        Int.lt_toNat.mpr (positive threads member client inside)
    have empty := congrArg List.length none
    rw [summaryOf, sumsOf, List.length_map, List.length_map, List.length_range] at empty
    exact absurd empty remains.ne'
  have sound : (scriptOf parts).Sound := Script.sound_blank.read (parts.flatMap Part.text)
  rw [Script.report, (rows_summaries_iff (given.sound sound)).mpr written, summaries, List.map_map]
  rfl

end Complete

theorem orders_twoClients : (scriptOf twoClients).Orders [decimal 2]
    fun _ => ["b.c3".toList, general, "a.c3".toList] := by
  rw [orders_iff complete_twoClients]
  have counts : threadCounts twoClients = [2] := by decide +kernel
  rw [counts]
  constructor
  · rfl
  · rw [List.forall_mem_singleton]
    have servers : (standing Booking.server (bookingsOf 2 none twoClients)).map Booking.server =
        ["a.c3".toList, "b.c3".toList] := rfl
    rw [servers]
    exact (List.Perm.swap _ _ _).trans ((List.Perm.swap _ _ _).cons _)

theorem rows_read_twoClients :
    (Table.blank.read ((scriptOf twoClients).report [decimal 2]
      fun _ => ["b.c3".toList, general, "a.c3".toList])).rows =
        [{ store := some "InMemory".toList
           server := some "a:b".toList
           threads := some (decimal 2)
           requests := some (decimal 9)
           requestRate := some (decimal 4)
           aggRate := [decimal 8, decimal 8]
           aggRead := [decimal 20, decimal 40]
           aggWrite := [decimal 60, decimal 80] }] := by
  have counts : threadCounts twoClients = [2] := by decide +kernel
  have positive : ∀ threads ∈ threadCounts twoClients, ∀ client ∈ clientsOf threads twoClients,
      0 < client.remaining (latestStart (clientsOf threads twoClients)) := by
    rw [counts, List.forall_mem_singleton]
    exact positive_twoClients
  rw [rows_read complete_twoClients positive orders_twoClients]
  decide +kernel

/-! ## Reports on any text -/

/-- The report on any text is read back: every number of threads makes its own row exactly if
there are results of writing for all of them. -/
theorem rows_report_iff (text : Text) {threadOrder : List Text} {orders : Text → List Text}
    (given : (Script.blank.read text).Orders threadOrder orders) :
    (Table.blank.read ((Script.blank.read text).report threadOrder orders)).rows =
        ((Script.blank.read text).summaries threadOrder orders).map Summary.row ↔
      ∀ u ∈ (Script.blank.read text).summaries threadOrder orders, u.held.aggWrite ≠ [] :=
  rows_summaries_iff (given.sound (Script.sound_blank.read text))

theorem rows_report_iff_twoClients :
    let s := Script.blank.read (twoClients.flatMap Part.text)
    let orders : Text → List Text := fun _ => ["b.c3".toList, general, "a.c3".toList]
    (Table.blank.read (s.report [decimal 2] orders)).rows =
        (s.summaries [decimal 2] orders).map Summary.row ↔
      ∀ u ∈ s.summaries [decimal 2] orders, u.held.aggWrite ≠ [] :=
  rows_report_iff _ orders_twoClients

end Elevator.Report
