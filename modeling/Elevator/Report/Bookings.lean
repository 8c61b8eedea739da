import Elevator.Report.Transcript
import Elevator.Sequence.Latest

/-!
# What is booked of a transcript

A harness is booked under its number of threads and its server, with the stamp that was
read last.  Later results of the server with as many threads take the place of earlier
ones, so that the results that stand are added up, in any order that Perl gives them.
-/

namespace Elevator.Report

open Transition Sequence

/-! ## Entries of the hash -/

/-- The results under a server; an undefined array counts as empty. -/
def Entry.client (e : Entry) : Client Nat where
  timestamp := e.timestamp.getD 0
  aggRate := (e.aggRate.getD []).map ofDecimal
  aggRead := (e.aggRead.getD []).map ofDecimal
  aggWrite := (e.aggWrite.getD []).map ofDecimal

namespace Script

/-- What is held under a key; what holds nothing yet comes into being when it is read. -/
def keyOf (s : Script) (threads key : Text) : Key Nat :=
  if key = general then none else some ((s.test threads key).getD .blank).client

/-- An order in which Perl may give the keys of `$test{$threads}`, among which is `general`
since the store has been read there. -/
structure Keys (s : Script) (threads : Text) (order : List Text) : Prop where
  nodup : order.Nodup
  complete : ∀ key, key ∈ order ↔ key = general ∨ (s.test threads key).isSome

/-- What is printed for a number of threads. -/
def printed (s : Script) (threads : Text) (order : List Text) : Held Nat :=
  aggregate (order.map (s.keyOf threads))

theorem test_assign (s : Script) (key : Text) (change : Entry → Entry) (threads key' : Text) :
    (s.assign key change).test threads key' =
      if threads = s.threads.getD [] ∧ key' = key then
        some (change ((s.test threads key').getD .blank))
      else
        s.test threads key' := by
  rw [assign]
  dsimp only
  by_cases sameThreads : threads = s.threads.getD []
  · subst sameThreads
    rw [Function.update_self]
    by_cases sameKey : key' = key
    · subst sameKey
      rw [Function.update_self, if_pos ⟨rfl, rfl⟩]
    · rw [Function.update_of_ne sameKey, if_neg fun same => sameKey same.2]
  · rw [Function.update_of_ne sameThreads, if_neg fun same => sameThreads same.1]

/-- Changes under `general` are no changes under a server. -/
theorem test_assign_general (s : Script) (change : Entry → Entry) (threads : Text) {key : Text}
    (server : key ≠ general) : (s.assign general change).test threads key = s.test threads key := by
  rw [test_assign, if_neg fun same => server same.2]

/-- Changes under one key come together. -/
theorem assign_assign (s : Script) (key : Text) (change change' : Entry → Entry) :
    (s.assign key change).assign key change' = s.assign key (change' ∘ change) := by
  simp only [assign, Function.update_self, Function.update_idem, Option.getD_some,
    Function.comp_apply]

theorem assignServer_assignServer (s : Script) (change change' : Entry → Entry) :
    (s.assignServer change).assignServer change' = s.assignServer (change' ∘ change) :=
  s.assign_assign _ change change'

theorem setResults (s : Script) (rate read write : List Text) :
    ((s.setRate rate).setRead read).setWrite write =
      s.assignServer fun e =>
        { e with aggRate := some rate, aggRead := some read, aggWrite := some write } := by
  rw [setWrite, setRead, setRate, assignServer_assignServer, assignServer_assignServer]
  rfl

/-- What is booked with a configuration. -/
theorem test_setConfig (s : Script) (config : Text × Text × Text) (results : Entry → Entry)
    (threads : Text) {key : Text} (server : key ≠ general) :
    ((s.setConfig config).assignServer results).test threads key =
      if threads = config.1 ∧ key = s.server.getD [] then
        some (results { (s.test threads key).getD .blank with timestamp := s.timestamp })
      else
        s.test threads key := by
  rw [setConfig, assignServer_assignServer, assignServer, test_assign,
    test_assign_general _ _ _ server]
  rfl

end Script

/-! ## Bookings -/

/-- An output that is booked in full. -/
structure Output.Complete (o : Output) : Prop where
  mode : ∃ requestRate, o.mode = .rate requestRate
  server : o.hostname.1 ≠ general
  aggregateRate : o.aggregateRate ≠ []
  aggregateReadTimer : o.aggregateReadTimer ≠ []
  aggregateWriteTimer : o.aggregateWriteTimer ≠ []

/-- An output with the stamp that was read last. -/
structure Booking where
  timestamp : Option Nat
  output : Output

namespace Booking

def server (b : Booking) : Text :=
  b.output.hostname.1

def client (b : Booking) : Client Nat where
  timestamp := b.timestamp.getD 0
  aggRate := b.output.aggregateRate
  aggRead := b.output.aggregateReadTimer
  aggWrite := b.output.aggregateWriteTimer

end Booking

/-- The outputs of a transcript, each with the stamp before it. -/
def bookings : Option Nat → List Part → List Booking
  | _, [] => []
  | _, .stamp s :: parts => bookings (some s.time) parts
  | timestamp, .output o :: parts => ⟨timestamp, o⟩ :: bookings timestamp parts
  | timestamp, .other _ _ :: parts => bookings timestamp parts

/-- The outputs with a number of threads. -/
def bookingsOf (threads : Nat) (timestamp : Option Nat) (parts : List Part) : List Booking :=
  (bookings timestamp parts).filter (·.output.threads = threads)

/-- The clients of a number of threads: the latest results of each server. -/
def clientsOf (threads : Nat) (parts : List Part) : List (Client Nat) :=
  (standing Booking.server (bookingsOf threads none parts)).map Booking.client

theorem decimal_inj {m n : Nat} : decimal m = decimal n ↔ m = n := by
  constructor
  · intro same
    rw [← ofDecimal_decimal m, same, ofDecimal_decimal]
  · exact congrArg decimal

theorem map_ofDecimal (values : List Nat) : (values.map decimal).map ofDecimal = values := by
  rw [List.map_map]
  exact List.map_id'' ofDecimal_decimal values

/-- The request rate as it is found. -/
def Output.requestRate (o : Output) : Text :=
  (o.config.map fun config => config.2.2).getD []

theorem Output.Complete.config {o : Output} (complete : o.Complete) :
    o.config = some (decimal o.threads, decimal o.requests, o.requestRate) := by
  obtain ⟨requestRate, mode⟩ := complete.mode
  rw [Output.requestRate, Output.config, mode]
  rfl

/-- A complete output sets a configuration and the results of its server. -/
theorem run_output {o : Output} (complete : o.Complete) (s : Script) :
    run Script.take s (Part.output o).found =
      ((s.setHarness (o.engine.1, o.hostname.1)).setConfig
        (decimal o.threads, decimal o.requests, o.requestRate)).assignServer fun e =>
          { e with
            aggRate := some (o.aggregateRate.map decimal)
            aggRead := some (o.aggregateReadTimer.map decimal)
            aggWrite := some (o.aggregateWriteTimer.map decimal) } := by
  have rate : numbers o.aggregateRate = some (o.aggregateRate.map decimal) :=
    if_neg complete.aggregateRate
  have read : numbers o.aggregateReadTimer = some (o.aggregateReadTimer.map decimal) :=
    if_neg complete.aggregateReadTimer
  have write : numbers o.aggregateWriteTimer = some (o.aggregateWriteTimer.map decimal) :=
    if_neg complete.aggregateWriteTimer
  rw [Part.found, complete.config, rate, read, write, ← Script.setResults]
  rfl

theorem take_output {o : Output} (complete : o.Complete) (s : Script) (threads : Nat) {key : Text}
    (server : key ≠ general) :
    (run Script.take s (Part.output o).found).timestamp = s.timestamp ∧
      ((run Script.take s (Part.output o).found).test (decimal threads) key).map Entry.client =
        if o.threads = threads ∧ o.hostname.1 = key then some (Booking.client ⟨s.timestamp, o⟩)
        else (s.test (decimal threads) key).map Entry.client := by
  rw [run_output complete]
  constructor
  · rfl
  · rw [Script.test_setConfig _ _ _ _ server]
    change Option.map Entry.client
      (if decimal threads = decimal o.threads ∧ key = o.hostname.1 then _
        else s.test (decimal threads) key) = _
    simp only [decimal_inj, eq_comm (a := threads), eq_comm (a := key)]
    split
    · rw [Option.map_some, Entry.client, Booking.client]
      simp only [Option.getD_some, map_ofDecimal]
      rfl
    · rfl

theorem mem_bookings {b : Booking} {timestamp : Option Nat} {parts : List Part}
    (member : b ∈ bookings timestamp parts) : Part.output b.output ∈ parts := by
  induction parts generalizing timestamp with
  | nil => cases member
  | cons part parts ih =>
      cases part with
      | stamp s => exact List.mem_cons_of_mem _ (ih member)
      | other line quiet => exact List.mem_cons_of_mem _ (ih member)
      | output o =>
          rcases List.mem_cons.mp member with rfl | later
          · exact List.mem_cons_self
          · exact List.mem_cons_of_mem _ (ih later)

/-- The latest booking of a server is what is held for it. -/
theorem client_run {parts : List Part} (complete : ∀ o, Part.output o ∈ parts → o.Complete)
    (s : Script) (threads : Nat) {key : Text} (server : key ≠ general) :
    ((run Script.take s (parts.flatMap Part.found)).test (decimal threads) key).map Entry.client =
      ((latestUnder Booking.server key (bookingsOf threads s.timestamp parts)).map
        Booking.client).or ((s.test (decimal threads) key).map Entry.client) := by
  induction parts generalizing s with
  | nil => rfl
  | cons part parts ih =>
      have rest := fun s => ih (fun o later => complete o (List.mem_cons_of_mem _ later)) s
      rw [List.flatMap_cons, run_append, rest]
      cases part with
      | stamp stamp => rfl
      | other line quiet => rfl
      | output o =>
          obtain ⟨timestamp, held⟩ :=
            take_output (complete o List.mem_cons_self) s threads server
          rw [timestamp, held, bookingsOf, bookingsOf, bookings, List.filter_cons]
          by_cases sameThreads : o.threads = threads
          · rw [if_pos (decide_eq_true sameThreads), latestUnder_cons, Option.map_or,
              Option.or_assoc]
            congr 1
            by_cases sameServer : o.hostname.1 = key
            · rw [if_pos ⟨sameThreads, sameServer⟩, Booking.server, if_pos sameServer]
              rfl
            · rw [if_neg fun same => sameServer same.2, Booking.server, if_neg sameServer]
              rfl
          · rw [if_neg fun same => sameThreads same.1, if_neg (by simpa using sameThreads)]

/-- What the script has read of a transcript. -/
def scriptOf (parts : List Part) : Script :=
  Script.blank.read (parts.flatMap Part.text)

theorem scriptOf_eq (parts : List Part) :
    scriptOf parts = run Script.take .blank (parts.flatMap Part.found) := by
  have found := @run_found _ Script.take (fun _ => True) (fun _ _ _ => trivial)
    (fun _ _ => rfl) .blank trivial _ _ (filter_found_text parts)
  rw [← found, ← run_comp]
  rfl

section Clients

variable {parts : List Part} {threads : Nat} {order : List Text}

theorem server_ne_general (complete : ∀ o, Part.output o ∈ parts → o.Complete) {b : Booking}
    (member : b ∈ bookingsOf threads none parts) : b.server ≠ general :=
  (complete b.output (mem_bookings (List.mem_filter.mp member).1)).server

theorem held_eq (threads : Nat) (complete : ∀ o, Part.output o ∈ parts → o.Complete)
    {key : Text} (server : key ≠ general) :
    ((scriptOf parts).test (decimal threads) key).map Entry.client =
      (latestUnder Booking.server key (bookingsOf threads none parts)).map Booking.client := by
  rw [scriptOf_eq, client_run complete .blank threads server]
  exact Option.or_none

theorem mem_servers_iff (complete : ∀ o, Part.output o ∈ parts → o.Complete) {key : Text} :
    key ∈ (standing Booking.server (bookingsOf threads none parts)).map Booking.server ↔
      key ≠ general ∧ ((scriptOf parts).test (decimal threads) key).isSome := by
  rw [mem_map_standing_iff]
  by_cases server : key = general
  · constructor
    · intro latest
      obtain ⟨b, found⟩ := Option.isSome_iff_exists.mp latest
      exact absurd ((key_of_latestUnder Booking.server found).trans server)
        (server_ne_general complete (mem_of_latestUnder Booking.server found))
    · exact fun other => absurd server other.1
  · have held := congrArg Option.isSome (held_eq threads complete server)
    rw [Option.isSome_map, Option.isSome_map] at held
    rw [held, and_iff_right server]

/-- The keys of a number of threads are `general` and the servers of its outputs. -/
theorem keys_iff (complete : ∀ o, Part.output o ∈ parts → o.Complete) :
    (scriptOf parts).Keys (decimal threads) order ↔
      order.Perm (general ::
        (standing Booking.server (bookingsOf threads none parts)).map Booking.server) := by
  have distinct : (general ::
      (standing Booking.server (bookingsOf threads none parts)).map Booking.server).Nodup := by
    rw [List.nodup_cons, mem_servers_iff complete]
    exact ⟨fun other => other.1 rfl, nodup_map_standing Booking.server _⟩
  constructor
  · intro keys
    rw [List.perm_ext_iff_of_nodup keys.nodup distinct]
    intro key
    rw [keys.complete, List.mem_cons, mem_servers_iff complete]
    by_cases server : key = general
    · simp [server]
    · simp [server]
  · intro perm
    constructor
    · exact perm.nodup_iff.mpr distinct
    · intro key
      rw [perm.mem_iff, List.mem_cons, mem_servers_iff complete]
      by_cases server : key = general
      · simp [server]
      · simp [server]

/-- The keys of a number of threads stand for its clients. -/
theorem visits_read (complete : ∀ o, Part.output o ∈ parts → o.Complete)
    (keys : (scriptOf parts).Keys (decimal threads) order) :
    Visits (order.map ((scriptOf parts).keyOf (decimal threads))) (clientsOf threads parts) := by
  have client : ∀ b ∈ standing Booking.server (bookingsOf threads none parts),
      (scriptOf parts).keyOf (decimal threads) b.server = some b.client := by
    intro b stands
    have latest := (mem_standing_iff Booking.server).mp stands
    have server := server_ne_general complete (mem_of_latestUnder Booking.server latest)
    have held := held_eq threads complete server
    rw [latest, Option.map_some, Option.map_eq_some_iff] at held
    obtain ⟨entry, found, same⟩ := held
    rw [Script.keyOf, if_neg server, found, Option.getD_some, same]
  have visited := ((keys_iff complete).mp keys).map ((scriptOf parts).keyOf (decimal threads))
  have clients : (standing Booking.server (bookingsOf threads none parts)).map
      ((scriptOf parts).keyOf (decimal threads) ∘ Booking.server) =
        (standing Booking.server (bookingsOf threads none parts)).map (some ∘ Booking.client) :=
    List.map_congr_left client
  rw [List.map_cons, List.map_map, Script.keyOf, if_pos rfl, clients] at visited
  rwa [Visits, clientsOf, List.map_map]

/-- The sums of clients up to the shortest of what remains of them. -/
def sumsOf (clients : List (Client Nat)) : Held Nat :=
  let sums (field : Client Nat → List Nat) :=
    (List.range (shortestRemaining clients)).map fun i =>
      (clients.map fun client => entry field client i).sum
  ⟨clients.length, sums Client.aggRate, (sums Client.aggRead).map (· / clients.length),
    (sums Client.aggWrite).map (· / clients.length)⟩

theorem Visits.sums {keys : List (Key Nat)} {clients : List (Client Nat)}
    (visits : Visits keys clients)
    (positive : ∀ client ∈ clients, 0 < client.remaining (latestStart clients)) :
    Report.aggregate keys = sumsOf clients := by
  rw [visits.aggregate, sumOf_eq visits.reduceOption positive,
    sumOf_eq visits.reduceOption positive, sumOf_eq visits.reduceOption positive]
  rfl

/-- Of a transcript whose clients all reach the latest start, the sums of the latest results
of each server are printed, in any order of the keys. -/
theorem printed_read (complete : ∀ o, Part.output o ∈ parts → o.Complete)
    (positive : ∀ client ∈ clientsOf threads parts,
      0 < client.remaining (latestStart (clientsOf threads parts)))
    (keys : (scriptOf parts).Keys (decimal threads) order) :
    (scriptOf parts).printed (decimal threads) order =
      let clients := clientsOf threads parts
      let sums (field : Client Nat → List Nat) :=
        (List.range (shortestRemaining clients)).map fun i =>
          (clients.map fun client => entry field client i).sum
      ⟨clients.length, sums Client.aggRate, (sums Client.aggRead).map (· / clients.length),
        (sums Client.aggWrite).map (· / clients.length)⟩ :=
  (visits_read complete keys).sums positive

end Clients

/-- Two clients that started one second apart. -/
def twoClients : List Part :=
  let client (hostname : Name) (rates : List Nat) : Part := .output
    { engine := ⟨"VCStoreInMemory".toList, by decide, forall_not_isSpace rfl⟩
      hostname
      configFile := none
      threads := 2
      requests := 9
      mode := .rate 4
      parentPid := 31
      threadLines := [.creating 1, .alive 1 5]
      aggregateRate := rates
      aggregateReadTimer := [20, 40]
      aggregateWriteTimer := [60, 80] }
  [.stamp ⟨⟨"Mon Jan 10 10:00:00 PST 2011".toList, by decide⟩, 36000, by decide +kernel⟩,
    client ⟨"a.c3".toList, by decide, forall_not_isSpace rfl⟩ [3, 4, 2],
    .stamp ⟨⟨"Mon Jan 10 10:00:01 PST 2011".toList, by decide⟩, 36001, by decide +kernel⟩,
    client ⟨"b.c3".toList, by decide, forall_not_isSpace rfl⟩ [5, 4]]

theorem complete_twoClients : ∀ o, Part.output o ∈ twoClients → o.Complete := by
  intro o member
  simp only [twoClients, List.mem_cons, List.not_mem_nil, reduceCtorEq, Part.output.injEq,
    or_false, false_or] at member
  rcases member with rfl | rfl <;> exact ⟨⟨4, rfl⟩, by decide, by decide, by decide, by decide⟩

theorem positive_twoClients : ∀ client ∈ clientsOf 2 twoClients,
    0 < client.remaining (latestStart (clientsOf 2 twoClients)) := by
  have clients : clientsOf 2 twoClients =
      [⟨36000, [3, 4, 2], [20, 40], [60, 80]⟩, ⟨36001, [5, 4], [20, 40], [60, 80]⟩] := rfl
  rw [clients]
  simp [Client.remaining, latestStart, latest]

theorem printed_read_twoClients :
    (scriptOf twoClients).printed (decimal 2) [general, "a.c3".toList, "b.c3".toList] =
      ⟨2, [8, 8], [20, 40], [60, 80]⟩ :=
  printed_read complete_twoClients positive_twoClients
    ((keys_iff complete_twoClients).mpr (List.Perm.refl _))

end Elevator.Report
