import Elevator.Report.Clients

/-!
# The order of the keys

Perl gives the keys of a hash in any order.  What is printed is the same in all of them,
as long as the shortest client and from every client exactly if something remains of all
clients or of none, and their averages reach as far as the rates.
-/

namespace Elevator.Report

open Transition Sequence

/-- The results of a client with the client itself in place of each number. -/
def Client.traced (client : Client Nat) : Client (Multiset (Client Nat)) where
  timestamp := client.timestamp
  aggRate := client.aggRate.map fun _ => {client}
  aggRead := client.aggRead.map fun _ => {client}
  aggWrite := client.aggWrite.map fun _ => {client}

/-- Where the entries come from. -/
def contributors (keys : List (Key Nat)) : Held (Multiset (Client Nat)) :=
  addServers (keys.map (Option.map Client.traced))

/-- An array is as long as the shortest client, and every client has contributed to each
of its entries. -/
def Whole (clients : List (Client Nat)) (printed : List Nat)
    (sources : List (Multiset (Client Nat))) : Prop :=
  printed.length = shortestRemaining clients ∧
    ∀ i < printed.length, (clients : Multiset (Client Nat)) ≤ sources.getD i 0

/-- In every order of the keys the same whole arrays are printed. -/
def OrderFree (clients : List (Client Nat)) : Prop :=
  ∀ keys, Visits keys clients →
    (∀ keys', Visits keys' clients → aggregate keys' = aggregate keys) ∧
      Whole clients (aggregate keys).aggRate (contributors keys).aggRate ∧
      Whole clients (aggregate keys).aggRead (contributors keys).aggRead ∧
      Whole clients (aggregate keys).aggWrite (contributors keys).aggWrite

/-! ## Contributions -/

theorem Visits.traced {keys : List (Key Nat)} {clients : List (Client Nat)}
    (visits : Visits keys clients) :
    Visits (keys.map (Option.map Client.traced)) (clients.map Client.traced) := by
  have order := visits.map (Option.map Client.traced)
  rw [List.map_cons, List.map_map] at order
  rw [Visits, List.map_map]
  exact order

theorem latestStart_traced (clients : List (Client Nat)) :
    latestStart (clients.map Client.traced) = latestStart clients := by
  rw [latestStart, List.map_map]
  rfl

theorem remaining_traced (client : Client Nat) (startTime : Int) :
    client.traced.remaining startTime = client.remaining startTime := by
  rw [Client.remaining, Client.remaining, Client.traced, List.length_map]

theorem shortestRemaining_traced (clients : List (Client Nat)) :
    shortestRemaining (clients.map Client.traced) = shortestRemaining clients := by
  rw [shortestRemaining, latestStart_traced, shortest, List.map_map, shortestRemaining, shortest]
  congr 2
  apply List.map_congr_left
  intro client _
  rw [Function.comp_apply, Client.count, remaining_traced, Client.count]

/-- The clients that pass a test, one by one. -/
theorem sum_singletons {α : Type*} (test : α → Prop) [DecidablePred test] (l : List α) :
    (l.map fun x => if test x then ({x} : Multiset α) else 0).sum =
      (l.filter fun x => test x : List α) := by
  induction l with
  | nil => rfl
  | cons x l ih =>
      rw [List.map_cons, List.sum_cons, ih, List.filter_cons]
      by_cases passes : test x <;> simp [passes]

/-- All of them contribute exactly if all pass. -/
theorem le_sum_singletons_iff {α : Type*} (test : α → Prop) [DecidablePred test] (l : List α) :
    (l : Multiset α) ≤ (l.map fun x => if test x then ({x} : Multiset α) else 0).sum ↔
      ∀ x ∈ l, test x := by
  rw [sum_singletons]
  constructor
  · intro le x member
    have lengths := (List.length_filter_le _ l).antisymm (Multiset.coe_le.mp le).length_le
    rw [List.length_filter_eq_length_iff] at lengths
    exact of_decide_eq_true (lengths x member)
  · intro all
    rw [List.filter_eq_self.mpr fun x member => decide_eq_true (all x member)]

/-- What the entries `i` of the clients add up to are the clients that have one. -/
theorem sum_traced {field : Client Nat → List Nat}
    {field' : Client (Multiset (Client Nat)) → List (Multiset (Client Nat))}
    (traces : ∀ client, field' client.traced = (field client).map fun _ => {client})
    (clients : List (Client Nat)) (i : Nat) :
    ((clients.map Client.traced).map fun client => entry field' client i).sum =
      (clients.map fun client =>
        if i < (field client).length then ({client} : Multiset (Client Nat)) else 0).sum := by
  rw [List.map_map]
  congr 1
  apply List.map_congr_left
  intro client _
  rw [Function.comp_apply, entry, traces]
  by_cases within : i < (field client).length <;>
    simp [List.getD_eq_getElem?_getD, within]

section Positive

variable {clients : List (Client Nat)} {keys : List (Key Nat)}
  (positive : ∀ client ∈ clients, 0 < client.remaining (latestStart clients))
  (visits : Visits keys clients)

include positive visits

/-- Where something remains of all clients, an array is whole exactly if each client has
entries for it as far as the shortest. -/
theorem whole_iff {field : Client Nat → List Nat}
    {field' : Client (Multiset (Client Nat)) → List (Multiset (Client Nat))}
    (traces : ∀ client, field' client.traced = (field client).map fun _ => {client})
    {printed : List Nat}
    (length_printed : printed.length =
      (sumOf field (latestStart clients) keys.reduceOption).length) :
    Whole clients printed (sumOf field' (latestStart (clients.map Client.traced))
        (keys.map (Option.map Client.traced)).reduceOption) ↔
      ∀ client ∈ clients, shortestRemaining clients ≤ (field client).length := by
  have positiveTraced : ∀ client ∈ clients.map Client.traced,
      0 < client.remaining (latestStart (clients.map Client.traced)) := by
    rw [List.forall_mem_map, latestStart_traced]
    intro client member
    rw [remaining_traced]
    exact positive client member
  rw [sumOf_eq visits.reduceOption positive, List.length_map, List.length_range] at length_printed
  rw [Whole, sumOf_eq visits.traced.reduceOption positiveTraced, shortestRemaining_traced,
    length_printed]
  have entries (i : Nat) (inside : i < shortestRemaining clients) :
      ((List.range (shortestRemaining clients)).map fun i =>
        ((clients.map Client.traced).map fun client => entry field' client i).sum).getD i 0 =
        (clients.map fun client =>
          if i < (field client).length then ({client} : Multiset (Client Nat)) else 0).sum := by
    rw [List.getD_eq_getElem?_getD, List.getElem?_map, List.getElem?_range inside, Option.map_some,
      Option.getD_some, sum_traced traces]
  constructor
  · rintro ⟨_, whole⟩ client member
    apply Nat.le_of_not_lt
    intro beyond
    have all := whole _ beyond
    rw [entries _ beyond, le_sum_singletons_iff] at all
    exact Nat.lt_irrefl _ (all client member)
  · intro reach
    constructor
    · rfl
    · intro i inside
      rw [entries i inside, le_sum_singletons_iff]
      exact fun client member => inside.trans_le (reach client member)

end Positive

/-- The shortest length is no longer than the rates of a client. -/
theorem shortestRemaining_le {clients : List (Client Nat)} {client : Client Nat}
    (member : client ∈ clients) : shortestRemaining clients ≤ client.aggRate.length := by
  apply Nat.le_of_not_lt
  intro beyond
  have each := lt_remaining beyond client member
  have start : client.timestamp ≤ latestStart clients := le_latest (List.mem_map_of_mem member)
  rw [Client.remaining] at each
  omega

/-! ## Every order -/

/-- Something remains of all clients, or of none. -/
def RemainAlike (clients : List (Client Nat)) : Prop :=
  (∀ client ∈ clients, 0 < client.remaining (latestStart clients)) ∨
    ∀ client ∈ clients, client.remaining (latestStart clients) ≤ 0

theorem remainAlike_iff (clients : List (Client Nat)) :
    RemainAlike clients ↔
      ∀ order : List (Client Nat), order.Perm clients →
        (sumOf Client.aggRate (latestStart clients) order).length =
          shortestRemaining clients := by
  have counts := length_sumShortest_iff (entry Client.aggRate)
    (Client.count (latestStart clients)) clients
  have positive_iff (client : Client Nat) :
      0 < client.count (latestStart clients) ↔ 0 < client.remaining (latestStart clients) := by
    rw [Client.count]
    omega
  have zero_iff (client : Client Nat) :
      client.count (latestStart clients) = 0 ↔ client.remaining (latestStart clients) ≤ 0 := by
    rw [Client.count]
    omega
  simp only [positive_iff, zero_iff] at counts
  exact counts.symm

/-- What is printed under a key order is as long as the sum of the rates. -/
theorem length_aggregate {keys : List (Key Nat)} {clients : List (Client Nat)}
    (visits : Visits keys clients) :
    (aggregate keys).aggRate.length =
        (sumOf Client.aggRate (latestStart clients) keys.reduceOption).length ∧
      (aggregate keys).aggRead.length =
        (sumOf Client.aggRead (latestStart clients) keys.reduceOption).length ∧
      (aggregate keys).aggWrite.length =
        (sumOf Client.aggWrite (latestStart clients) keys.reduceOption).length := by
  rw [visits.aggregate]
  exact ⟨rfl, List.length_map _, List.length_map _⟩

theorem orderFree_of_positive {clients : List (Client Nat)}
    (positive : ∀ client ∈ clients, 0 < client.remaining (latestStart clients))
    (reach : ∀ client ∈ clients, shortestRemaining clients ≤ client.aggRead.length ∧
      shortestRemaining clients ≤ client.aggWrite.length) : OrderFree clients := by
  intro keys visits
  obtain ⟨rate, read, write⟩ := length_aggregate visits
  rw [contributors, visits.traced.addServers]
  constructor
  · intro keys' visits'
    rw [visits'.aggregate, visits.aggregate]
    simp only [sumOf_eq visits.reduceOption positive, sumOf_eq visits'.reduceOption positive]
  constructor
  · exact (whole_iff positive visits (fun _ => rfl) rate).mpr fun _ => shortestRemaining_le
  constructor
  · exact (whole_iff positive visits (fun _ => rfl) read).mpr fun _ member => (reach _ member).1
  · exact (whole_iff positive visits (fun _ => rfl) write).mpr fun _ member => (reach _ member).2

/-- Nothing is left where every client has ended. -/
theorem shortestRemaining_of_ended {clients : List (Client Nat)}
    (ended : ∀ client ∈ clients, client.remaining (latestStart clients) ≤ 0) :
    shortestRemaining clients = 0 := by
  cases clients with
  | nil => rfl
  | cons client clients =>
      apply Nat.eq_zero_of_not_pos
      intro some
      have remains := lt_remaining some client (List.mem_cons_self ..)
      have past := ended client (List.mem_cons_self ..)
      omega

theorem orderFree_of_ended {clients : List (Client Nat)}
    (ended : ∀ client ∈ clients, client.remaining (latestStart clients) ≤ 0) :
    OrderFree clients := by
  have empty {order : List (Client Nat)} (perm : order.Perm clients)
      (field : Client Nat → List Nat) : sumOf field (latestStart clients) order = [] := by
    apply sumShortest_of_empty
    intro client member
    have past := ended client (perm.mem_iff.mp member)
    rw [Client.count]
    omega
  have printed {keys : List (Key Nat)} (visits : Visits keys clients) :
      aggregate keys = ⟨clients.length, [], [], []⟩ := by
    rw [visits.aggregate, empty visits.reduceOption, empty visits.reduceOption,
      empty visits.reduceOption]
    rfl
  have whole (sources : List (Multiset (Client Nat))) : Whole clients [] sources :=
    ⟨(shortestRemaining_of_ended ended).symm, fun i inside => absurd inside (Nat.not_lt_zero i)⟩
  intro keys visits
  rw [printed visits]
  exact ⟨fun _ visits' => printed visits', whole _, whole _, whole _⟩

/-- What is printed does not depend on the order of the keys, is as long as the shortest
client and comes from all of them exactly if something remains of all clients or of none,
and each of them has read and write averages as far as the shortest. -/
theorem orderFree_iff (clients : List (Client Nat)) :
    OrderFree clients ↔
      RemainAlike clients ∧
        ∀ client ∈ clients, shortestRemaining clients ≤ client.aggRead.length ∧
          shortestRemaining clients ≤ client.aggWrite.length := by
  constructor
  · intro free
    have alike : RemainAlike clients := by
      rw [remainAlike_iff]
      intro order perm
      have visits : Visits (none :: order.map some) clients := (perm.map some).cons none
      have length_rate := (free _ visits).2.1.1
      rw [(length_aggregate visits).1] at length_rate
      rwa [List.reduceOption_cons_of_none, reduceOption_map_some] at length_rate
    constructor
    · exact alike
    · rcases alike with positive | ended
      · have visits : Visits (none :: clients.map some) clients := List.Perm.refl _
        obtain ⟨_, _, read, write⟩ := free _ visits
        obtain ⟨_, length_read, length_write⟩ := length_aggregate visits
        rw [contributors, visits.traced.addServers] at read write
        have reads := (whole_iff positive visits (fun _ => rfl) length_read).mp read
        have writes := (whole_iff positive visits (fun _ => rfl) length_write).mp write
        exact fun client member => ⟨reads client member, writes client member⟩
      · intro client member
        rw [shortestRemaining_of_ended ended]
        exact ⟨Nat.zero_le _, Nat.zero_le _⟩
  · rintro ⟨positive | ended, reach⟩
    · exact orderFree_of_positive positive reach
    · exact orderFree_of_ended ended

/-- Of two clients, of which nothing remains of the first, the second is printed alone or
not at all. -/
theorem ended_not_orderFree :
    let ended : Client Nat := ⟨0, [5], [50], [50]⟩
    let late : Client Nat := ⟨1, [7], [70], [70]⟩
    (aggregate [none, some ended, some late]).aggRate = [7] ∧
      (aggregate [none, some late, some ended]).aggRate = [] ∧ ¬ OrderFree [ended, late] := by
  intro ended late
  have first : (aggregate [none, some ended, some late]).aggRate = [7] := by decide +kernel
  have second : (aggregate [none, some late, some ended]).aggRate = [] := by decide +kernel
  constructor
  · exact first
  constructor
  · exact second
  · intro free
    have visits : Visits [none, some ended, some late] [ended, late] := List.Perm.refl _
    have visits' : Visits [none, some late, some ended] [ended, late] :=
      (List.Perm.swap _ _ _).cons none
    have same := congrArg Held.aggRate ((free _ visits).1 _ visits')
    rw [first, second] at same
    cases same

end Elevator.Report
