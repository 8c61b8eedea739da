import Elevator.Report.Clients

/-!
# Seconds in line

The entries of clients that started at different times belong to different seconds, and
the loop adds up entries of the same index.  So for result vectors of any content the
seconds are in line exactly if all clients started in the same one, or there is a client
of which nothing remains.
-/

namespace Elevator.Report

open Transition Sequence

/-- The sum of what the clients have for the second `i` after the latest start. -/
def inLine (field : Client Nat → List Nat) (clients : List (Client Nat)) (i : Nat) : Nat :=
  (clients.map fun client =>
    entry field client (i + (latestStart clients - client.timestamp))).sum

/-- As far as every client reaches, what is printed belongs to the same seconds. -/
def LinesUp (clients : List (Client Nat)) : Prop :=
  ∀ keys, Visits keys clients → ∀ i < shortestRemaining clients,
    (aggregate keys).aggRate[i]? = some (inLine Client.aggRate clients i) ∧
      (aggregate keys).aggRead[i]? =
        some (inLine Client.aggRead clients i / clients.length) ∧
      (aggregate keys).aggWrite[i]? =
        some (inLine Client.aggWrite clients i / clients.length)

/-- When a client started, and the length of its rates. -/
def Client.shape (client : Client Nat) : Nat × Nat :=
  (client.timestamp, client.aggRate.length)

theorem map_shape_fst (clients : List (Client Nat)) :
    (clients.map Client.shape).map Prod.fst = clients.map Client.timestamp :=
  List.map_map

/-- What is printed is the sum of the entries of the same index. -/
theorem getElem?_sumOf {clients order : List (Client Nat)} (perm : order.Perm clients)
    {i : Nat} (inside : i < shortestRemaining clients) (field : Client Nat → List Nat) :
    (sumOf field (latestStart clients) order)[i]? =
      some (clients.map fun client => entry field client i).sum := by
  have positive : ∀ client ∈ clients, 0 < client.remaining (latestStart clients) := by
    intro client member
    have beyond := lt_remaining inside client member
    omega
  rw [sumOf_eq perm positive, List.getElem?_map, List.getElem?_range inside, Option.map_some]

/-- Clients that started in the same second are in line. -/
theorem linesUp_of_same {clients : List (Client Nat)}
    (same : ∀ client ∈ clients, client.timestamp = latestStart clients) : LinesUp clients := by
  intro keys visits i inside
  have lines (field : Client Nat → List Nat) :
      (clients.map fun client => entry field client i).sum = inLine field clients i := by
    rw [inLine]
    congr 1
    apply List.map_congr_left
    intro client member
    rw [same client member, Nat.sub_self, Nat.add_zero]
  have perm := visits.reduceOption
  rw [visits.aggregate]
  dsimp only
  rw [List.getElem?_map, List.getElem?_map, getElem?_sumOf perm inside, getElem?_sumOf perm inside,
    getElem?_sumOf perm inside, lines, lines, lines]
  exact ⟨rfl, rfl, rfl⟩

/-- Where nothing remains of a client, no second is common to all. -/
theorem linesUp_of_ended {clients : List (Client Nat)} {client : Client Nat}
    (member : client ∈ clients) (ended : client.remaining (latestStart clients) ≤ 0) :
    LinesUp clients := by
  intro keys visits i inside
  have beyond := lt_remaining inside client member
  omega

/-- A client that has counted one event in its first second. -/
def spike (shape : Nat × Nat) : Client Nat :=
  ⟨shape.1, (List.range shape.2).map fun i => if i = 0 then 1 else 0, [], []⟩

theorem shape_spike (shape : Nat × Nat) : (spike shape).shape = shape := by
  simp [spike, Client.shape]

theorem entry_spike (shape : Nat × Nat) (i : Nat) :
    entry Client.aggRate (spike shape) i = if i = 0 ∧ 0 < shape.2 then 1 else 0 := by
  by_cases inside : i < shape.2
  · by_cases first : i = 0
    · subst first
      simp [entry, spike, List.getD_eq_getElem?_getD, inside]
    · simp [entry, spike, List.getD_eq_getElem?_getD, inside, first]
  · have outside : ¬ (i = 0 ∧ 0 < shape.2) := by omega
    simp [entry, spike, List.getD_eq_getElem?_getD, inside, outside]

theorem latestStart_spikes (shapes : List (Nat × Nat)) :
    latestStart (shapes.map spike) = latest (shapes.map Prod.fst) := by
  rw [latestStart, List.map_map]
  rfl

section Spikes

variable {shapes : List (Nat × Nat)} {early : Nat × Nat} (member : early ∈ shapes)
  (remains : ∀ shape ∈ shapes, latest (shapes.map Prod.fst) < shape.1 + shape.2)

include member remains

theorem shortestRemaining_spikes_pos : 0 < shortestRemaining (shapes.map spike) := by
  have nonempty : shapes.map spike ≠ [] := List.ne_nil_of_mem (List.mem_map_of_mem member)
  rw [shortestRemaining, latestStart_spikes, lt_shortest_iff _ nonempty, List.forall_mem_map]
  intro shape member
  have beyond := remains shape member
  simp only [Client.count, Client.remaining, spike, List.length_map, List.length_range]
  omega

/-- The spike of an early client is in the first entry, and not in line with it. -/
theorem inLine_spikes_lt (earlier : early.1 < latest (shapes.map Prod.fst)) :
    inLine Client.aggRate (shapes.map spike) 0 <
      ((shapes.map spike).map fun client => entry Client.aggRate client 0).sum := by
  rw [inLine, latestStart_spikes, List.map_map, List.map_map]
  apply List.sum_lt_sum
  · intro shape _
    rw [Function.comp_apply, Function.comp_apply, entry_spike, entry_spike]
    split <;> split <;> omega
  · have beyond := remains early member
    have moved : (spike early).timestamp = early.1 := rfl
    have less : entry Client.aggRate (spike early)
        (0 + (latest (shapes.map Prod.fst) - (spike early).timestamp)) <
        entry Client.aggRate (spike early) 0 := by
      rw [entry_spike, entry_spike, moved, if_neg (by omega), if_pos (by omega)]
      exact Nat.one_pos
    exact ⟨early, member, less⟩

/-- Spikes of clients that started in different seconds are not in line. -/
theorem not_linesUp_spikes (earlier : early.1 < latest (shapes.map Prod.fst)) :
    ¬ LinesUp (shapes.map spike) := by
  intro lines
  have some := shortestRemaining_spikes_pos member remains
  have visits : Visits (none :: (shapes.map spike).map Option.some) (shapes.map spike) :=
    List.Perm.refl _
  have first := (lines _ visits 0 some).1
  rw [visits.aggregate] at first
  dsimp only at first
  rw [getElem?_sumOf visits.reduceOption some, Option.some_inj] at first
  exact (inLine_spikes_lt member remains earlier).ne' first

end Spikes

/-- Clients of some shapes are in line, whatever they have measured, exactly if all of them
started in the same second or nothing remains of one. -/
theorem linesUp_iff (shapes : List (Nat × Nat)) :
    (∀ clients : List (Client Nat), clients.map Client.shape = shapes → LinesUp clients) ↔
      (∀ a ∈ shapes, ∀ b ∈ shapes, a.1 = b.1) ∨
        ∃ a ∈ shapes, a.1 + a.2 ≤ latest (shapes.map Prod.fst) := by
  constructor
  · intro lines
    by_contra neither
    obtain ⟨different, remains⟩ := not_or.mp neither
    push Not at different remains
    obtain ⟨a, memberA, b, memberB, differ⟩ := different
    have shape : (shapes.map spike).map Client.shape = shapes := by
      rw [List.map_map]
      exact (List.map_congr_left fun shape _ => shape_spike shape).trans (List.map_id _)
    have boundA := le_latest (List.mem_map_of_mem (f := Prod.fst) memberA)
    have boundB := le_latest (List.mem_map_of_mem (f := Prod.fst) memberB)
    rcases Nat.lt_or_gt_of_ne differ with less | greater
    · exact not_linesUp_spikes memberA remains (less.trans_le boundB) (lines _ shape)
    · exact not_linesUp_spikes memberB remains (greater.trans_le boundA) (lines _ shape)
  · rintro either clients rfl
    rw [map_shape_fst, ← latestStart] at either
    rcases either with same | ⟨_, shaped, ended⟩
    · apply linesUp_of_same
      intro client member
      apply Nat.le_antisymm (le_latest (List.mem_map_of_mem member))
      apply latest_le
      rw [List.forall_mem_map]
      intro other member'
      exact (same _ (List.mem_map_of_mem member') _ (List.mem_map_of_mem member)).le
    · obtain ⟨client, member, rfl⟩ := List.mem_map.mp shaped
      apply linesUp_of_ended member
      rw [Client.remaining]
      simp only [Client.shape] at ended
      omega

/-- A client that started a second before the other is added without a shift. -/
theorem early_not_inLine :
    let early : Client Nat := ⟨0, [1, 2, 3], [10, 20, 30], [10, 20, 30]⟩
    let late : Client Nat := ⟨1, [5, 5], [50, 50], [50, 50]⟩
    let keys := [none, some early, some late]
    (aggregate keys).aggRate = [6, 7] ∧
      (List.range 2).map (inLine Client.aggRate [early, late]) = [7, 8] ∧
      ¬ LinesUp [early, late] := by
  intro early late keys
  have printed : (aggregate keys).aggRate = [6, 7] := by decide +kernel
  have wanted : (List.range 2).map (inLine Client.aggRate [early, late]) = [7, 8] := by
    decide +kernel
  constructor
  · exact printed
  constructor
  · exact wanted
  · intro lines
    have first := (lines keys (List.Perm.refl _) 0 (by decide +kernel)).1
    rw [printed] at first
    exact absurd first (by decide +kernel)

end Elevator.Report
