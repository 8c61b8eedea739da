import Mathlib.Data.List.Pairwise
import Mathlib.Data.List.Nodup

/-!
# The latest under each key

Of a sequence of entries with keys the latest under each key stand.  Their keys are all
those of the sequence, and each of them is the key of one entry that stands.
-/

namespace Elevator.Sequence

universe u v

variable {ι : Type u} {κ : Type v} [DecidableEq κ] (key : ι → κ)

/-- The latest entry under a key. -/
def latestUnder (k : κ) (entries : List ι) : Option ι :=
  (entries.filter (key · = k)).getLast?

/-- The entries that no later one has the key of. -/
def standing (entries : List ι) : List ι :=
  entries.pwFilter (key · ≠ key ·)

@[simp]
theorem latestUnder_nil (k : κ) : latestUnder key k [] = none :=
  rfl

theorem latestUnder_cons (k : κ) (entry : ι) (entries : List ι) :
    latestUnder key k (entry :: entries) =
      (latestUnder key k entries).or (if key entry = k then some entry else none) := by
  rw [latestUnder, latestUnder, List.filter_cons]
  by_cases same : key entry = k
  · rw [if_pos (decide_eq_true same), if_pos same, List.getLast?_cons]
    cases (entries.filter (key · = k)).getLast? <;> rfl
  · rw [if_neg (by simpa using same), if_neg same, Option.or_none]

theorem mem_of_latestUnder {k : κ} {entry : ι} {entries : List ι}
    (latest : latestUnder key k entries = some entry) : entry ∈ entries :=
  (List.mem_filter.mp (List.mem_of_getLast? latest)).1

theorem key_of_latestUnder {k : κ} {entry : ι} {entries : List ι}
    (latest : latestUnder key k entries = some entry) : key entry = k := by
  have member := List.mem_of_getLast? latest
  exact of_decide_eq_true (List.mem_filter.mp member).2

/-- What stands is the latest under its key. -/
theorem mem_standing_iff {entry : ι} {entries : List ι} :
    entry ∈ standing key entries ↔ latestUnder key (key entry) entries = some entry := by
  induction entries generalizing entry with
  | nil => simp [standing]
  | cons first entries ih =>
      rw [latestUnder_cons, standing]
      cases later : latestUnder key (key first) entries with
      | none =>
          have alone : ∀ other ∈ standing key entries, key first ≠ key other := by
            intro other member same
            rw [same, ih.mp member] at later
            cases later
          rw [List.pwFilter_cons_of_pos alone, List.mem_cons]
          by_cases same : key first = key entry
          · rw [← same, later, if_pos rfl, Option.none_or, Option.some_inj]
            constructor
            · rintro (rfl | member)
              · rfl
              · exact absurd same (alone entry member)
            · exact fun equal => Or.inl equal.symm
          · rw [if_neg same, Option.or_none, ← ih]
            constructor
            · rintro (rfl | member)
              · exact absurd rfl same
              · exact member
            · exact Or.inr
      | some last =>
          have same := key_of_latestUnder key later
          have stands : last ∈ standing key entries := by rw [ih, same, later]
          rw [List.pwFilter_cons_of_neg fun alone => alone last stands same.symm]
          change entry ∈ standing key entries ↔ _
          rw [ih]
          by_cases under : key first = key entry
          · rw [← under, later, Option.some_or]
          · rw [if_neg under, Option.or_none]

/-- The keys under which there is a latest entry are those of the entries that stand. -/
theorem mem_map_standing_iff {k : κ} {entries : List ι} :
    k ∈ (standing key entries).map key ↔ (latestUnder key k entries).isSome := by
  rw [List.mem_map, Option.isSome_iff_exists]
  constructor
  · rintro ⟨entry, stands, rfl⟩
    exact ⟨entry, (mem_standing_iff key).mp stands⟩
  · rintro ⟨entry, latest⟩
    have under := key_of_latestUnder key latest
    exact ⟨entry, (mem_standing_iff key).mpr (under.symm ▸ latest), under⟩

theorem nodup_map_standing (entries : List ι) : ((standing key entries).map key).Nodup :=
  List.pairwise_map.mpr (List.pairwise_pwFilter _)

end Elevator.Sequence
