import Elevator.Harness.System

/-!
# The harness over stores of their own

Every worker constructs a storage engine.  Over `VCStoreInMemory` the threads share the
source of their hits but nothing of what they keep, so that the hits of a visitor are
scattered over the stores.  In every interleaving the store of a thread shows a visitor
what those of his hits left that the thread has served, and a thread that has come to its
end has served all that it was given.
-/

namespace Elevator.Harness

open Wire Transition VCookie VCookieStore

/-- The source, the store of each thread, and how many of its hits it has served. -/
structure Fleet (σ : Type) (n : Nat) where
  pool : Pool n
  stores : Fin n → σ
  served : Fin n → Nat

inductive FleetStep (n : Nat)
  | read (t : Fin n)
  | parse (t : Fin n) (eof : Bool)
  | serve (t : Fin n)

namespace Fleet

variable {σ : Type} {n : Nat}

def start (n requests : Nat) (files : List (Option Bytes)) (empty : σ) : Fleet σ n where
  pool := Pool.start n requests files
  stores _ := empty
  served _ := 0

/-- The hit that a thread has in hand. -/
def inHand (s : Fleet σ n) (t : Fin n) : Option HitData :=
  (s.pool.worker t).hits[s.served t]?

/-- A thread that has a hit in hand does not read on. -/
def step (engine : StorageEngine σ) (junk : UInt8) (cast : LexicalCast) (s : Fleet σ n) :
    FleetStep n → Fleet σ n
  | .read t =>
      if (s.inHand t).isNone then { s with pool := s.pool.step cast (.read t) } else s
  | .parse t eof => { s with pool := s.pool.step cast (.parse t eof) }
  | .serve t =>
      match s.inHand t with
      | some hit =>
          { s with
            stores := Function.update s.stores t (Harness.serve engine junk (s.stores t) hit)
            served := Function.update s.served t (s.served t + 1) }
      | none => s

/-- What the stores hold comes from the hits that their threads have served: all but one of
those they were given, and all of them where a thread is not about to read. -/
structure Kept (engine : StorageEngine σ) (junk : UInt8) (empty : σ) (s : Fleet σ n) : Prop where
  stores : ∀ t, s.stores t =
    run (Harness.serve engine junk) empty ((s.pool.worker t).hits.take (s.served t))
  served : ∀ t, s.served t ≤ (s.pool.worker t).hits.length
  behind : ∀ t, (s.pool.worker t).hits.length ≤ s.served t + 1
  settled : ∀ t, (s.pool.worker t).phase ≠ .calling →
    s.served t = (s.pool.worker t).hits.length

theorem kept_start (engine : StorageEngine σ) (junk : UInt8) (empty : σ) (n requests : Nat)
    (files : List (Option Bytes)) : Kept engine junk empty (start n requests files empty) where
  stores _ := rfl
  served _ := Nat.le_refl _
  behind _ := Nat.zero_le _
  settled _ away := absurd rfl away

namespace Kept

variable {engine : StorageEngine σ} {junk : UInt8} {empty : σ} {s : Fleet σ n}

/-- A step of the source that changes one thread. -/
theorem pool (kept : Kept engine junk empty s) {t : Fin n} {w : Reader} {source : DwfileHitSource}
    (grown : (s.pool.worker t).hits <+: w.hits) (behind : w.hits.length ≤ s.served t + 1)
    (settled : w.phase ≠ .calling → s.served t = w.hits.length) :
    Kept engine junk empty
      { s with pool := ⟨source, Function.update s.pool.worker t w⟩ } := by
  constructor
  · apply (Function.forall_update_iff s.pool.worker fun t' w => s.stores t' =
      run (Harness.serve engine junk) empty (w.hits.take (s.served t'))).mpr
    constructor
    · obtain ⟨later, same⟩ := grown
      rw [kept.stores t, ← same, List.take_append_of_le_length (kept.served t)]
    · exact fun t' _ => kept.stores t'
  · apply (Function.forall_update_iff s.pool.worker fun t' w => s.served t' ≤ w.hits.length).mpr
    exact ⟨(kept.served t).trans grown.length_le, fun t' _ => kept.served t'⟩
  · apply (Function.forall_update_iff s.pool.worker fun t' w => w.hits.length ≤ s.served t' + 1).mpr
    exact ⟨behind, fun t' _ => kept.behind t'⟩
  · apply (Function.forall_update_iff s.pool.worker fun t' w =>
      w.phase ≠ .calling → s.served t' = w.hits.length).mpr
    exact ⟨settled, fun t' _ => kept.settled t'⟩

theorem served_eq (kept : Kept engine junk empty s) {t : Fin n} (none : s.inHand t = none) :
    s.served t = (s.pool.worker t).hits.length :=
  Nat.le_antisymm (kept.served t) (List.getElem?_eq_none_iff.mp none)

theorem read (kept : Kept engine junk empty s) (cast : LexicalCast) {t : Fin n}
    (none : s.inHand t = none) :
    Kept engine junk empty { s with pool := s.pool.step cast (.read t) } := by
  have served := kept.served_eq none
  rw [Pool.step]
  dsimp only
  split
  · split
    · exact kept.pool List.prefix_rfl (kept.behind t) fun _ => served
    · exact kept.pool List.prefix_rfl (kept.behind t) fun _ => served
  · exact kept

theorem parse (kept : Kept engine junk empty s) (cast : LexicalCast) (t : Fin n) (eof : Bool) :
    Kept engine junk empty { s with pool := s.pool.step cast (.parse t eof) } := by
  rw [Pool.step]
  split
  · rename_i line holding
    have served : s.served t = (s.pool.worker t).hits.length :=
      kept.settled t (by rw [holding]; exact Phase.noConfusion)
    rw [Reader.parse]
    split
    · exact kept.pool List.prefix_rfl (kept.behind t) fun _ => served
    · split
      · exact kept.pool List.prefix_rfl (kept.behind t) fun _ => served
      · split
        · exact kept.pool List.prefix_rfl (kept.behind t) fun _ => served
        · rename_i hit _
          apply kept.pool (List.prefix_append _ _)
          · rw [List.length_append, List.length_singleton, served]
          · exact fun away => absurd rfl away
  · exact kept

theorem serve (kept : Kept engine junk empty s) {t : Fin n} {hit : HitData}
    (given : s.inHand t = some hit) :
    Kept engine junk empty
      { s with
        stores := Function.update s.stores t (Harness.serve engine junk (s.stores t) hit)
        served := Function.update s.served t (s.served t + 1) } := by
  have inside : s.served t < (s.pool.worker t).hits.length :=
    (List.getElem?_eq_some_iff.mp given).1
  have stored := kept.stores t
  have next : (s.pool.worker t).hits.take (s.served t + 1) =
      (s.pool.worker t).hits.take (s.served t) ++ [hit] := by
    rw [inHand] at given
    rw [List.take_add_one, given, Option.toList_some]
  constructor
  · apply (Function.forall_update_iff s.stores fun t' store => store =
      run (Harness.serve engine junk) empty ((s.pool.worker t').hits.take
        (Function.update s.served t (s.served t + 1) t'))).mpr
    constructor
    · rw [Function.update_self, next, run_concat, stored]
    · intro t' other
      rw [Function.update_of_ne other, kept.stores t']
  · apply (Function.forall_update_iff s.served fun t' served =>
      served ≤ (s.pool.worker t').hits.length).mpr
    exact ⟨inside, fun t' _ => kept.served t'⟩
  · apply (Function.forall_update_iff s.served fun t' served =>
      (s.pool.worker t').hits.length ≤ served + 1).mpr
    exact ⟨(kept.behind t).trans (Nat.le_succ _), fun t' _ => kept.behind t'⟩
  · apply (Function.forall_update_iff s.served fun t' served =>
      (s.pool.worker t').phase ≠ .calling → served = (s.pool.worker t').hits.length).mpr
    constructor
    · exact fun away => absurd (kept.settled t away) inside.ne
    · exact fun t' _ => kept.settled t'

theorem step (kept : Kept engine junk empty s) (cast : LexicalCast) (label : FleetStep n) :
    Kept engine junk empty (s.step engine junk cast label) := by
  cases label with
  | read t =>
      rw [Fleet.step]
      split
      · rename_i none
        exact kept.read cast (Option.isNone_iff_eq_none.mp none)
      · exact kept
  | parse t eof => exact kept.parse cast t eof
  | serve t =>
      rw [Fleet.step]
      split
      · rename_i hit given
        exact kept.serve given
      · exact kept

end Kept

theorem accounts_step {engine : StorageEngine σ} {junk : UInt8} {cast : LexicalCast}
    {files : List (Option Bytes)} {s : Fleet σ n}
    (accounts : ∃ log, Accounts cast files s.pool log) (label : FleetStep n) :
    ∃ log, Accounts cast files (s.step engine junk cast label).pool log := by
  cases label with
  | read t =>
      rw [step]
      split
      · exact exists_accounts_step accounts (.read t)
      · exact accounts
  | parse t eof => exact exists_accounts_step accounts (.parse t eof)
  | serve t =>
      rw [step]
      split <;> exact accounts

end Fleet

open DwfileHitSource

/-- Whatever the order of the steps of threads that share a source and no store, each record
that was read went to one thread, and the store of the thread shows every visitor what
those of his hits left that it has served, which at its end are all that it was given. -/
theorem fleet_recalls (junk : UInt8) (cast : LexicalCast) (n requests : Nat)
    {files : List (Option Bytes)}
    (textual : ∀ content, some content ∈ files → Textual content)
    (comparable : ∀ a ∈ (allRecords files).filterMap (hitData cast),
      ∀ b ∈ (allRecords files).filterMap (hitData cast), a.id.AtMost b.id ∨ b.id.AtMost a.id)
    (labels : List (FleetStep n)) :
    let s := run (Fleet.step VCStoreInMemory.engine junk cast)
      (Fleet.start n requests files Ordered.SearchTree.nil) labels
    ∃ log : List (Fin n × List Bytes), Accounts cast files s.pool log ∧
      ∀ t, let own := (s.pool.worker t).hits
        own.length ≤ s.served t + 1 ∧
          ((s.pool.worker t).phase = .ended → s.served t = own.length) ∧
          ∀ id, Recalls ((own.take (s.served t)).filter fun hit => hit.id = id) id
            (VCookie.construct id false
              (VCStoreInMemory.loadVCookie (s.stores t) junk)) := by
  intro s
  have logged : ∃ log, Accounts cast files s.pool log :=
    @run_invariant _ _ (Fleet.step VCStoreInMemory.engine junk cast)
      (fun s => ∃ log, Accounts cast files s.pool log)
      (fun _ label accounts => Fleet.accounts_step accounts label) _
      ⟨[], accounts_start cast n requests files⟩ labels
  have kept : Fleet.Kept VCStoreInMemory.engine junk Ordered.SearchTree.nil s :=
    @run_invariant _ _ (Fleet.step VCStoreInMemory.engine junk cast)
      (Fleet.Kept VCStoreInMemory.engine junk Ordered.SearchTree.nil)
      (fun _ label kept => kept.step cast label) _
      (Fleet.kept_start _ junk _ n requests files) labels
  obtain ⟨log, accounts⟩ := logged
  refine ⟨log, accounts, fun t => ⟨kept.behind t, ?_, fun id => ?_⟩⟩
  · intro ended
    exact kept.settled t (by rw [ended]; exact Phase.noConfusion)
  · have fits : ∀ hit ∈ (s.pool.worker t).hits.take (s.served t), hit.Fits :=
      fun hit member => accounts.fits textual t hit (List.mem_of_mem_take member)
    have among : ∀ hit ∈ (s.pool.worker t).hits.take (s.served t),
        hit ∈ (allRecords files).filterMap (hitData cast) := fun hit member =>
      List.mem_filterMap.mpr (accounts.exists_record (List.mem_of_mem_take member))
    obtain ⟨found, served⟩ := served_inMemory junk fits fun a first b second =>
      comparable a (among a first) b (among b second)
    rw [kept.stores t]
    exact served.recalls id junk

/-- Two threads serve a hit each of one visitor, and neither store has both. -/
theorem fleet_recalls_plain :
    let s := run (Fleet.step VCStoreInMemory.engine 0 plainCast)
      (Fleet.start 2 1 [some plainLine, some plainLine] Ordered.SearchTree.nil)
      [.read 0, .parse 0 true, .read 1, .parse 1 true, .serve 1, .serve 0]
    ∀ t, (s.pool.worker t).hits.length ≤ s.served t + 1 ∧
      Recalls (((s.pool.worker t).hits.take (s.served t)).filter fun hit => hit.id = ⟨7, 1, 2⟩)
        ⟨7, 1, 2⟩ (VCookie.construct ⟨7, 1, 2⟩ false
          (VCStoreInMemory.loadVCookie (s.stores t) 0)) := by
  intro s t
  have textual : ∀ content, some content ∈ [some plainLine, some plainLine] →
      Textual content := by
    intro content member
    rcases List.mem_pair.mp member with same | same <;> cases same <;>
      apply Storable.textual <;> constructor <;> decide +kernel
  have comparable : ∀ a ∈ (allRecords [some plainLine, some plainLine]).filterMap
      (hitData plainCast), ∀ b ∈ (allRecords [some plainLine, some plainLine]).filterMap
        (hitData plainCast), a.id.AtMost b.id ∨ b.id.AtMost a.id := by
    have ids : ((allRecords [some plainLine, some plainLine]).filterMap
        (hitData plainCast)).map HitData.id = [⟨7, 1, 2⟩, ⟨7, 1, 2⟩] := by
      decide +kernel
    intro a first b second
    have first' := List.mem_map_of_mem (f := HitData.id) first
    have second' := List.mem_map_of_mem (f := HitData.id) second
    rw [ids] at first' second'
    simp only [List.mem_pair, or_self] at first' second'
    rw [first', second']
    exact Or.inl (VCookieId.AtMost.refl _)
  obtain ⟨-, -, visitors⟩ := fleet_recalls 0 plainCast 2 1 textual comparable
    [.read 0, .parse 0 true, .read 1, .parse 1 true, .serve 1, .serve 0]
  exact ⟨(visitors t).1, (visitors t).2.2 ⟨7, 1, 2⟩⟩

end Elevator.Harness
