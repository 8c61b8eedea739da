import Elevator.Harness.Sessions
import Elevator.Harness.Threads

/-!
# The harness over a shared bucket

The threads take their hits from one source and keep their cookies in one bucket.  A
thread reads a record, parses it, constructs the cookie of the hit and changes it, and
stores the cookie before it reads on.  In every interleaving the cookie that a visitor
finds comes from hits of his user that were stored, each of them once, and of those that
one thread stored in the order in which the thread was given them.
-/

namespace Elevator.Harness

open Wire Transition VCookie VCookieStore

/-- The source, the bucket, and how many of its hits each thread has stored. -/
structure System (σ : Type) (n : Nat) where
  pool : Pool n
  workers : Workers σ (Fin n)
  stored : Fin n → Nat

inductive SystemStep (n : Nat)
  | read (t : Fin n)
  | parse (t : Fin n) (eof : Bool)
  | load (t : Fin n)
  | save (t : Fin n)

namespace System

variable {σ κ : Type} [DecidableEq κ] {n : Nat}

def start (n requests : Nat) (files : List (Option Bytes)) (empty : σ) : System σ n where
  pool := Pool.start n requests files
  workers := Workers.start (Fin n) empty
  stored _ := 0

/-- The hit that a thread has in hand. -/
def inHand (s : System σ n) (t : Fin n) : Option HitData :=
  (s.pool.worker t).hits[s.stored t]?

/-- A thread that has a hit in hand does not read on. -/
def step (engine : StorageEngine σ) (junk : UInt8) (cast : LexicalCast) (s : System σ n) :
    SystemStep n → System σ n
  | .read t =>
      if (s.inHand t).isNone then { s with pool := s.pool.step cast (.read t) } else s
  | .parse t eof => { s with pool := s.pool.step cast (.parse t eof) }
  | .load t =>
      match s.inHand t, s.workers.cookies t with
      | some hit, none => { s with workers := s.workers.step engine junk (.load t hit) }
      | _, _ => s
  | .save t =>
      match s.workers.cookies t with
      | some _ =>
          { s with
            workers := s.workers.step engine junk (.save t)
            stored := Function.update s.stored t (s.stored t + 1) }
      | none => s

/-! ## What the threads were given -/

/-- A thread keeps the hits it was given. -/
theorem hits_poolStep (cast : LexicalCast) (s : Pool n) (label : PoolStep n) (t : Fin n) :
    (s.worker t).hits <+: ((s.step cast label).worker t).hits := by
  cases label with
  | read t' =>
      rw [Pool.step]
      dsimp only
      split
      · split <;>
        · dsimp only
          by_cases own : t = t'
          · rw [own, Function.update_self]
          · rw [Function.update_of_ne own]
      · exact List.prefix_rfl
  | parse t' eof =>
      rw [Pool.step]
      split
      · dsimp only
        by_cases own : t = t'
        · rw [own, Function.update_self, Reader.parse]
          split
          · exact List.prefix_rfl
          · split
            · exact List.prefix_rfl
            · split
              · exact List.prefix_rfl
              · exact List.prefix_append _ _
        · rw [Function.update_of_ne own]
      · exact List.prefix_rfl

/-- The sessions that the threads have had: which cookies were constructed and stored,
and the hits stored with the threads that stored them. -/
structure Accounted (engine : StorageEngine σ) (junk : UInt8) (key : HitData → κ) (empty : σ)
    (s : System σ n) (trace : List (SessionStep (Fin n) HitData))
    (saved : List (Fin n × HitData)) : Prop where
  workers : s.workers = run (Workers.step engine junk) (Workers.start (Fin n) empty) trace
  given : ∀ t hit, .load t hit ∈ trace → hit ∈ (s.pool.worker t).hits
  paired : ∀ t, (s.workers.cookies t).isSome =
    ((run (Ledger.step key) (Ledger.blank (Fin n) κ HitData) trace).copies t).isSome
  copied : ∀ t copy,
    (run (Ledger.step key) (Ledger.blank (Fin n) κ HitData) trace).copies t = some copy →
      s.inHand t = some copy.update
  saves : ∀ cell, (run (Ledger.step key) (Ledger.blank (Fin n) κ HitData) trace).saves cell =
    (saved.map Prod.snd).filter fun hit => key hit = cell
  order : ∀ t, (saved.filter fun entry => entry.1 = t).map Prod.snd =
    (s.pool.worker t).hits.take (s.stored t)
  stored : ∀ t, s.stored t ≤ (s.pool.worker t).hits.length

namespace Accounted

variable {engine : StorageEngine σ} {junk : UInt8} {key : HitData → κ} {empty : σ}
  {s : System σ n} {trace : List (SessionStep (Fin n) HitData)} {saved : List (Fin n × HitData)}

/-- A step of the source. -/
theorem pool (accounted : Accounted engine junk key empty s trace saved) (cast : LexicalCast)
    (label : PoolStep n) :
    Accounted engine junk key empty { s with pool := s.pool.step cast label } trace saved := by
  have grown := hits_poolStep cast s.pool label
  constructor
  · exact accounted.workers
  · intro t hit loaded
    exact (grown t).subset (accounted.given t hit loaded)
  · exact accounted.paired
  · intro t copy held
    have given := accounted.copied t copy held
    rcases grown t with ⟨later, same⟩
    rcases List.getElem?_eq_some_iff.mp given with ⟨inside, _⟩
    rw [inHand, ← same, List.getElem?_append_left inside]
    exact given
  · exact accounted.saves
  · intro t
    rcases grown t with ⟨later, same⟩
    rw [accounted.order t, ← same, List.take_append_of_le_length (accounted.stored t)]
  · intro t
    exact (accounted.stored t).trans (grown t).length_le

/-- A cookie is constructed. -/
theorem load (accounted : Accounted engine junk key empty s trace saved) {t : Fin n}
    {hit : HitData} (given : s.inHand t = some hit) :
    Accounted engine junk key empty
      { s with workers := s.workers.step engine junk (.load t hit) }
      (trace ++ [.load t hit]) saved := by
  constructor
  · rw [run_concat, ← accounted.workers]
  · intro t' hit' member
    rcases List.mem_append.mp member with earlier | last
    · exact accounted.given t' hit' earlier
    · cases List.mem_singleton.mp last
      exact List.mem_of_getElem? given
  · intro t'
    rw [run_concat, Workers.step, Ledger.step]
    dsimp only
    by_cases own : t' = t
    · rw [own, Function.update_self, Function.update_self]
      rfl
    · rw [Function.update_of_ne own, Function.update_of_ne own]
      exact accounted.paired t'
  · rw [run_concat, Ledger.step]
    apply Ledger.forall_copies_update fun t' copy _ held => accounted.copied t' copy held
    rintro copy ⟨⟩
    exact given
  · rw [run_concat]
    exact accounted.saves
  · exact accounted.order
  · exact accounted.stored

/-- A cookie is stored. -/
theorem save (accounted : Accounted engine junk key empty s trace saved) {t : Fin n}
    (held : (s.workers.cookies t).isSome) :
    ∃ hit, Accounted engine junk key empty
      { s with
        workers := s.workers.step engine junk (.save t)
        stored := Function.update s.stored t (s.stored t + 1) }
      (trace ++ [.save t]) (saved ++ [(t, hit)]) := by
  rcases Option.isSome_iff_exists.mp held with ⟨cookie, own⟩
  rw [accounted.paired t] at held
  rcases Option.isSome_iff_exists.mp held with ⟨copy, copied⟩
  have given := accounted.copied t copy copied
  refine ⟨copy.update, ?_⟩
  constructor
  · rw [run_concat, ← accounted.workers]
  · intro t' hit member
    rcases List.mem_append.mp member with earlier | last
    · exact accounted.given t' hit earlier
    · cases List.mem_singleton.mp last
  · intro t'
    rw [run_concat, Ledger.step_save copied, Workers.step, own]
    dsimp only
    by_cases same : t' = t
    · rw [same, Function.update_self, Function.update_self]
      rfl
    · rw [Function.update_of_ne same, Function.update_of_ne same]
      exact accounted.paired t'
  · rw [run_concat, Ledger.step_save copied]
    apply Ledger.forall_copies_update
    · intro t' c other before
      rw [inHand]
      dsimp only
      rw [Function.update_of_ne other]
      exact accounted.copied t' c before
    · intro c none
      cases none
  · intro cell
    rw [run_concat, Ledger.step_save copied, List.map_append, List.filter_append]
    dsimp only
    by_cases same : cell = key copy.update
    · rw [same, Function.update_self, accounted.saves]
      simp
    · rw [Function.update_of_ne same, accounted.saves]
      simp [Ne.symm same]
  · intro t'
    dsimp only
    rw [List.filter_append, List.map_append, accounted.order]
    by_cases same : t' = t
    · rw [same, Function.update_self, List.take_add_one]
      rw [inHand] at given
      simp [given]
    · rw [Function.update_of_ne same]
      simp [Ne.symm same]
  · intro t'
    dsimp only
    by_cases same : t' = t
    · rw [same, Function.update_self]
      exact (List.getElem?_eq_some_iff.mp given).1
    · rw [Function.update_of_ne same]
      exact accounted.stored t'

/-- Every step of the threads. -/
theorem step (accounted : Accounted engine junk key empty s trace saved) (cast : LexicalCast)
    (label : SystemStep n) :
    ∃ trace saved, Accounted engine junk key empty (s.step engine junk cast label) trace saved := by
  cases label with
  | read t =>
      rw [System.step]
      split
      · exact ⟨trace, saved, accounted.pool cast (.read t)⟩
      · exact ⟨trace, saved, accounted⟩
  | parse t eof => exact ⟨trace, saved, accounted.pool cast (.parse t eof)⟩
  | load t =>
      rw [System.step]
      split
      · rename_i hit given _
        exact ⟨_, saved, accounted.load given⟩
      · exact ⟨trace, saved, accounted⟩
  | save t =>
      rw [System.step]
      split
      · rename_i cookie own
        rcases accounted.save (own ▸ rfl : (s.workers.cookies t).isSome) with ⟨hit, after⟩
        exact ⟨_, _, after⟩
      · exact ⟨trace, saved, accounted⟩

end Accounted

/-- The source of a harness is that of threads alone. -/
theorem accounts_step {engine : StorageEngine σ} {junk : UInt8} {cast : LexicalCast}
    {files : List (Option Bytes)} {s : System σ n}
    (accounts : ∃ log, Accounts cast files s.pool log) (label : SystemStep n) :
    ∃ log, Accounts cast files (s.step engine junk cast label).pool log := by
  have pool : ∀ step, ∃ log, Accounts cast files (s.pool.step cast step) log := fun step => by
    exact exists_accounts_step accounts step
  cases label with
  | read t =>
      rw [step]
      split
      · exact pool (.read t)
      · exact accounts
  | parse t eof => exact pool (.parse t eof)
  | load t =>
      rw [step]
      split <;> exact accounts
  | save t =>
      rw [step]
      split <;> exact accounts

end System

/-- The hits that a thread was given come from records of the files. -/
theorem Accounts.exists_record {n : Nat} {cast : LexicalCast} {files : List (Option Bytes)}
    {s : Pool n} {log : List (Fin n × List Bytes)} (accounts : Accounts cast files s log)
    {t : Fin n} {hit : HitData} (given : hit ∈ (s.worker t).hits) :
    ∃ record ∈ allRecords files, hitData cast record = some hit := by
  have among : some hit ∈ (s.worker t).results cast :=
    List.mem_append_left _ (List.mem_map_of_mem given)
  rw [← accounts.own t] at among
  rcases List.mem_map.mp among with ⟨entry, logged, converted⟩
  have record : entry.2 ∈ allRecords files := by
    rw [← accounts.order]
    exact List.mem_append_left _ (List.mem_map_of_mem (List.mem_of_mem_filter logged))
  exact ⟨entry.2, record, converted⟩

/-- The hits of textual files fit. -/
theorem Accounts.fits {n : Nat} {cast : LexicalCast} {files : List (Option Bytes)} {s : Pool n}
    {log : List (Fin n × List Bytes)} (accounts : Accounts cast files s log)
    (textual : ∀ content, some content ∈ files → Textual content) (t : Fin n) :
    ∀ hit ∈ (s.worker t).hits, hit.Fits := by
  intro hit given
  rcases accounts.exists_record given with ⟨record, among, converted⟩
  exact fits_hitData (storable_of_mem_allRecords textual among) converted

open DwfileHitSource

end Elevator.Harness
