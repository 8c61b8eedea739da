import Elevator.Harness.Replay
import Mathlib.Algebra.BigOperators.Fin
import Mathlib.Data.Fintype.BigOperators

/-!
# Threads that share a source

All the worker threads take their hits from one `dwfileHitSource`.  A call of `NextHit`
reads its line under a mutex and parses it without: the flag for the end of the file
that it tests then may be that of another thread's line, or of another file.  The order
of the critical sections is an order of the records, and every record goes to one
thread.  A file that cannot be opened ends the thread that comes to it and no other.
-/

namespace Elevator.Harness

open Wire Sequence Transition DwfileHitSource

/-! ## What is left in the source -/

namespace DwfileHitSource

/-- The records left in the file that is open. -/
def current (s : DwfileHitSource) : List (List Bytes) :=
  if s.isOpen && !s.eof then records s.unread else []

/-- The records left in all of the files. -/
def remaining (s : DwfileHitSource) : List (List Bytes) :=
  s.current ++ s.filenames.flatMap fileRecords

theorem sound_of_reads {s : DwfileHitSource} (sound : s.Sound) (reads : s.reads = true) :
    s.getline.2.Sound :=
  (pending_getline sound reads).1

/-- A line is taken off the file that is open. -/
theorem current_getline {s : DwfileHitSource} (reads : s.reads = true) :
    s.getline.2.filenames = s.filenames ∧
      s.current = taken s.getline.1 ++ s.getline.2.current := by
  rcases s with ⟨isOpen, eof, fail, unread, filenames⟩
  simp only [DwfileHitSource.reads, good, Bool.and_eq_true, Bool.not_eq_true'] at reads
  obtain ⟨⟨rfl, rfl, rfl⟩, _⟩ := reads
  have empty : taken [] = [] := by decide
  rw [getline, current]
  dsimp only
  rw [records_eq]
  rcases nextLine 10 unread with ⟨line, _ | rest⟩
  · by_cases nothing : line = [] <;> simp [current, nothing, empty]
  · simp [current]

/-- How a stream becomes ready, or does not. -/
inductive Readied (s : DwfileHitSource) : Prop
  | same (reads : s.ready.reads = true) (same : s.ready = s)
  | opened (reads : s.ready.reads = true) (content : Bytes) (nothing : s.current = [])
      (next : s.filenames = some content :: s.ready.filenames)
      (current : s.ready.current = records content)
  | unreadable (blocked : s.ready.reads = false) (nothing : s.current = [])
      (next : s.filenames = none :: s.ready.filenames) (current : s.ready.current = [])
  | exhausted (blocked : s.ready.reads = false) (nothing : s.current = [])
      (none : s.filenames = []) (same : s.ready.filenames = []) (current : s.ready.current = [])

theorem readied {s : DwfileHitSource} (sound : s.Sound) : s.ready.Sound ∧ s.Readied := by
  by_cases opened : (s.isOpen && !s.eof) = true
  · obtain ⟨isOpen, before⟩ := Bool.and_eq_true_iff.mp opened
    rw [Bool.not_eq_true'] at before
    have same : s.ready = s := by simp [ready, isOpen, before]
    have reads : s.reads = true := by
      simp [DwfileHitSource.reads, good, isOpen, before, sound isOpen before]
    rw [same]
    exact ⟨sound, .same (same.symm ▸ reads) same⟩
  · have next : s.ready = s.openNextFile := by
      rw [ready, if_pos]
      cases isOpen : s.isOpen <;> cases atEnd : s.eof <;> simp_all
    have nothing : s.current = [] := if_neg opened
    rcases files : s.filenames with _ | ⟨_ | content, rest⟩
    · have after : s.openNextFile = { s with isOpen := false } := by rw [openNextFile, files]
      constructor
      · rw [next, after]
        exact fun opened => (Bool.false_ne_true opened).elim
      · apply Readied.exhausted _ nothing files <;> rw [next, after]
        · exact files
        · rfl
        · rfl
    · have after : s.openNextFile =
          { s with isOpen := false, fail := true, filenames := rest } := by
        rw [openNextFile, files]
      constructor
      · rw [next, after]
        exact fun opened => (Bool.false_ne_true opened).elim
      · apply Readied.unreadable _ nothing <;> rw [next, after]
        · exact files
        · rfl
        · rfl
    · have after : s.openNextFile = ⟨true, false, false, content, rest⟩ := by
        rw [openNextFile, files]
      constructor
      · rw [next, after]
        exact fun _ _ => rfl
      · apply Readied.opened _ content nothing <;> rw [next, after]
        · exact files
        · rfl
        · rfl

theorem remaining_ready {s : DwfileHitSource} (sound : s.Sound) :
    s.ready.remaining = s.remaining := by
  rw [remaining, remaining]
  cases (readied sound).2 with
  | same reads same => rw [same]
  | opened reads content nothing next current =>
      rw [nothing, next, current]
      rfl
  | unreadable blocked nothing next current =>
      rw [nothing, next, current]
      rfl
  | exhausted blocked nothing none same current => rw [nothing, none, same, current]

theorem remaining_getline {s : DwfileHitSource} (reads : s.reads = true) :
    s.remaining = taken s.getline.1 ++ s.getline.2.remaining := by
  obtain ⟨files, current⟩ := current_getline reads
  rw [remaining, remaining, files, current, List.append_assoc]

end DwfileHitSource

/-! ## Threads -/

/-- Where a thread stands in its loop: about to call `NextHit` or in a call that begins
again, behind the critical section with a line, or out of the loop. -/
inductive Phase
  | calling
  | holding (line : Bytes)
  | ended
  | threw
  deriving DecidableEq

/-- A thread with the requests left to it and the hits it was given. -/
structure Reader where
  phase : Phase
  requests : Nat
  hits : List HitData

/-- `NextHit` behind the critical section, where the end of the file is seen or not. -/
def Reader.parse (cast : LexicalCast) (w : Reader) (line : Bytes) (eof : Bool) : Reader :=
  if eof && line.length = 0 then
    { w with phase := .calling }
  else if (split line).length ≠ fieldCount then
    { w with phase := .calling }
  else
    match hitData cast (split line) with
    | none => { w with phase := .threw }
    | some hit => ⟨.calling, w.requests - 1, w.hits ++ [hit]⟩

/-- The source and the threads that share it. -/
structure Pool (n : Nat) where
  source : DwfileHitSource
  worker : Fin n → Reader

/-- A critical section, and the rest of a call up to the next one. -/
inductive PoolStep (n : Nat)
  | read (t : Fin n)
  | parse (t : Fin n) (eof : Bool)

namespace Pool

variable {n : Nat}

/-- Threads about to begin. -/
def start (n requests : Nat) (files : List (Option Bytes)) : Pool n where
  source := construct files
  worker _ := ⟨.calling, requests, []⟩

def step (cast : LexicalCast) (s : Pool n) : PoolStep n → Pool n
  | .read t =>
      let w := s.worker t
      if w.phase = .calling ∧ w.requests ≠ 0 then
        if s.source.ready.reads then
          let read := s.source.ready.getline
          { source := read.2
            worker := Function.update s.worker t { w with phase := .holding read.1 } }
        else
          { source := s.source.ready
            worker := Function.update s.worker t { w with phase := .ended } }
      else
        s
  | .parse t eof =>
      match (s.worker t).phase with
      | .holding line =>
          { s with worker := Function.update s.worker t ((s.worker t).parse cast line eof) }
      | _ => s

end Pool

/-! ## The order of the records -/

/-- What becomes of the records that a thread took. -/
def Reader.results (cast : LexicalCast) (w : Reader) : List (Option HitData) :=
  w.hits.map some ++
    match w.phase with
    | .holding line => (taken line).map (hitData cast)
    | .threw => [none]
    | _ => []

/-- Behind the critical section the test for the end of the file does not matter. -/
theorem Reader.results_parse (cast : LexicalCast) {w : Reader} {line : Bytes}
    (holding : w.phase = .holding line) (eof : Bool) :
    (w.parse cast line eof).results cast = w.results cast := by
  have inHand : w.results cast = w.hits.map some ++ (taken line).map (hitData cast) := by
    rw [Reader.results, holding]
  rw [inHand, Reader.parse]
  have empty : line.length = 0 → taken line = [] := by
    intro nothing
    rw [List.length_eq_zero_iff.mp nothing]
    decide
  split
  · rename_i atEnd
    rw [empty (by simpa using (Bool.and_eq_true_iff.mp atEnd).2)]
    rfl
  · split
    · rename_i malformed
      rw [taken, if_neg malformed]
      rfl
    · rename_i wellFormed
      rw [taken, if_pos (not_not.mp wellFormed)]
      cases converted : hitData cast (split line) with
      | none => simp [Reader.results, converted]
      | some hit => simp [Reader.results, converted]

theorem Reader.phase_parse (cast : LexicalCast) (w : Reader) (line : Bytes) (eof : Bool) :
    (w.parse cast line eof).phase ≠ .ended := by
  rw [Reader.parse]
  split
  · simp
  · split
    · simp
    · split <;> simp

/-- The records that `n` threads read: a file that cannot be opened takes one of them. -/
def reach : Nat → List (Option Bytes) → List (List Bytes)
  | 0, _ => []
  | _ + 1, [] => []
  | n + 1, none :: files => reach n files
  | n + 1, some content :: files => records content ++ reach (n + 1) files

theorem reach_nil (n : Nat) : reach n [] = [] := by
  cases n <;> rfl

/-- A single thread reads up to the first file that cannot be opened. -/
theorem reach_one (files : List (Option Bytes)) : reach 1 files = (construct files).pending := by
  induction files with
  | nil => rfl
  | cons file files ih =>
      cases file with
      | none => rw [reach, reach]; rfl
      | some content => exact congrArg (records content ++ ·) ih

/-- As many threads as there are files, and one, read all of them. -/
theorem reach_of_count_lt {n : Nat} {files : List (Option Bytes)}
    (few : files.count none < n) : reach n files = allRecords files := by
  induction files generalizing n with
  | nil => exact reach_nil n
  | cons file files ih =>
      cases n with
      | zero => contradiction
      | succ n =>
          cases file with
          | none =>
              rw [List.count_cons_self] at few
              exact ih (Nat.lt_of_succ_lt_succ few)
          | some content =>
              rw [List.count_cons_of_ne (by simp)] at few
              exact congrArg (records content ++ ·) (ih few)

/-- The threads whose last call, if any, has not returned false. -/
def unended {n : Nat} (worker : Fin n → Reader) : Nat :=
  (Finset.univ.filter fun t => (worker t).phase ≠ .ended).card

theorem unended_pos {n : Nat} {worker : Fin n → Reader} {t : Fin n}
    (going : (worker t).phase ≠ .ended) : 0 < unended worker :=
  Finset.card_pos.mpr ⟨t, Finset.mem_filter.mpr ⟨Finset.mem_univ t, going⟩⟩

theorem unended_update {n : Nat} {worker : Fin n → Reader} {t : Fin n} {w : Reader}
    (before : (worker t).phase ≠ .ended) (after : w.phase ≠ .ended) :
    unended (Function.update worker t w) = unended worker := by
  rw [unended, unended]
  congr 1
  apply Finset.filter_congr
  intro t' _
  by_cases own : t' = t
  · rw [own, Function.update_self]
    exact iff_of_true after before
  · rw [Function.update_of_ne own]

theorem unended_end {n : Nat} {worker : Fin n → Reader} {t : Fin n} {w : Reader}
    (before : (worker t).phase ≠ .ended) (after : w.phase = .ended) :
    unended worker = unended (Function.update worker t w) + 1 := by
  have split : (Finset.univ.filter fun t => (worker t).phase ≠ .ended) =
      insert t (Finset.univ.filter fun t' => (Function.update worker t w t').phase ≠ .ended) := by
    ext t'
    by_cases own : t' = t
    · simp [own, before]
    · simp [own]
  rw [unended, split, Finset.card_insert_of_notMem (by simp [after])]
  rfl

/-- The records in the order of the critical sections, each with the thread that took
it. -/
structure Accounts {n : Nat} (cast : LexicalCast) (files : List (Option Bytes)) (s : Pool n)
    (log : List (Fin n × List Bytes)) : Prop where
  sound : s.source.Sound
  order : log.map Prod.snd ++ s.source.remaining = allRecords files
  own : ∀ t, (log.filter fun entry => entry.1 = t).map (fun entry => hitData cast entry.2) =
    (s.worker t).results cast
  reached : log.map Prod.snd ++
    (s.source.current ++ reach (unended s.worker) s.source.filenames) = reach n files
  closed : unended s.worker = 0 → s.source.current = []

namespace Accounts

variable {n : Nat} {cast : LexicalCast} {files : List (Option Bytes)} {s : Pool n}
  {log : List (Fin n × List Bytes)}

/-- Replacing a thread by one with the same results. -/
theorem own_update (accounts : Accounts cast files s log) {t : Fin n} {w : Reader}
    (same : w.results cast = (s.worker t).results cast) (t' : Fin n) :
    (log.filter fun entry => entry.1 = t').map (fun entry => hitData cast entry.2) =
      (Function.update s.worker t w t').results cast := by
  by_cases own : t' = t
  · rw [own, Function.update_self, same, accounts.own]
  · rw [Function.update_of_ne own, accounts.own]

/-- What a thread reads is put down to it. -/
theorem own_read (accounts : Accounts cast files s log) {t : Fin n}
    (calling : (s.worker t).phase = .calling) (line : Bytes) (t' : Fin n) :
    ((log ++ (taken line).map (t, ·)).filter fun entry => entry.1 = t').map
        (fun entry => hitData cast entry.2) =
      (Function.update s.worker t { s.worker t with phase := .holding line } t').results cast := by
  have before := accounts.own t'
  rw [List.filter_append, List.map_append, before]
  by_cases own : t' = t
  · subst own
    rw [Function.update_self]
    have none : (s.worker t').results cast = (s.worker t').hits.map some := by
      rw [Reader.results, calling, List.append_nil]
    rw [none, Reader.results, List.filter_eq_self.mpr (by simp), List.map_map]
    rfl
  · have others : ∀ entry ∈ (taken line).map (t, ·), ¬ entry.1 = t' := by
      simpa using fun _ _ => Ne.symm own
    rw [Function.update_of_ne own, List.filter_eq_nil_iff.mpr (by simpa using others),
      List.map_nil, List.append_nil]

theorem read (accounts : Accounts cast files s log) {t : Fin n}
    (calling : (s.worker t).phase = .calling) (reads : s.source.ready.reads = true) :
    Accounts cast files
      { source := s.source.ready.getline.2
        worker := Function.update s.worker t
          { s.worker t with phase := .holding s.source.ready.getline.1 } }
      (log ++ (taken s.source.ready.getline.1).map (t, ·)) where
  sound := sound_of_reads (readied accounts.sound).1 reads
  order := by
    have order := accounts.order
    rw [← remaining_ready accounts.sound, remaining_getline reads] at order
    rw [List.map_append, List.map_map, List.append_assoc, ← order]
    exact congrArg (fun own => log.map Prod.snd ++ (own ++ _)) (List.map_id _)
  own := accounts.own_read calling _
  reached := by
    have going : (s.worker t).phase ≠ .ended := by simp [calling]
    have reached := accounts.reached
    have ahead : s.source.ready.current ++ reach (unended s.worker) s.source.ready.filenames =
        s.source.current ++ reach (unended s.worker) s.source.filenames := by
      obtain ⟨others, some⟩ := Nat.exists_eq_add_one.mpr (unended_pos going)
      cases (readied accounts.sound).2 with
      | same reads same => rw [same]
      | opened reads content nothing next current =>
          rw [nothing, next, current, some, reach, List.nil_append]
      | unreadable blocked => exact absurd reads (blocked ▸ Bool.false_ne_true)
      | exhausted blocked => exact absurd reads (blocked ▸ Bool.false_ne_true)
    obtain ⟨files, current⟩ := current_getline reads
    rw [← ahead, current, List.append_assoc] at reached
    rw [unended_update going (by simp), List.map_append, List.map_map, List.append_assoc, files,
      ← reached]
    exact congrArg (fun own => log.map Prod.snd ++ (own ++ _)) (List.map_id _)
  closed none := by
    have going : (s.worker t).phase ≠ .ended := by simp [calling]
    have same := @unended_update n s.worker t
      { s.worker t with phase := .holding s.source.ready.getline.1 } going (by simp)
    exact absurd (same.symm.trans none) (unended_pos going).ne'

theorem ended (accounts : Accounts cast files s log) {t : Fin n}
    (calling : (s.worker t).phase = .calling) (blocked : ¬ s.source.ready.reads = true) :
    Accounts cast files
      { source := s.source.ready
        worker := Function.update s.worker t { s.worker t with phase := .ended } } log where
  sound := (readied accounts.sound).1
  order := (congrArg (log.map Prod.snd ++ ·) (remaining_ready accounts.sound)).trans accounts.order
  own := accounts.own_update (by rw [Reader.results, Reader.results, calling])
  reached := by
    have one := @unended_end n s.worker t { s.worker t with phase := .ended }
      (by simp [calling]) rfl
    have reached := accounts.reached
    rw [one] at reached
    rw [← reached]
    cases (readied accounts.sound).2 with
    | same reads => exact absurd reads blocked
    | opened reads => exact absurd reads blocked
    | unreadable blocked nothing next current => rw [nothing, next, current, reach]
    | exhausted blocked nothing none same current =>
        rw [nothing, none, same, current, reach_nil, reach_nil]
  closed _ := by
    cases (readied accounts.sound).2 with
    | same reads => exact absurd reads blocked
    | opened reads => exact absurd reads blocked
    | unreadable blocked nothing next current => exact current
    | exhausted blocked nothing none same current => exact current

theorem parse (accounts : Accounts cast files s log) {t : Fin n} {line : Bytes}
    (holding : (s.worker t).phase = .holding line) (eof : Bool) :
    Accounts cast files
      { s with worker := Function.update s.worker t ((s.worker t).parse cast line eof) } log where
  sound := accounts.sound
  order := accounts.order
  own := accounts.own_update (Reader.results_parse cast holding eof)
  reached := by
    have going : (s.worker t).phase ≠ .ended := by simp [holding]
    rw [unended_update going (Reader.phase_parse cast (s.worker t) line eof)]
    exact accounts.reached
  closed none := by
    have going : (s.worker t).phase ≠ .ended := by simp [holding]
    rw [unended_update going (Reader.phase_parse cast (s.worker t) line eof)] at none
    exact accounts.closed none

/-- A step adds to the log what it reads. -/
theorem step (accounts : Accounts cast files s log) (label : PoolStep n) :
    ∃ new, Accounts cast files (s.step cast label) (log ++ new) := by
  cases label with
  | read t =>
      rw [Pool.step]
      dsimp only
      split
      · rename_i enabled
        split
        · rename_i reads
          exact ⟨_, accounts.read enabled.1 reads⟩
        · rename_i blocked
          refine ⟨[], ?_⟩
          rw [List.append_nil]
          exact accounts.ended enabled.1 blocked
      · exact ⟨[], (List.append_nil log).symm ▸ accounts⟩
  | parse t eof =>
      refine ⟨[], ?_⟩
      rw [List.append_nil, Pool.step]
      split
      · rename_i line holding
        exact accounts.parse holding eof
      · exact accounts

end Accounts

theorem accounts_start (cast : LexicalCast) (n requests : Nat) (files : List (Option Bytes)) :
    Accounts cast files (Pool.start n requests files) [] where
  sound opened := (Bool.false_ne_true opened).elim
  order := rfl
  own _ := rfl
  reached := by
    have all : unended (Pool.start n requests files).worker = n := by
      simp [unended, Pool.start]
    rw [all]
    rfl
  closed _ := rfl

theorem exists_accounts_step {cast : LexicalCast} {files : List (Option Bytes)} {n : Nat}
    {s : Pool n} (accounts : ∃ log, Accounts cast files s log) (label : PoolStep n) :
    ∃ log, Accounts cast files (s.step cast label) log := by
  obtain ⟨log, accounts⟩ := accounts
  obtain ⟨new, after⟩ := accounts.step label
  exact ⟨_, after⟩

/-- A pool that can be accounted for stays so along every run. -/
theorem exists_accounts_run {cast : LexicalCast} {files : List (Option Bytes)} {n : Nat}
    {s : Pool n} (accounts : ∃ log, Accounts cast files s log) (steps : List (PoolStep n)) :
    ∃ log, Accounts cast files (run (Pool.step cast) s steps) log :=
  @run_invariant _ _ (Pool.step cast) (fun s => ∃ log, Accounts cast files s log)
    (fun _ label accounts => exists_accounts_step accounts label) s accounts steps

/-- Whatever the order of the steps, the records that have been read are the first ones of
all the files, each of them went to one thread, and each thread was given the hits of its
records in their order but for the one it holds. -/
theorem accounts_run (cast : LexicalCast) (n requests : Nat) (files : List (Option Bytes))
    (steps : List (PoolStep n)) :
    ∃ log, Accounts cast files (run (Pool.step cast) (Pool.start n requests files) steps) log :=
  exists_accounts_run ⟨[], accounts_start cast n requests files⟩ steps

/-! ## The end of a run -/

/-- How many steps a thread can take before it reads again. -/
def Phase.weight : Phase → Nat
  | .calling => 1
  | .holding _ => 2
  | .ended => 0
  | .threw => 0

namespace Pool

variable {n : Nat}

/-- What is left to do. -/
def measure (s : Pool n) : Nat :=
  3 * s.source.budget + ∑ t, (s.worker t).phase.weight

end Pool

/-- A thread after a call of `NextHit`. -/
def Reader.returned (w : Reader) : Returned → Reader
  | .hit hit => ⟨.calling, w.requests - 1, w.hits ++ [hit]⟩
  | .ended => { w with phase := .ended }
  | .threw => { w with phase := .threw }

/-- A call of `NextHit` is a run of the steps of one thread. -/
theorem exists_run_nextHit {n : Nat} (cast : LexicalCast) (s : Pool n) {t : Fin n}
    (calling : (s.worker t).phase = .calling) (some : (s.worker t).requests ≠ 0) :
    ∃ steps, run (Pool.step cast) s steps =
      ⟨(nextHit cast s.source).2,
        Function.update s.worker t ((s.worker t).returned (nextHit cast s.source).1)⟩ := by
  rcases s with ⟨source, worker⟩
  dsimp only at calling some ⊢
  have again : Function.update worker t { worker t with phase := .calling } = worker := by
    rw [← calling]
    exact Function.update_eq_self t worker
  have read (source : DwfileHitSource) (reads : source.ready.reads = true) :
      Pool.step cast ⟨source, worker⟩ (.read t) =
        ⟨source.ready.getline.2, Function.update worker t
          { worker t with phase := .holding source.ready.getline.1 }⟩ := by
    rw [Pool.step]
    dsimp only
    rw [if_pos ⟨calling, some⟩, if_pos reads]
  have parse (source : DwfileHitSource) (line : Bytes) (eof : Bool) :
      Pool.step cast ⟨source, Function.update worker t { worker t with phase := .holding line }⟩
          (.parse t eof) =
        ⟨source, Function.update worker t ((worker t).parse cast line eof)⟩ := by
    simp only [Pool.step, Function.update_self, Function.update_idem]
    rfl
  fun_induction nextHit cast source with
  | case1 source reads line after empty ih =>
      obtain ⟨steps, same⟩ := ih
      refine ⟨.read t :: .parse t after.eof :: steps, ?_⟩
      rw [run_cons, run_cons, read source reads, parse, Reader.parse, if_pos empty, again, same]
  | case2 source reads line after some malformed ih =>
      obtain ⟨steps, same⟩ := ih
      refine ⟨.read t :: .parse t after.eof :: steps, ?_⟩
      rw [run_cons, run_cons, read source reads, parse, Reader.parse, if_neg some,
        if_pos malformed, again, same]
  | case3 source reads line after some wellFormed threw =>
      refine ⟨[.read t, .parse t after.eof], ?_⟩
      rw [run_cons, run_cons, run_nil, read source reads, parse, Reader.parse, if_neg some,
        if_neg wellFormed, threw]
      rfl
  | case4 source reads line after some wellFormed hit converted =>
      refine ⟨[.read t, .parse t after.eof], ?_⟩
      rw [run_cons, run_cons, run_nil, read source reads, parse, Reader.parse, if_neg some,
        if_neg wellFormed, converted]
      rfl
  | case5 source blocked =>
      refine ⟨[.read t], ?_⟩
      rw [run_cons, run_nil, Pool.step]
      dsimp only
      rw [if_pos ⟨calling, some⟩, if_neg blocked]
      rfl

end Elevator.Harness
