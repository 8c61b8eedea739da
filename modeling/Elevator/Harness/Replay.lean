import Elevator.Harness.EvarLoop
import Elevator.Sequence.Lines
import Mathlib.Algebra.Order.Group.Nat
import Mathlib.Data.UInt

/-!
# Reading replay files

`dwfileHitSource` hands out the hits of a list of files one by one.  The state of its
stream is kept with the flags that the reader tests.  A file that cannot be opened
leaves the stream closed, and a closed stream ends the replay, so what stands behind
such a file is not read.
-/

namespace Elevator.Harness

open Wire Sequence

/-! ## Fields -/

/-- The fields of a line, in order. -/
def fieldNames : List String :=
  ["userid", "visid_new", "visid_type", "post_visid_high", "post_visid_low", "hit_time_gmt",
    "visit_num", "post_referrer", "post_page_url", "post_pagename", "last_purchase_time_gmt",
    "post_purchaseid", "post_campaign"] ++
    (List.range 75).map fun i => "post_evar" ++ toString (i + 1)

def fieldCount : Nat :=
  fieldNames.length

/-- The field of a line under a name. -/
def field (fields : List Bytes) (name : String) : Bytes :=
  fields.getD (fieldNames.idxOf name) []

/-- A slash twice and a tab become a blank. -/
def escapedLine : Bytes → Bytes
  | 92 :: 92 :: 9 :: rest => 32 :: escapedLine rest
  | byte :: rest => byte :: escapedLine rest
  | [] => []

/-- The fields of a line, divided at its tabs. -/
def split (line : Bytes) : List Bytes :=
  (escapedLine line).splitOn 9

/-- `lexical_cast` to the two types that are read from fields. -/
structure LexicalCast where
  unsignedLong : Bytes → Option UInt64
  char : Bytes → Option UInt8

/-- `hitData_t`. -/
structure HitData extends Hit where
  rsid : UInt32
  visidHigh : UInt64
  visidLow : UInt64
  visidNew : Bool
  visitNum : UInt64
  referrer : Bytes
  pageUrl : Bytes
  pageName : Bytes
  purchaseTimeGmt : TimeT
  purchaseid : Bytes
  campaign : Bytes

/-- The hit of a line, unless a cast throws.  Only a server-generated visitor id, of type
3, has its `visid_new` looked at. -/
def hitData (cast : LexicalCast) (fields : List Bytes) : Option HitData := do
  let rsid ← cast.unsignedLong (field fields "userid")
  let visidHigh ← cast.unsignedLong (field fields "post_visid_high")
  let visidLow ← cast.unsignedLong (field fields "post_visid_low")
  let visidType ← cast.unsignedLong (field fields "visid_type")
  let visidNew ←
    if visidType = 3 then (cast.char (field fields "visid_new")).map (· == 89) else some false
  let hitTimeGmt ← cast.unsignedLong (field fields "hit_time_gmt")
  let visitNum ← cast.unsignedLong (field fields "visit_num")
  let purchaseTimeGmt ← cast.unsignedLong (field fields "last_purchase_time_gmt")
  return {
    rsid := rsid.toUInt32
    visidHigh
    visidLow
    visidNew
    hitTimeGmt := hitTimeGmt.toInt64
    visitNum
    referrer := field fields "post_referrer"
    pageUrl := field fields "post_page_url"
    pageName := field fields "post_pagename"
    purchaseTimeGmt := purchaseTimeGmt.toInt64
    purchaseid := field fields "post_purchaseid"
    campaign := field fields "post_campaign"
    evar := fun i => fields.getD (fieldNames.idxOf "post_evar1" + i) [] }

/-! ## The reader -/

/-- `dwfileHitSource`: its stream and the files from `currFilename` on, of which one that
cannot be opened has no content. -/
structure DwfileHitSource where
  isOpen : Bool
  eof : Bool
  fail : Bool
  unread : Bytes
  filenames : List (Option Bytes)

namespace DwfileHitSource

/-- The first file is opened by the first call. -/
def construct (files : List (Option Bytes)) : DwfileHitSource :=
  ⟨false, false, false, [], files⟩

def good (s : DwfileHitSource) : Bool :=
  !s.eof && !s.fail

/-- The stream is closed; to open a file clears its flags, and to fail in it sets one. -/
def openNextFile (s : DwfileHitSource) : DwfileHitSource :=
  match s.filenames with
  | [] => { s with isOpen := false }
  | none :: rest => { s with isOpen := false, fail := true, filenames := rest }
  | some content :: rest => ⟨true, false, false, content, rest⟩

/-- `getline`, up to a newline or to the end of the file. -/
def getline (s : DwfileHitSource) : Bytes × DwfileHitSource :=
  match nextLine 10 s.unread with
  | (line, some rest) => (line, { s with unread := rest })
  | (line, none) => (line, { s with unread := [], eof := true, fail := s.fail || line.isEmpty })

/-- What is left to do: a turn for each byte, and one for the end and the opening of each
file. -/
def budget (s : DwfileHitSource) : Nat :=
  (s.filenames.map fun file => (file.getD []).length + 2).sum + s.unread.length +
    if s.eof then 0 else 1

theorem budget_getline {s : DwfileHitSource} (before : s.eof = false) :
    s.getline.2.budget < s.budget := by
  rw [getline]
  rcases found : nextLine 10 s.unread with ⟨line, _ | rest⟩
  · simp only [budget, before, Bool.false_eq_true, if_false, if_true, List.length_nil]
    omega
  · have shorter := length_nextLine found
    simp only [budget, before, Bool.false_eq_true, if_false]
    omega

theorem budget_openNextFile {s : DwfileHitSource} (opened : s.openNextFile.isOpen = true) :
    s.openNextFile.budget < s.budget := by
  rcases s with ⟨isOpen, eof, fail, unread, _ | ⟨_ | content, rest⟩⟩
  · contradiction
  · contradiction
  · simp only [budget, openNextFile, List.map_cons, List.sum_cons, Option.getD_some,
      Bool.false_eq_true, if_false]
    omega

/-- The stream at the start of `NextHit`. -/
def ready (s : DwfileHitSource) : DwfileHitSource :=
  if !s.isOpen || s.eof then s.openNextFile else s

/-- The test of `NextHit` before it reads a line. -/
def reads (s : DwfileHitSource) : Bool :=
  s.isOpen && s.good && !s.eof

theorem budget_reads {s : DwfileHitSource} (reads : s.ready.reads = true) :
    s.ready.getline.2.budget < s.budget := by
  simp only [DwfileHitSource.reads, Bool.and_eq_true, Bool.not_eq_true'] at reads
  apply Nat.lt_of_lt_of_le (budget_getline reads.2)
  have opened := reads.1.1
  rw [ready] at opened ⊢
  split
  · rename_i closed
    rw [if_pos closed] at opened
    exact Nat.le_of_lt (budget_openNextFile opened)
  · exact Nat.le_refl _

/-- What a call of `NextHit` does. -/
inductive Returned
  | hit (hit : HitData)
  | ended
  | threw

/-- `NextHit`. -/
def nextHit (cast : LexicalCast) (s : DwfileHitSource) : Returned × DwfileHitSource :=
  if _reads : s.ready.reads then
    let line := s.ready.getline.1
    let s' := s.ready.getline.2
    if s'.eof && line.length = 0 then
      nextHit cast s'
    else if (split line).length ≠ fieldCount then
      nextHit cast s'
    else
      match hitData cast (split line) with
      | none => (.threw, s')
      | some hit => (.hit hit, s')
  else
    (.ended, s.ready)
termination_by s.budget
decreasing_by all_goals exact budget_reads _reads

/-- A call that returns a hit has read on. -/
theorem budget_nextHit {cast : LexicalCast} {s s' : DwfileHitSource} {hit : HitData}
    (returned : nextHit cast s = (.hit hit, s')) : s'.budget < s.budget := by
  fun_induction nextHit cast s with
  | case1 s reads line after empty ih => exact (ih returned).trans (budget_reads reads)
  | case2 s reads line after some malformed ih => exact (ih returned).trans (budget_reads reads)
  | case3 => cases returned
  | case4 s reads line after some wellFormed hit' converted =>
      have same : after = s' := congrArg Prod.snd returned
      rw [← same]
      exact budget_reads reads
  | case5 => cases returned

/-- Calls until the first one that returns false; none if one of them throws. -/
def replay (cast : LexicalCast) (s : DwfileHitSource) : Option (List HitData) :=
  match _returned : nextHit cast s with
  | (.hit hit, s') => (replay cast s').map (hit :: ·)
  | (.ended, _) => some []
  | (.threw, _) => none
termination_by s.budget
decreasing_by exact budget_nextHit _returned

/-! ## Records -/

/-- The lines of a text that have as many fields as they should. -/
def records (content : Bytes) : List (List Bytes) :=
  ((lines 10 content).map split).filter fun fields => fields.length = fieldCount

/-- The records of a file, none if it cannot be opened. -/
def fileRecords (file : Option Bytes) : List (List Bytes) :=
  (file.map records).getD []

/-- The records before the first file that cannot be opened. -/
def pending (s : DwfileHitSource) : List (List Bytes) :=
  (if s.isOpen && !s.eof then records s.unread else []) ++
    (s.filenames.takeWhile Option.isSome).flatMap fileRecords

/-- A stream that can be read from has not failed. -/
def Sound (s : DwfileHitSource) : Prop :=
  s.isOpen = true → s.eof = false → s.fail = false

/-- What a call does where these records are left. -/
def Serves (cast : LexicalCast) (left : List (List Bytes)) : Returned × DwfileHitSource → Prop
  | (.ended, _) => left = []
  | (.threw, _) => ∃ fields rest, left = fields :: rest ∧ hitData cast fields = none
  | (.hit hit, s') =>
      ∃ fields, left = fields :: s'.pending ∧ hitData cast fields = some hit ∧ s'.Sound

/-- The record of a line that is well-formed. -/
def taken (line : Bytes) : List (List Bytes) :=
  if (split line).length = fieldCount then [split line] else []

theorem records_eq (text : Bytes) :
    records text =
      match nextLine 10 text with
      | (line, some rest) => taken line ++ records rest
      | (line, none) => if line = [] then [] else taken line := by
  have filtered (line : Bytes) (rest : List Bytes) :
      ((line :: rest).map split).filter (fun fields => fields.length = fieldCount) =
        taken line ++ (rest.map split).filter fun fields => fields.length = fieldCount := by
    rw [taken, List.map_cons, List.filter_cons]
    by_cases wellFormed : (split line).length = fieldCount <;> simp [wellFormed]
  rw [records, lines_eq]
  rcases nextLine 10 text with ⟨line, _ | rest⟩
  · by_cases empty : line = []
    · simp [empty]
    · simp only [empty, if_false]
      rw [filtered]
      simp
  · exact filtered line _

/-- A line is taken off the text that is open. -/
theorem pending_getline {s : DwfileHitSource} (sound : s.Sound) (reads : s.reads = true) :
    s.getline.2.Sound ∧
      s.pending = (if s.getline.2.eof && s.getline.1.length = 0 then [] else taken s.getline.1) ++
        s.getline.2.pending := by
  rcases s with ⟨isOpen, eof, fail, unread, filenames⟩
  simp only [DwfileHitSource.reads, good, Bool.and_eq_true, Bool.not_eq_true'] at reads
  rcases reads with ⟨⟨rfl, rfl, rfl⟩, _⟩
  rw [getline, pending]
  dsimp only
  rw [records_eq]
  rcases nextLine 10 unread with ⟨line, _ | rest⟩
  · constructor
    · intro _ atEnd
      cases atEnd
    · by_cases empty : line = [] <;> simp [pending, empty]
  · exact ⟨fun _ _ => rfl, by simp [pending]⟩

/-- A stream that does not become ready has nothing pending. -/
theorem pending_ready {s : DwfileHitSource} (sound : s.Sound) :
    s.ready.Sound ∧
      if s.ready.reads then s.ready.pending = s.pending else s.pending = [] := by
  by_cases current : (s.isOpen && !s.eof) = true
  · rcases Bool.and_eq_true_iff.mp current with ⟨opened, before⟩
    rw [Bool.not_eq_true'] at before
    have same : s.ready = s := by simp [ready, opened, before]
    have reads : s.reads = true := by
      simp [DwfileHitSource.reads, good, opened, before, sound opened before]
    rw [same, if_pos reads]
    exact ⟨sound, rfl⟩
  · have next : s.ready = s.openNextFile := by
      rw [ready, if_pos]
      cases opened : s.isOpen <;> cases atEnd : s.eof <;> simp_all
    have pending_eq : s.pending = (s.filenames.takeWhile Option.isSome).flatMap fileRecords := by
      rw [pending, if_neg current, List.nil_append]
    rw [next, pending_eq, openNextFile]
    rcases s.filenames with _ | ⟨_ | content, rest⟩
    · exact ⟨fun opened => (Bool.false_ne_true opened).elim, by simp [DwfileHitSource.reads]⟩
    · exact ⟨fun opened => (Bool.false_ne_true opened).elim, by simp [DwfileHitSource.reads]⟩
    · exact ⟨fun _ _ => rfl, by simp [DwfileHitSource.reads, good, pending, fileRecords]⟩

/-- A turn takes the next line off what is pending. -/
theorem pending_reads {s : DwfileHitSource} (sound : s.Sound) (reads : s.ready.reads = true) :
    s.ready.getline.2.Sound ∧
      s.pending = (if s.ready.getline.2.eof && s.ready.getline.1.length = 0 then []
        else taken s.ready.getline.1) ++ s.ready.getline.2.pending := by
  rcases pending_ready sound with ⟨soundReady, same⟩
  rw [if_pos reads] at same
  rw [← same]
  exact pending_getline soundReady reads

/-- A call returns the hit of the first pending record, and the replay ends where there
is none. -/
theorem nextHit_serves (cast : LexicalCast) {s : DwfileHitSource} (sound : s.Sound) :
    Serves cast s.pending (nextHit cast s) := by
  fun_induction nextHit cast s with
  | case1 s reads line after empty ih =>
      rcases pending_reads sound reads with ⟨soundAfter, same⟩
      rw [if_pos empty, List.nil_append] at same
      rw [same]
      exact ih soundAfter
  | case2 s reads line after some malformed ih =>
      rcases pending_reads sound reads with ⟨soundAfter, same⟩
      rw [if_neg some, taken, if_neg malformed, List.nil_append] at same
      rw [same]
      exact ih soundAfter
  | case3 s reads line after some wellFormed threw =>
      rcases pending_reads sound reads with ⟨_, same⟩
      rw [if_neg some, taken, if_pos (not_not.mp wellFormed)] at same
      exact ⟨split line, after.pending, same, threw⟩
  | case4 s reads line after some wellFormed hit converted =>
      rcases pending_reads sound reads with ⟨soundAfter, same⟩
      rw [if_neg some, taken, if_pos (not_not.mp wellFormed)] at same
      exact ⟨split line, same, converted, soundAfter⟩
  | case5 s blocked =>
      have same := (pending_ready sound).2
      rwa [if_neg blocked] at same

/-- The replay converts the pending records one after the other. -/
theorem replay_eq (cast : LexicalCast) {s : DwfileHitSource} (sound : s.Sound) :
    replay cast s = s.pending.mapM (hitData cast) := by
  have served := nextHit_serves cast sound
  fun_induction replay cast s with
  | case1 s hit after returned ih =>
      rw [returned] at served
      rcases served with ⟨fields, left, converted, soundAfter⟩
      rw [left, List.mapM_cons, converted, ih soundAfter (nextHit_serves cast soundAfter)]
      cases after.pending.mapM (hitData cast) <;> rfl
  | case2 s after returned =>
      rw [returned] at served
      rw [show s.pending = [] from served]
      rfl
  | case3 s after returned =>
      rw [returned] at served
      rcases served with ⟨fields, rest, left, threw⟩
      rw [left, List.mapM_cons, threw]
      rfl

end DwfileHitSource

/-! ## The files of a replay -/

/-- The records of a file that is written line by line, with or without a final newline. -/
theorem records_flatMap_append {written : List Bytes} {last : Bytes}
    (whole : ∀ line ∈ written, 10 ∉ line) (wholeLast : 10 ∉ last) :
    DwfileHitSource.records (written.flatMap (· ++ [10]) ++ last) =
      ((written ++ if last = [] then [] else [last]).map split).filter
        fun fields => fields.length = fieldCount := by
  rw [DwfileHitSource.records, lines_flatMap_append whole wholeLast]

open DwfileHitSource

/-- The records of all the files, in file order and line order. -/
def allRecords (files : List (Option Bytes)) : List (List Bytes) :=
  files.flatMap fileRecords

/-- The replay returns exactly one hit for each record, in their order. -/
def ReadsEveryHit (cast : LexicalCast) (files : List (Option Bytes)) : Prop :=
  ∃ hits, replay cast (construct files) = some hits ∧
    (allRecords files).map (hitData cast) = hits.map some

/-- A file that cannot be opened stands before a record. -/
def CutShort (files : List (Option Bytes)) : Prop :=
  ∃ before after, files = before ++ none :: after ∧ allRecords after ≠ []

/-- The numbers of a record can be cast. -/
def NumbersCast (cast : LexicalCast) (fields : List Bytes) : Prop :=
  ∀ name ∈ ["userid", "post_visid_high", "post_visid_low", "visid_type", "hit_time_gmt",
    "visit_num", "last_purchase_time_gmt"], (cast.unsignedLong (field fields name)).isSome

/-- The letter of a record can be cast if it is looked at. -/
def LetterCasts (cast : LexicalCast) (fields : List Bytes) : Prop :=
  cast.unsignedLong (field fields "visid_type") = some 3 →
    (cast.char (field fields "visid_new")).isSome

instance (cast : LexicalCast) (fields : List Bytes) : Decidable (NumbersCast cast fields) :=
  inferInstanceAs (Decidable (∀ name ∈ _, _))

instance (cast : LexicalCast) (fields : List Bytes) : Decidable (LetterCasts cast fields) :=
  inferInstanceAs (Decidable (_ → _))

/-- A record with its numbers in order is a hit unless its letter cannot be cast. -/
theorem isSome_hitData {cast : LexicalCast} {fields : List Bytes}
    (numbers : NumbersCast cast fields) :
    (hitData cast fields).isSome ↔ LetterCasts cast fields := by
  have number (name : String) (among : name ∈ ["userid", "post_visid_high", "post_visid_low",
      "visid_type", "hit_time_gmt", "visit_num", "last_purchase_time_gmt"]) :
      ∃ value, cast.unsignedLong (field fields name) = some value :=
    Option.isSome_iff_exists.mp (numbers name among)
  obtain ⟨_, rsid⟩ := number "userid" (by simp)
  obtain ⟨_, visidHigh⟩ := number "post_visid_high" (by simp)
  obtain ⟨_, visidLow⟩ := number "post_visid_low" (by simp)
  obtain ⟨visidType, type⟩ := number "visid_type" (by simp)
  obtain ⟨_, hitTime⟩ := number "hit_time_gmt" (by simp)
  obtain ⟨_, visitNum⟩ := number "visit_num" (by simp)
  obtain ⟨_, purchaseTime⟩ := number "last_purchase_time_gmt" (by simp)
  rw [LetterCasts, type, Option.some_inj]
  by_cases server : visidType = 3
  · cases letter : cast.char (field fields "visid_new") <;>
      simp [hitData, rsid, visidHigh, visidLow, type, hitTime, visitNum, purchaseTime, server,
        letter]
  · simp [hitData, rsid, visidHigh, visidLow, type, hitTime, visitNum, purchaseTime, server]

theorem mapM_eq_some_iff {α β : Type} {f : α → Option β} {l : List α} {ys : List β} :
    l.mapM f = some ys ↔ l.map f = ys.map some := by
  induction l generalizing ys with
  | nil => cases ys <;> simp
  | cons x l ih =>
      rw [List.mapM_cons, List.map_cons]
      cases first : f x with
      | none => cases ys <;> simp
      | some y =>
          simp only [Option.bind_eq_bind, Option.bind_some, Option.bind_eq_some_iff, ih,
            Option.pure_def, Option.some_inj]
          constructor
          · rintro ⟨rest, same, rfl⟩
            rw [same, List.map_cons]
          · intro same
            cases ys with
            | nil => cases same
            | cons y' rest =>
                rcases List.cons.inj same with ⟨head, tail⟩
                exact ⟨rest, tail, by rw [Option.some.inj head]⟩

theorem cutShort_cons_some {content : Bytes} {files : List (Option Bytes)} :
    CutShort (some content :: files) ↔ CutShort files := by
  constructor
  · rintro ⟨_ | ⟨first, before⟩, after, same, some⟩
    · cases same
    · rcases List.cons.inj same with ⟨_, rest⟩
      exact ⟨before, after, rest, some⟩
  · rintro ⟨before, after, rfl, some⟩
    exact ⟨_ :: before, after, rfl, some⟩

theorem cutShort_cons_none {files : List (Option Bytes)} :
    CutShort (none :: files) ↔ allRecords files ≠ [] := by
  constructor
  · rintro ⟨_ | ⟨first, before⟩, after, same, some⟩
    · cases same
      exact some
    · rcases List.cons.inj same with ⟨_, rfl⟩
      have among : allRecords (before ++ none :: after) =
          allRecords before ++ allRecords after := List.flatMap_append
      exact among ▸ List.append_ne_nil_of_right_ne_nil _ some
  · exact fun some => ⟨[], files, rfl, some⟩

/-- The records that are read, and those that are not. -/
theorem allRecords_eq (files : List (Option Bytes)) :
    ∃ behind, allRecords files = (construct files).pending ++ behind ∧
      (CutShort files ↔ behind ≠ []) := by
  induction files with
  | nil => exact ⟨[], rfl, by simp [CutShort]⟩
  | cons file files ih =>
      cases file with
      | none => exact ⟨allRecords files, rfl, cutShort_cons_none⟩
      | some content =>
          rcases ih with ⟨behind, same, cut⟩
          have split : allRecords (some content :: files) =
              (construct (some content :: files)).pending ++ behind :=
            (congrArg (records content ++ ·) same).trans (List.append_assoc ..).symm
          exact ⟨behind, split, cutShort_cons_some.trans cut⟩

/-- Every record is read exactly when no file that cannot be opened stands before one, and
the letter of each can be cast where it is looked at. -/
theorem readsEveryHit_iff (cast : LexicalCast) (files : List (Option Bytes))
    (numbers : ∀ fields ∈ allRecords files, NumbersCast cast fields) :
    ReadsEveryHit cast files ↔
      ¬ CutShort files ∧ ∀ fields ∈ allRecords files, LetterCasts cast fields := by
  have sound : (construct files).Sound := fun opened => (Bool.false_ne_true opened).elim
  rcases allRecords_eq files with ⟨behind, same, cut⟩
  have letters : (∀ fields ∈ allRecords files, LetterCasts cast fields) ↔
      ∀ fields ∈ allRecords files, (hitData cast fields).isSome :=
    forall₂_congr fun fields member => (isSome_hitData (numbers fields member)).symm
  rw [letters, cut, ReadsEveryHit, replay_eq cast sound, same, not_not]
  constructor
  · rintro ⟨hits, read, all⟩
    rw [mapM_eq_some_iff] at read
    constructor
    · rw [List.map_append, read, List.append_right_eq_self, List.map_eq_nil_iff] at all
      exact all
    · intro fields member
      have converted := List.mem_map_of_mem (f := hitData cast) member
      rw [all] at converted
      rcases List.mem_map.mp converted with ⟨hit, _, same⟩
      exact same ▸ rfl
  · rintro ⟨rfl, converted⟩
    rw [List.append_nil] at converted ⊢
    generalize (construct files).pending = left at converted
    have hits : left.map (hitData cast) = (left.filterMap (hitData cast)).map some := by
      rw [List.map_filterMap_some_eq_filter_map_isSome, List.filter_eq_self.mpr]
      rwa [List.forall_mem_map]
    exact ⟨_, mapM_eq_some_iff.mpr hits, hits⟩

/-- Casts of decimal numbers and of single letters. -/
def plainCast : LexicalCast where
  unsignedLong text :=
    if !text.isEmpty && text.all (fun digit => 48 ≤ digit && digit ≤ 57) then
      some (text.foldl (fun value digit => 10 * value + (digit - 48).toUInt64) 0)
    else
      none
  char
    | [letter] => some letter
    | _ => none

/-- A line of 88 fields, most of them empty. -/
def plainLine : Bytes :=
  [55, 9, 89, 9, 51, 9, 49, 9, 50, 9, 49, 9, 49, 9, 9, 9, 9, 48, 9, 9] ++ List.replicate 75 9

/-- A file that cannot be opened is skipped where no record stands behind it. -/
theorem readsEveryHit_unreadable_last : ReadsEveryHit plainCast [some plainLine, none] := by
  have numbers : ∀ fields ∈ allRecords [some plainLine, none], NumbersCast plainCast fields := by
    decide +kernel
  rw [readsEveryHit_iff plainCast [some plainLine, none] numbers]
  constructor
  · rw [cutShort_cons_some, cutShort_cons_none]
    exact not_not.mpr rfl
  · decide +kernel

/-- A file that cannot be opened ends the replay before the hit behind it. -/
theorem unreadable_ends_replay :
    let files := [none, some plainLine]
    (∀ fields ∈ allRecords files, NumbersCast plainCast fields ∧ LetterCasts plainCast fields) ∧
      (allRecords files).length = 1 ∧ replay plainCast (construct files) = some [] ∧
      ¬ ReadsEveryHit plainCast files := by
  intro files
  have one : (allRecords files).length = 1 := by decide +kernel
  have ended : replay plainCast (construct files) = some [] :=
    replay_eq plainCast fun opened => (Bool.false_ne_true opened).elim
  constructor
  · decide +kernel
  constructor
  · exact one
  constructor
  · exact ended
  · rintro ⟨hits, read, all⟩
    cases ended.symm.trans read
    have lengths := congrArg List.length all
    rw [List.length_map, one] at lengths
    contradiction

end Elevator.Harness
