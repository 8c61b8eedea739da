import Elevator.Report.Bookings
import Elevator.Report.Rows
import Mathlib.Data.Char
import Mathlib.Data.List.Lex
import Mathlib.Data.List.Sort

/-!
# The printed report

For each number of threads `aggregateResults.pl` prints its sums the way a harness prints
its results, so that `results2csv.pl` can read them.  In place of a server stand the names
of all servers up to their dots; a server without a dot is left out, and if none is left
neither the store nor the servers are found again.

Whatever text was read, what the script holds is without space where it is a name and
made of digits where it is a number, so that the report is read back as it was meant.
-/

namespace Elevator.Report

open Transition Sequence

/-! ## Printing -/

/-- The name of a server in front of a dot, the first one behind its first character. -/
def shortName : Text → Option Text
  | [] => none
  | c :: rest => if '.' ∈ rest then some (c :: rest.takeWhile (· ≠ '.')) else none

/-- `join(' ', …)` of numbers. -/
def joined (values : List Nat) : Text :=
  [' '].intercalate (values.map decimal)

/-- What is printed for a number of threads. -/
structure Summary where
  store : Text
  servers : Text
  threads : Text
  requests : Text
  requestRate : Text
  held : Held Nat

namespace Summary

def lines (u : Summary) : List Text :=
  [harnessText u.store u.servers, [],
    configText u.threads u.requests (rateText u.requestRate), [],
    resultText u.held.numServers "rate".toList (joined u.held.aggRate),
    resultText u.held.numServers "readAvgNS".toList (joined u.held.aggRead),
    resultText u.held.numServers "writeAvgNS".toList (joined u.held.aggWrite), [], []]

def text (u : Summary) : Text :=
  u.lines.flatMap (· ++ ['\n'])

end Summary

namespace Script

/-- The names of the servers, in the order of their keys. -/
def servers (order : List Text) : Text :=
  [':'].intercalate ((order.insertionSort (· ≤ ·)).filterMap shortName)

/-- What is held under `general`; an undefined value is printed as nothing. -/
def inGeneral (s : Script) (threads : Text) (field : Entry → Option Text) : Text :=
  ((s.test threads general).bind field).getD []

def summary (s : Script) (threads : Text) (order : List Text) : Summary where
  store := s.inGeneral threads Entry.store
  servers := servers order
  threads := threads
  requests := s.inGeneral threads Entry.requests
  requestRate := s.inGeneral threads Entry.requestRate
  held := s.printed threads order

/-- Orders in which Perl may give the keys: those of `%test` sorted as numbers, and those
under each of them in any order. -/
structure Orders (s : Script) (threadOrder : List Text) (orders : Text → List Text) : Prop where
  nodup : threadOrder.Nodup
  complete : ∀ threads, threads ∈ threadOrder ↔ ∃ key, (s.test threads key).isSome
  ascending : threadOrder.Pairwise fun a b => ofDecimal a ≤ ofDecimal b
  keys : ∀ threads ∈ threadOrder, s.Keys threads (orders threads)

/-- What is printed for each number of threads. -/
def summaries (s : Script) (threadOrder : List Text) (orders : Text → List Text) :
    List Summary :=
  threadOrder.map fun threads => s.summary threads (orders threads)

def report (s : Script) (threadOrder : List Text) (orders : Text → List Text) : Text :=
  (s.summaries threadOrder orders).flatMap Summary.text

end Script

/-! ## Words and digits -/

/-- A text without space. -/
def Spaceless (t : Text) : Prop :=
  ∀ c ∈ t, ¬ isSpace c

def Digits (t : Text) : Prop :=
  ∀ c ∈ t, c.isDigit

theorem Spaceless.of_subset {t t' : Text} (spaceless : Spaceless t) (sub : t' ⊆ t) : Spaceless t' :=
  fun c member => spaceless c (sub member)

theorem Spaceless.newline_not_mem {t : Text} (spaceless : Spaceless t) : '\n' ∉ t :=
  fun member => spaceless _ member (by decide)

theorem Digits.newline_not_mem {t : Text} (digits : Digits t) : '\n' ∉ t := by
  intro member
  have digit := digits _ member
  cases digit

theorem spaceless_general : Spaceless general :=
  forall_not_isSpace rfl

theorem spaceless_storeName {store : Text} (spaceless : Spaceless store) :
    Spaceless (storeName store) := by
  have stripped (start t : Text) : stripPrefix start t ⊆ t := by
    rw [stripPrefix]
    split
    · exact List.drop_subset _ _
    · exact List.Subset.refl _
  have cut (ending t : Text) : stripSuffix ending t ⊆ t := by
    rw [stripSuffix]
    split
    · exact List.take_subset _ _
    · exact List.Subset.refl _
  exact ((spaceless.of_subset (stripped _ _)).of_subset (stripped _ _)).of_subset (cut _ _)

theorem spaceless_shortName {server name : Text} (spaceless : Spaceless server)
    (named : shortName server = some name) : Spaceless name := by
  cases server with
  | nil => cases named
  | cons c rest =>
      rw [shortName] at named
      split at named
      · cases named
        exact spaceless.of_subset (List.cons_subset_cons c (List.takeWhile_subset _))
      · cases named

theorem spaceless_intercalate {separator : Char} (separates : ¬ isSpace separator)
    {pieces : List Text} (spaceless : ∀ t ∈ pieces, Spaceless t) :
    Spaceless ([separator].intercalate pieces) := by
  induction pieces with
  | nil => exact fun c member => by cases member
  | cons piece pieces ih =>
      rcases List.forall_mem_cons.mp spaceless with ⟨first, rest⟩
      cases pieces with
      | nil => rwa [List.intercalate_singleton]
      | cons next pieces =>
          rw [List.intercalate_cons_cons]
          intro c member
          rcases List.mem_append.mp member with front | behind
          · rcases List.mem_append.mp front with inside | between
            · exact first c inside
            · exact List.mem_singleton.mp between ▸ separates
          · exact ih rest c behind

theorem spaceless_servers {order : List Text} (spaceless : ∀ key ∈ order, Spaceless key) :
    Spaceless (Script.servers order) := by
  apply spaceless_intercalate (by decide)
  intro name member
  rcases List.mem_filterMap.mp member with ⟨server, inside, named⟩
  exact spaceless_shortName (spaceless server ((List.mem_insertionSort _).mp inside)) named

/-! ## What the script holds -/

theorem of_spanned {test : Char → Bool} {text front rest : Text}
    (taken : spanned test text = some (front, rest)) : ∀ c ∈ front, test c := by
  rw [spanned] at taken
  split at taken
  · cases taken
  · rcases Prod.mk.inj (Option.some.inj taken) with ⟨rfl, -⟩
    exact fun c member => List.all_eq_true.mp List.all_takeWhile c member

theorem spaceless_of_spanned {text front rest : Text}
    (taken : spanned (!isSpace ·) text = some (front, rest)) : Spaceless front := by
  intro c member
  simpa using of_spanned taken c member

theorem spaceless_of_matchHarness {line store server : Text}
    (read : matchHarness line = some (store, server)) : Spaceless store ∧ Spaceless server := by
  rcases Option.bind_eq_some_iff.mp read with ⟨_, -, read⟩
  rcases Option.bind_eq_some_iff.mp read with ⟨⟨_, _⟩, -, read⟩
  rcases Option.bind_eq_some_iff.mp read with ⟨_, -, read⟩
  rcases Option.bind_eq_some_iff.mp read with ⟨⟨_, _⟩, named, read⟩
  rcases Option.bind_eq_some_iff.mp read with ⟨_, -, read⟩
  rcases Option.bind_eq_some_iff.mp read with ⟨⟨_, _⟩, served, read⟩
  cases read
  exact ⟨spaceless_of_spanned named, spaceless_of_spanned served⟩

theorem digits_of_matchConfig {line threads requests requestRate : Text}
    (read : matchConfig line = some (threads, requests, requestRate)) :
    Digits threads ∧ Digits requests ∧ Digits requestRate := by
  rcases Option.bind_eq_some_iff.mp read with ⟨_, -, read⟩
  rcases Option.bind_eq_some_iff.mp read with ⟨⟨_, _⟩, first, read⟩
  rcases Option.bind_eq_some_iff.mp read with ⟨_, -, read⟩
  rcases Option.bind_eq_some_iff.mp read with ⟨⟨_, _⟩, second, read⟩
  rcases Option.bind_eq_some_iff.mp read with ⟨_, -, read⟩
  rcases Option.bind_eq_some_iff.mp read with ⟨⟨_, _⟩, third, read⟩
  cases read
  exact ⟨of_spanned first, of_spanned second, of_spanned third⟩

/-- An entry whose store has no space and whose numbers are digits. -/
structure Entry.Sound (e : Entry) : Prop where
  store : ∀ t ∈ e.store, Spaceless t
  requests : ∀ t ∈ e.requests, Digits t
  requestRate : ∀ t ∈ e.requestRate, Digits t

theorem Entry.sound_blank : Entry.blank.Sound where
  store _ none := by cases none
  requests _ none := by cases none
  requestRate _ none := by cases none

namespace Script

/-- What holds of a script whatever it reads. -/
structure Sound (s : Script) : Prop where
  store : ∀ t ∈ s.store, Spaceless t
  server : ∀ t ∈ s.server, Spaceless t
  threads : ∀ t ∈ s.threads, Digits t
  requests : ∀ t ∈ s.requests, Digits t
  requestRate : ∀ t ∈ s.requestRate, Digits t
  test : ∀ threads key e, s.test threads key = some e →
    Digits threads ∧ Spaceless key ∧ e.Sound

theorem sound_blank : blank.Sound where
  store _ none := by cases none
  server _ none := by cases none
  threads _ none := by cases none
  requests _ none := by cases none
  requestRate _ none := by cases none
  test _ _ _ none := by cases none

namespace Sound

variable {s : Script}

theorem assign (sound : s.Sound) {key : Text} (spaceless : Spaceless key) {change : Entry → Entry}
    (keeps : ∀ e : Entry, e.Sound → (change e).Sound) : (s.assign key change).Sound where
  store := sound.store
  server := sound.server
  threads := sound.threads
  requests := sound.requests
  requestRate := sound.requestRate
  test := by
    intro threads key' e held
    rw [test_assign] at held
    split at held
    · rename_i here
      rcases here with ⟨rfl, rfl⟩
      cases held
      refine ⟨?_, spaceless, keeps _ ?_⟩
      · cases some : s.threads with
        | none => exact fun c member => by cases member
        | some t => exact sound.threads t some
      · cases before : s.test (s.threads.getD []) key' with
        | none => exact Entry.sound_blank
        | some e => exact (sound.test _ _ _ before).2.2
    · exact sound.test _ _ _ held

theorem assignServer (sound : s.Sound) {change : Entry → Entry}
    (keeps : ∀ e : Entry, e.Sound → (change e).Sound) : (s.assignServer change).Sound := by
  apply sound.assign _ keeps
  cases some : s.server with
  | none => exact fun c member => by cases member
  | some t => exact sound.server t some

theorem setHarness (sound : s.Sound) {found : Text × Text} (store : Spaceless found.1)
    (server : Spaceless found.2) : (s.setHarness found).Sound :=
  { sound with
    store := fun _ same => Option.some.inj same ▸ spaceless_storeName store
    server := fun _ same => Option.some.inj same ▸ server }

theorem withConfig (sound : s.Sound) {found : Text × Text × Text} (threads : Digits found.1)
    (requests : Digits found.2.1) (requestRate : Digits found.2.2) :
    (s.withConfig found).Sound :=
  { sound with
    threads := fun _ same => Option.some.inj same ▸ threads
    requests := fun _ same => Option.some.inj same ▸ requests
    requestRate := fun _ same => Option.some.inj same ▸ requestRate }

theorem setConfig (sound : s.Sound) {found : Text × Text × Text} (threads : Digits found.1)
    (requests : Digits found.2.1) (requestRate : Digits found.2.2) :
    (s.setConfig found).Sound := by
  have config := sound.withConfig threads requests requestRate
  apply assignServer
  · apply config.assign spaceless_general
    intro e _
    exact ⟨config.store, config.requests, config.requestRate⟩
  · exact fun e kept => ⟨kept.store, kept.requests, kept.requestRate⟩

/-- Reading a line keeps the script sound. -/
theorem readLine (sound : s.Sound) (line : Text) : (s.readLine line).Sound := by
  have results {s : Script} (sound : s.Sound) {set : Script → List Text → Script}
      (sets : ∀ s : Script, s.Sound → ∀ values, (set s values).Sound)
      (values : Option (List Text)) : (s.onMatch set values).Sound := by
    cases values with
    | none => exact sound
    | some values => exact sets s sound values
  have stamped : (s.onMatch setStamp (matchStamp line)).Sound := by
    cases matchStamp line with
    | none => exact sound
    | some timestamp => exact { sound with }
  have named : ((s.onMatch setStamp (matchStamp line)).onMatch Script.setHarness
      (matchHarness line)).Sound := by
    cases read : matchHarness line with
    | none => exact stamped
    | some found =>
        rcases spaceless_of_matchHarness read with ⟨store, server⟩
        exact stamped.setHarness store server
  have configured : (((s.onMatch setStamp (matchStamp line)).onMatch Script.setHarness
      (matchHarness line)).onMatch Script.setConfig (matchConfig line)).Sound := by
    cases read : matchConfig line with
    | none => exact named
    | some found =>
        rcases digits_of_matchConfig read with ⟨threads, requests, requestRate⟩
        exact named.setConfig threads requests requestRate
  have kept (change : List Text → Entry → Entry)
      (keeps : ∀ values (e : Entry), e.Sound → (change values e).Sound) (s : Script)
      (sound : s.Sound) (values : List Text) : (s.assignServer (change values)).Sound :=
    sound.assignServer (keeps values)
  apply results
  · apply results
    · apply results configured
      exact kept _ fun _ e kept => ⟨kept.store, kept.requests, kept.requestRate⟩
    · exact kept _ fun _ e kept => ⟨kept.store, kept.requests, kept.requestRate⟩
  · exact kept _ fun _ e kept => ⟨kept.store, kept.requests, kept.requestRate⟩

/-- Reading any text keeps the script sound. -/
theorem read (sound : s.Sound) (text : Text) : (s.read text).Sound :=
  @run_invariant _ _ Script.readLine Script.Sound
    (fun _ line sound => sound.readLine line) _ sound _

end Sound

end Script

/-! ## Reading the report -/

theorem matchNumbers_joined (values : List Nat) :
    matchNumbers (joined values) = numbers values := by
  cases values with
  | nil => rfl
  | cons n values =>
      have read : words isSpace (joined (n :: values)) = (n :: values).map decimal :=
        words_intercalate rfl words_decimal
      obtain ⟨more, opens⟩ : ∃ more, joined (n :: values) = decimal n ++ more := by
        cases values with
        | nil => exact ⟨[], List.intercalate_singleton.trans (List.append_nil _).symm⟩
        | cons n' values =>
            rw [joined, List.map_cons, List.map_cons, List.intercalate_cons_cons,
              List.append_assoc]
            exact ⟨_, rfl⟩
      rw [opens] at read ⊢
      rw [matchNumbers_decimal read, numbers, if_neg (List.cons_ne_nil n values)]

theorem newline_not_mem_joined (values : List Nat) : '\n' ∉ joined values := by
  induction values with
  | nil => exact List.not_mem_nil
  | cons n values ih =>
      cases values with
      | nil =>
          rw [joined, List.map_singleton, List.intercalate_singleton]
          exact newline_not_mem_decimal n
      | cons n' values =>
          rw [joined, List.map_cons, List.map_cons, List.intercalate_cons_cons]
          exact whole_append (whole_append (newline_not_mem_decimal n) (by decide)) ih

namespace Summary

/-- A summary whose names are without space and whose numbers are digits. -/
structure Sound (u : Summary) : Prop where
  store : Spaceless u.store
  servers : Spaceless u.servers
  threads : Digits u.threads
  requests : Digits u.requests
  requestRate : Digits u.requestRate

/-- What is found of a summary. -/
def sheet (u : Summary) : Sheet where
  harness := if u.store ≠ [] ∧ u.servers ≠ [] then some (u.store, u.servers) else none
  config :=
    if u.threads ≠ [] ∧ u.requests ≠ [] ∧ u.requestRate ≠ [] then
      some (u.threads, u.requests, u.requestRate)
    else
      none
  aggRate := u.held.aggRate.map decimal
  aggRead := u.held.aggRead.map decimal
  aggWrite := u.held.aggWrite.map decimal

variable {u : Summary}

theorem Sound.filter_found (sound : u.Sound) :
    (u.lines.map found).filter (· ≠ {}) = u.sheet.found.filter (· ≠ {}) := by
  have empty : found [] = {} := quiet_nil
  rw [Summary.lines, Sheet.found, Sheet.opening, sheet]
  simp only [List.map_cons, List.map_nil, empty, found_harnessText sound.store sound.servers,
    found_configText, matchConfig_rateText sound.threads sound.requests sound.requestRate,
    found_rate, found_readAvgNS, found_writeAvgNS, matchNumbers_joined, results_decimal,
    List.filter_cons, List.filter_nil, List.cons_append, List.nil_append]
  simp only [ne_eq, not_true_eq_false, decide_false, Bool.false_eq_true, if_false]

theorem Sound.newline_not_mem (sound : u.Sound) : ∀ line ∈ u.lines, '\n' ∉ line := by
  intro line member
  simp only [Summary.lines, List.mem_cons, List.not_mem_nil, or_false] at member
  rcases member with rfl | rfl | rfl | rfl | rfl | rfl | rfl | rfl | rfl
  · exact whole_harnessText sound.store.newline_not_mem sound.servers.newline_not_mem
  · exact List.not_mem_nil
  · exact whole_configText sound.threads.newline_not_mem sound.requests.newline_not_mem
      (whole_rateText sound.requestRate.newline_not_mem)
  · exact List.not_mem_nil
  · exact whole_resultText _ (by decide) (newline_not_mem_joined _)
  · exact whole_resultText _ (by decide) (newline_not_mem_joined _)
  · exact whole_resultText _ (by decide) (newline_not_mem_joined _)
  · exact List.not_mem_nil
  · exact List.not_mem_nil

/-- The row that is made of a summary alone. -/
def row (u : Summary) : Row :=
  u.sheet.row

end Summary

theorem Script.Sound.summary {s : Script} (sound : s.Sound) {threads : Text} {order : List Text}
    (digits : Digits threads) (keys : s.Keys threads order) : (s.summary threads order).Sound := by
  have inGeneral {field : Entry → Option Text} {kind : Text → Prop} (empty : kind [])
      (kept : ∀ e : Entry, e.Sound → ∀ t ∈ field e, kind t) :
      kind (s.inGeneral threads field) := by
    rw [Script.inGeneral]
    cases held : s.test threads general with
    | none => exact empty
    | some e =>
        cases value : field e with
        | none => simpa [value] using empty
        | some t => simpa [value] using kept e (sound.test _ _ _ held).2.2 t value
  constructor
  · exact inGeneral (fun c member => by cases member) fun e kept => kept.store
  · apply spaceless_servers
    intro key member
    rcases (keys.complete key).mp member with rfl | some
    · exact spaceless_general
    · rcases Option.isSome_iff_exists.mp some with ⟨e, held⟩
      exact (sound.test _ _ _ held).2.1
  · exact digits
  · exact inGeneral (fun c member => by cases member) fun e kept => kept.requests
  · exact inGeneral (fun c member => by cases member) fun e kept => kept.requestRate

theorem Script.Orders.sound {s : Script} (sound : s.Sound) {threadOrder : List Text}
    {orders : Text → List Text} (given : s.Orders threadOrder orders) :
    ∀ u ∈ s.summaries threadOrder orders, u.Sound := by
  intro u member
  rcases List.mem_map.mp member with ⟨threads, inside, rfl⟩
  rcases (given.complete threads).mp inside with ⟨key, some⟩
  rcases Option.isSome_iff_exists.mp some with ⟨e, held⟩
  exact sound.summary (sound.test _ _ _ held).1 (given.keys threads inside)

/-- Every summary makes its own row exactly if there are results of writing in all of them. -/
theorem rows_summaries_iff {summaries : List Summary} (sound : ∀ u ∈ summaries, u.Sound) :
    (Table.blank.read (summaries.flatMap Summary.text)).rows = summaries.map Summary.row ↔
      ∀ u ∈ summaries, u.held.aggWrite ≠ [] := by
  have whole : ∀ line ∈ summaries.flatMap Summary.lines, '\n' ∉ line := by
    intro line member
    rcases List.mem_flatMap.mp member with ⟨u, inside, within⟩
    exact (sound u inside).newline_not_mem line within
  have text : summaries.flatMap Summary.text =
      (summaries.flatMap Summary.lines).flatMap (· ++ ['\n']) := by
    rw [List.flatMap_assoc]
    rfl
  have same : ((lines '\n' (summaries.flatMap Summary.text)).map found).filter (· ≠ {}) =
      ((summaries.map Summary.sheet).flatMap Sheet.found).filter (· ≠ {}) := by
    rw [text, lines_written whole, List.map_flatMap, List.filter_flatMap, List.flatMap_map,
      List.filter_flatMap]
    exact List.flatMap_congr fun u member => (sound u member).filter_found
  have rows : summaries.map Summary.row = (summaries.map Summary.sheet).map Sheet.row := by
    rw [List.map_map]
    rfl
  rw [Table.read_eq same, rows, Table.rows_sheets_iff, List.forall_mem_map]
  simp [Summary.sheet]

end Elevator.Report
