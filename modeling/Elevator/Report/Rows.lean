import Elevator.Report.Transcript

/-!
# The rows of the table

`results2csv.pl` reads the same lines as `aggregateResults.pl`, but keeps no hash.  As soon
as it holds results of writing it makes a row of what it has read and forgets it.  The
statistics of each array, which are all that is printed of it, are not computed here.
-/

namespace Elevator.Report

open Transition Sequence

/-- What a row is made of; what was not read is undefined. -/
structure Row where
  store : Option Text := none
  server : Option Text := none
  threads : Option Text := none
  requests : Option Text := none
  requestRate : Option Text := none
  aggRate : List Text := []
  aggRead : List Text := []
  aggWrite : List Text := []
  deriving DecidableEq

/-- The variables of the script, and the rows that it has made. -/
structure Table where
  row : Row
  rows : List Row

namespace Row

def setHarness (r : Row) (found : Text × Text) : Row :=
  { r with store := some (storeName found.1), server := some found.2 }

def setConfig (r : Row) (found : Text × Text × Text) : Row :=
  { r with
    threads := some found.1
    requests := some found.2.1
    requestRate := some found.2.2 }

def setRate (r : Row) (values : List Text) : Row :=
  { r with aggRate := values }

def setRead (r : Row) (values : List Text) : Row :=
  { r with aggRead := values }

def setWrite (r : Row) (values : List Text) : Row :=
  { r with aggWrite := values }

/-- Do what a match is for, if there is one. -/
def onMatch {α : Type} (set : Row → α → Row) (found : Option α) (r : Row) : Row :=
  match found with
  | some found => set r found
  | none => r

/-- Do what the matches are for, one after the other. -/
def take (r : Row) (found : Found) : Row :=
  let r := r.onMatch setHarness found.harness
  let r := r.onMatch setConfig found.config
  let r := r.onMatch setRate found.rate
  let r := r.onMatch setRead found.readAvgNS
  r.onMatch setWrite found.writeAvgNS

end Row

namespace Table

def blank : Table :=
  ⟨{}, []⟩

/-- A turn of the loop over the lines, which makes a row if it is complete. -/
def take (t : Table) (found : Found) : Table :=
  let row := t.row.take found
  if row.aggWrite ≠ [] then ⟨{}, t.rows ++ [row]⟩ else ⟨row, t.rows⟩

/-- The loop over the lines. -/
def read (t : Table) (text : Text) : Table :=
  run (fun t line => t.take (found line)) t (lines '\n' text)

end Table

/-! ## Sheets -/

/-- What is found where results are printed. -/
structure Sheet where
  harness : Option (Text × Text)
  config : Option (Text × Text × Text)
  aggRate : List Text
  aggRead : List Text
  aggWrite : List Text

/-- Results are found if there are any. -/
def results (values : List Text) : Option (List Text) :=
  if values = [] then none else some values

namespace Sheet

def opening (s : Sheet) : List Found :=
  [{ harness := s.harness }, { config := s.config }, { rate := results s.aggRate },
    { readAvgNS := results s.aggRead }]

/-- The results of writing come last. -/
def found (s : Sheet) : List Found :=
  s.opening ++ [{ writeAvgNS := results s.aggWrite }]

/-- The row of a sheet alone. -/
def row (s : Sheet) : Row where
  store := s.harness.map fun found => storeName found.1
  server := s.harness.map fun found => found.2
  threads := s.config.map fun found => found.1
  requests := s.config.map fun found => found.2.1
  requestRate := s.config.map fun found => found.2.2
  aggRate := s.aggRate
  aggRead := s.aggRead
  aggWrite := s.aggWrite

theorem others (s : Sheet) : ∀ found ∈ s.opening, found.writeAvgNS = none := by
  simp [opening]

end Sheet

theorem getD_results (values : List Text) : (results values).getD [] = values := by
  rw [results]
  split
  · rename_i none
    exact none.symm
  · rfl

/-- From a blank row a sheet makes its own. -/
theorem Sheet.run_opening (s : Sheet) :
    { run Row.take {} s.opening with aggWrite := s.aggWrite } = s.row := by
  have same : s.row = { s.row with
      aggRate := (results s.aggRate).getD []
      aggRead := (results s.aggRead).getD [] } := by
    rw [getD_results, getD_results]
    rfl
  rw [same, row, opening]
  cases s.harness <;> cases s.config <;> cases results s.aggRate <;> cases results s.aggRead <;>
    rfl

theorem Row.aggWrite_take (r : Row) {found : Found} (other : found.writeAvgNS = none) :
    (r.take found).aggWrite = r.aggWrite := by
  obtain ⟨stamp, harness, config, rate, read, write⟩ := found
  cases other
  cases harness <;> cases config <;> cases rate <;> cases read <;> rfl

theorem Row.aggWrite_run (r : Row) {founds : List Found}
    (others : ∀ found ∈ founds, found.writeAvgNS = none) :
    (run Row.take r founds).aggWrite = r.aggWrite := by
  induction founds generalizing r with
  | nil => rfl
  | cons found founds ih =>
      obtain ⟨first, rest⟩ := List.forall_mem_cons.mp others
      rw [run_cons, ih _ rest, Row.aggWrite_take r first]

/-- Without results of writing no row is made. -/
theorem Table.run_others {t : Table} (pending : t.row.aggWrite = []) {founds : List Found}
    (others : ∀ found ∈ founds, found.writeAvgNS = none) :
    run Table.take t founds = ⟨run Row.take t.row founds, t.rows⟩ := by
  induction founds generalizing t with
  | nil => rfl
  | cons found founds ih =>
      obtain ⟨first, rest⟩ := List.forall_mem_cons.mp others
      have after : (t.row.take found).aggWrite = [] := by
        rw [Row.aggWrite_take _ first, pending]
      have taken : t.take found = ⟨t.row.take found, t.rows⟩ := by
        rw [Table.take, if_neg fun some => some after]
      rw [run_cons, run_cons, taken, ih after rest]

theorem Table.take_nothing (t : Table) (pending : t.row.aggWrite = []) : t.take {} = t := by
  have others : ∀ found ∈ [({} : Found)], found.writeAvgNS = none := by simp
  exact Table.run_others pending others

theorem Table.pending_take (t : Table) (found : Found) : (t.take found).row.aggWrite = [] := by
  rw [Table.take]
  split
  · rfl
  · rename_i none
    exact not_not.mp none

/-- What the script makes of a text depends on what is found in it. -/
theorem Table.read_eq {text : Text} {founds : List Found}
    (same : ((lines '\n' text).map found).filter (· ≠ {}) = founds.filter (· ≠ {})) :
    Table.blank.read text = run Table.take .blank founds := by
  have found := @run_found _ Table.take (fun t => t.row.aggWrite = [])
    (fun t found _ => t.pending_take found) (fun t pending => t.take_nothing pending) .blank rfl
    _ _ same
  rw [← found, ← run_comp]
  rfl

/-- A sheet makes a row exactly if it has results of writing. -/
theorem Table.run_sheet {t : Table} (pending : t.row.aggWrite = []) (s : Sheet) :
    run Table.take t s.found =
      if s.aggWrite = [] then ⟨run Row.take t.row s.opening, t.rows⟩
      else ⟨{}, t.rows ++ [{ run Row.take t.row s.opening with aggWrite := s.aggWrite }]⟩ := by
  have before : (run Row.take t.row s.opening).aggWrite = [] := by
    rw [Row.aggWrite_run _ s.others, pending]
  rw [Sheet.found, run_append, Table.run_others pending s.others, run_cons, run_nil, results]
  by_cases none : s.aggWrite = []
  · rw [if_pos none, if_pos none]
    exact if_neg fun some => some before
  · rw [if_neg none, if_neg none]
    exact if_pos none

/-- Sheets with results of writing make a row each. -/
theorem Table.run_written {sheets : List Sheet} (written : ∀ s ∈ sheets, s.aggWrite ≠ [])
    (rows : List Row) :
    run Table.take ⟨{}, rows⟩ (sheets.flatMap Sheet.found) =
      ⟨{}, rows ++ sheets.map Sheet.row⟩ := by
  induction sheets generalizing rows with
  | nil => exact congrArg _ (List.append_nil rows).symm
  | cons s sheets ih =>
      obtain ⟨first, rest⟩ := List.forall_mem_cons.mp written
      rw [List.flatMap_cons, run_append, Table.run_sheet rfl, if_neg first, s.run_opening, ih rest,
        List.append_assoc]
      rfl

/-- There are as many rows as sheets with results of writing. -/
theorem Table.length_rows_run {t : Table} (pending : t.row.aggWrite = []) (sheets : List Sheet) :
    (run Table.take t (sheets.flatMap Sheet.found)).rows.length =
      t.rows.length + sheets.countP (·.aggWrite ≠ []) := by
  induction sheets generalizing t with
  | nil => rfl
  | cons s sheets ih =>
      have before : (run Row.take t.row s.opening).aggWrite = [] := by
        rw [Row.aggWrite_run _ s.others, pending]
      rw [List.flatMap_cons, run_append, Table.run_sheet pending, List.countP_cons]
      by_cases none : s.aggWrite = []
      · rw [if_pos none, ih before, if_neg (by simpa using none), Nat.add_zero]
      · rw [if_neg none, ih rfl, if_pos (by simpa using none), List.length_append,
          List.length_singleton, Nat.add_assoc, Nat.add_comm 1]

/-- Every sheet makes its own row exactly if all of them have results of writing. -/
theorem Table.rows_sheets_iff (sheets : List Sheet) :
    (run Table.take .blank (sheets.flatMap Sheet.found)).rows = sheets.map Sheet.row ↔
      ∀ s ∈ sheets, s.aggWrite ≠ [] := by
  constructor
  · intro same
    have counted := @Table.length_rows_run .blank rfl sheets
    rw [same, List.length_map, Table.blank, List.length_nil, Nat.zero_add] at counted
    intro s member
    exact of_decide_eq_true (List.countP_eq_length.mp counted.symm s member)
  · intro written
    rw [Table.blank, Table.run_written written]
    exact List.nil_append _

/-! ## Rows of outputs -/

/-- The row of an output alone. -/
def Output.row (o : Output) : Row where
  store := some (storeName o.engine.1)
  server := some o.hostname.1
  threads := o.config.map fun config => config.1
  requests := o.config.map fun config => config.2.1
  requestRate := o.config.map fun config => config.2.2
  aggRate := o.aggregateRate.map decimal
  aggRead := o.aggregateReadTimer.map decimal
  aggWrite := o.aggregateWriteTimer.map decimal

/-- The sheet that an output is. -/
def Output.sheet (o : Output) : Sheet where
  harness := some (o.engine.1, o.hostname.1)
  config := o.config
  aggRate := o.aggregateRate.map decimal
  aggRead := o.aggregateReadTimer.map decimal
  aggWrite := o.aggregateWriteTimer.map decimal

theorem results_decimal (values : List Nat) : results (values.map decimal) = numbers values := by
  simp [results, numbers]

theorem Output.found_sheet (o : Output) : o.sheet.found = (Part.output o).found := by
  rw [Part.found, ← results_decimal, ← results_decimal, ← results_decimal]
  rfl

/-- The outputs of a transcript. -/
def outputs (parts : List Part) : List Output :=
  parts.filterMap fun
    | .output o => some o
    | _ => none

/-! ## Rows of a transcript -/

/-- What the script has made of a transcript. -/
def tableOf (parts : List Part) : Table :=
  Table.blank.read (parts.flatMap Part.text)

/-- Nothing but the outputs of a transcript makes a difference. -/
theorem Table.run_outputs {t : Table} (pending : t.row.aggWrite = []) (parts : List Part) :
    run Table.take t (parts.flatMap Part.found) =
      run Table.take t (((outputs parts).map Output.sheet).flatMap Sheet.found) := by
  induction parts generalizing t with
  | nil => rfl
  | cons part parts ih =>
      rw [List.flatMap_cons, run_append]
      cases part with
      | stamp stamp =>
          have others : ∀ found ∈ (Part.stamp stamp).found, found.writeAvgNS = none := by
            simp [Part.found]
          rw [Table.run_others pending others]
          exact ih pending
      | other line quiet => exact ih pending
      | output o =>
          have first : outputs (.output o :: parts) = o :: outputs parts := rfl
          rw [first, List.map_cons, List.flatMap_cons, run_append, o.found_sheet]
          apply ih
          rw [← o.found_sheet, Sheet.found, run_concat]
          exact Table.pending_take _ _

/-- Every output of a transcript makes the row of its own results exactly if all of them
have results of writing. -/
theorem rows_iff (parts : List Part) :
    (tableOf parts).rows = (outputs parts).map Output.row ↔
      ∀ o ∈ outputs parts, o.aggregateWriteTimer ≠ [] := by
  have read : tableOf parts = run Table.take .blank (parts.flatMap Part.found) :=
    Table.read_eq (filter_found_text parts)
  have rows :
      (outputs parts).map Output.row = ((outputs parts).map Output.sheet).map Sheet.row := by
    rw [List.map_map]
    rfl
  rw [read, Table.run_outputs rfl, rows, Table.rows_sheets_iff, List.forall_mem_map]
  simp [Output.sheet]

end Elevator.Report
