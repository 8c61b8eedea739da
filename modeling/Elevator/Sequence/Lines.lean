import Mathlib.Data.List.Basic

/-!
# Lines of a text

A delimiter ends a line, and so does the end of a text that is not empty behind
its last delimiter.  `nextLine` is what a reader takes in one turn, and `lines` what
it takes in all of its turns.
-/

namespace Elevator.Sequence

universe u

variable {α : Type u} [DecidableEq α]

/-- The text up to the first delimiter, and the text behind it, if there is one. -/
def nextLine (delimiter : α) : List α → List α × Option (List α)
  | [] => ([], none)
  | x :: rest =>
      if x = delimiter then
        ([], some rest)
      else
        let found := nextLine delimiter rest
        (x :: found.1, found.2)

/-- The lines of a text. -/
def lines (delimiter : α) : List α → List (List α)
  | [] => []
  | x :: rest =>
      if x = delimiter then
        [] :: lines delimiter rest
      else
        match lines delimiter rest with
        | [] => [[x]]
        | line :: behind => (x :: line) :: behind

variable {delimiter : α}

/-- A reader goes on behind the line it took, and takes the rest of a text without a
delimiter as a line unless it is empty. -/
theorem lines_eq (text : List α) :
    lines delimiter text =
      match nextLine delimiter text with
      | (line, some rest) => line :: lines delimiter rest
      | (line, none) => if line = [] then [] else [line] := by
  induction text with
  | nil => rfl
  | cons x rest ih =>
      rw [lines, nextLine]
      by_cases ends : x = delimiter
      · rw [if_pos ends, if_pos ends]
      · rw [if_neg ends, if_neg ends, ih]
        rcases nextLine delimiter rest with ⟨line, _ | behind⟩
        · by_cases empty : line = [] <;> simp [empty]
        · rfl

/-- A line takes its delimiter off the text. -/
theorem length_nextLine {text line rest : List α}
    (found : nextLine delimiter text = (line, some rest)) : rest.length < text.length := by
  induction text generalizing line with
  | nil => cases found
  | cons x text ih =>
      rw [nextLine] at found
      split at found
      · cases found
        exact Nat.lt_succ_self _
      · obtain ⟨_, behind⟩ := Prod.mk.inj found
        exact Nat.lt_succ_of_lt (ih (Prod.ext rfl behind))

/-- Lines written with their delimiters, and a last one without, are read back. -/
theorem lines_flatMap_append {written : List (List α)} {last : List α}
    (whole : ∀ line ∈ written, delimiter ∉ line) (wholeLast : delimiter ∉ last) :
    lines delimiter (written.flatMap (· ++ [delimiter]) ++ last) =
      written ++ if last = [] then [] else [last] := by
  have next (line : List α) (whole : delimiter ∉ line) (rest : List α) :
      nextLine delimiter (line ++ delimiter :: rest) = (line, some rest) ∧
        nextLine delimiter line = (line, none) := by
    induction line with
    | nil => simp [nextLine]
    | cons x line ih =>
        obtain ⟨differs, whole⟩ := not_or.mp (List.mem_cons.not.mp whole)
        obtain ⟨behind, atEnd⟩ := ih whole
        rw [List.cons_append, nextLine, nextLine, if_neg (Ne.symm differs),
          if_neg (Ne.symm differs), behind, atEnd]
        exact ⟨rfl, rfl⟩
  induction written with
  | nil => rw [List.flatMap_nil, List.nil_append, lines_eq, (next last wholeLast []).2]; rfl
  | cons line written ih =>
      obtain ⟨wholeLine, wholeRest⟩ := List.forall_mem_cons.mp whole
      rw [List.flatMap_cons, List.append_assoc, List.append_assoc, List.singleton_append,
        lines_eq, (next line wholeLine _).1]
      exact congrArg (line :: ·) (ih wholeRest)

/-! ## Parts of a text -/

/-- A line is left of its text when the rest is taken out. -/
theorem sublist_of_mem_lines {text line : List α} (member : line ∈ lines delimiter text) :
    line.Sublist text := by
  induction text generalizing line with
  | nil => cases member
  | cons x rest ih =>
      rw [lines] at member
      split at member
      · rcases List.mem_cons.mp member with rfl | behind
        · exact List.nil_sublist _
        · exact (ih behind).cons x
      · split at member
        · rw [List.mem_singleton.mp member]
          exact (List.nil_sublist rest).cons_cons x
        · rename_i first behind found
          rw [found] at ih
          rcases List.mem_cons.mp member with rfl | later
          · exact (ih List.mem_cons_self).cons_cons x
          · exact (ih (List.mem_cons_of_mem _ later)).cons x

theorem sublist_of_mem_splitOn {text part : List α} (member : part ∈ text.splitOn delimiter) :
    part.Sublist text := by
  induction text generalizing part with
  | nil =>
      rw [List.splitOn_nil, List.mem_singleton] at member
      rw [member]
  | cons x rest ih =>
      rw [List.splitOn, List.splitOnP_cons_eq_if_modifyHead] at member
      split at member
      · rcases List.mem_cons.mp member with rfl | behind
        · exact List.nil_sublist _
        · exact (ih behind).cons x
      · change part ∈ (rest.splitOn delimiter).modifyHead (List.cons x) at member
        cases parts : rest.splitOn delimiter with
        | nil =>
            rw [parts] at member
            cases member
        | cons first behind =>
            rw [parts] at member ih
            rcases List.mem_cons.mp member with rfl | later
            · exact (ih List.mem_cons_self).cons_cons x
            · exact (ih (List.mem_cons_of_mem _ later)).cons x

end Elevator.Sequence
