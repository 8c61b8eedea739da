import Mathlib.Data.List.Basic

/-!
# Scanning text

A scanner takes something off the front of a text or fails.  Runs of characters are
taken as long as they are, so that a pattern in which no run can go on into what follows
it is matched by the scanners of its parts one after the other.  Each scanner takes off
what was written in front of the rest.
-/

namespace Elevator.Sequence

abbrev Text := List Char

/-! ## Scanners -/

/-- The longest run of characters that pass, of which there is at least one. -/
def spanned (test : Char → Bool) (text : Text) : Option (Text × Text) :=
  if text.takeWhile test = [] then none else some (text.takeWhile test, text.dropWhile test)

theorem spanned_append_eq {test : Char → Bool} {front rest : Text} (pass : ∀ c ∈ front, test c)
    (stops : ∀ c ∈ rest.head?, ¬ test c) :
    spanned test (front ++ rest) = if front = [] then none else some (front, rest) := by
  have none : rest.takeWhile test = [] ∧ rest.dropWhile test = rest := by
    cases rest with
    | nil => exact ⟨rfl, rfl⟩
    | cons c rest =>
        have fails := stops c rfl
        exact ⟨List.takeWhile_cons_of_neg fails, List.dropWhile_cons_of_neg fails⟩
  rw [spanned, List.takeWhile_append_of_pos pass, List.dropWhile_append_of_pos pass, none.1,
    none.2, List.append_nil]

theorem spanned_append {test : Char → Bool} {front rest : Text} (nonempty : front ≠ [])
    (pass : ∀ c ∈ front, test c) (stops : ∀ c ∈ rest.head?, ¬ test c) :
    spanned test (front ++ rest) = some (front, rest) := by
  rw [spanned_append_eq pass stops, if_neg nonempty]

/-- A number of characters that pass. -/
def exactly (count : Nat) (test : Char → Bool) (text : Text) : Option (Text × Text) :=
  if (text.take count).length = count ∧ (text.take count).all test then
    some (text.take count, text.drop count)
  else
    none

/-- A text in upper or lower case. -/
def literal : Text → Text → Option Text
  | [], text => some text
  | _ :: _, [] => none
  | expected :: more, c :: text =>
      if expected.toLower = c.toLower then literal more text else none

theorem literal_append (expected rest : Text) :
    literal expected (expected ++ rest) = some rest := by
  induction expected with
  | nil => rfl
  | cons c expected ih => rw [List.cons_append, literal, if_pos rfl, ih]

/-- A text that differs in some place is not what is expected. -/
theorem literal_of_getElem? {expected text : Text} {i : Nat} {c : Char}
    (there : expected[i]? = some c) (other : ∀ d ∈ text[i]?, c.toLower ≠ d.toLower) :
    literal expected text = none := by
  induction i generalizing expected text with
  | zero =>
      cases expected with
      | nil => cases there
      | cons first expected =>
          cases there
          cases text with
          | nil => rfl
          | cons d text => rw [literal, if_neg (other d rfl)]
  | succ i ih =>
      cases expected with
      | nil => cases there
      | cons first expected =>
          cases text with
          | nil => rfl
          | cons d text =>
              rw [literal, ih there other]
              exact ite_self none

/-! ## Words -/

/-- The words between separators. -/
def words (separates : Char → Bool) (text : Text) : List Text :=
  (text.splitOnP separates).filter (· ≠ [])

/-- Words that are written with a separator behind each are read back. -/
theorem words_flatMap_concat {separates : Char → Bool} {separator : Char}
    (isSeparator : separates separator) {written : List Text}
    (whole : ∀ word ∈ written, word ≠ [] ∧ ∀ c ∈ word, ¬ separates c) :
    words separates (written.flatMap (· ++ [separator])) = written := by
  induction written with
  | nil => rfl
  | cons word written ih =>
      obtain ⟨⟨nonempty, inside⟩, rest⟩ := List.forall_mem_cons.mp whole
      have split : ((word :: written).flatMap (· ++ [separator])).splitOnP separates =
          word :: (written.flatMap (· ++ [separator])).splitOnP separates := by
        rw [List.flatMap_cons, List.append_assoc, List.singleton_append]
        exact List.splitOnP_append_cons_of_forall_mem
          (fun c member => Bool.eq_false_iff.mpr (inside c member)) separator isSeparator _
      have kept : decide (word ≠ []) = true := decide_eq_true nonempty
      rw [words, split, List.filter_cons, if_pos kept]
      exact congrArg (word :: ·) (ih rest)

/-- Words with a separator between them are read back. -/
theorem words_intercalate {separates : Char → Bool} {separator : Char}
    (isSeparator : separates separator) {written : List Text}
    (whole : ∀ word ∈ written, word ≠ [] ∧ ∀ c ∈ word, ¬ separates c) :
    words separates ([separator].intercalate written) = written := by
  induction written with
  | nil => rfl
  | cons word written ih =>
      obtain ⟨⟨nonempty, inside⟩, rest⟩ := List.forall_mem_cons.mp whole
      have within : ∀ c ∈ word, separates c = false :=
        fun c member => Bool.eq_false_iff.mpr (inside c member)
      have kept : decide (word ≠ []) = true := decide_eq_true nonempty
      cases written with
      | nil =>
          rw [List.intercalate_singleton, words, List.splitOnP_eq_singleton within,
            List.filter_cons, if_pos kept]
          rfl
      | cons next written =>
          rw [List.intercalate_cons_cons, words, List.append_assoc, List.singleton_append,
            List.splitOnP_append_cons_of_forall_mem within separator isSeparator,
            List.filter_cons, if_pos kept]
          exact congrArg (word :: ·) (ih rest)

/-! ## Numbers -/

/-- The decimal digits of a number. -/
def decimal (n : Nat) : Text :=
  Nat.toDigits 10 n

/-- The number that decimal digits stand for. -/
def ofDecimal (digits : Text) : Nat :=
  Nat.ofDigitChars 10 digits 0

@[simp]
theorem ofDecimal_decimal (n : Nat) : ofDecimal (decimal n) = n :=
  Nat.ofDigitChars_ten_toDigits

theorem decimal_ne_nil (n : Nat) : decimal n ≠ [] :=
  Nat.toDigits_ne_nil

theorem isDigit_of_mem_decimal {n : Nat} {c : Char} (member : c ∈ decimal n) : c.isDigit :=
  Nat.isDigit_of_mem_toDigits (by decide) (by decide) member

/-- A number in front of something else is taken whole. -/
theorem spanned_decimal (n : Nat) {rest : Text} (stops : ∀ c ∈ rest.head?, ¬ c.isDigit) :
    spanned Char.isDigit (decimal n ++ rest) = some (decimal n, rest) :=
  spanned_append (decimal_ne_nil n) (fun _ => isDigit_of_mem_decimal) stops

end Elevator.Sequence
