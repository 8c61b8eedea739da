import Elevator.Report.Script

/-!
# What the script reads of a harness

A transcript is made of the outputs of harnesses and of date stamps between them.  The
lines that threads print among the results, in whatever order, do not disturb the
script: of an output it takes the store, the server and the aggregate results that are
not empty, and the configuration if the harness did not replay.
-/

namespace Elevator.Report

open Transition Sequence

/-! ## Outputs -/

/-- A word that the script can find again. -/
abbrev Name : Type :=
  { t : Text // t ≠ [] ∧ ∀ c ∈ t, ¬ isSpace c }

theorem forall_not_isSpace {t : Text} (spaceless : t.all (!isSpace ·)) :
    ∀ c ∈ t, ¬ isSpace c := by
  intro c member
  simpa using List.all_eq_true.mp spaceless c member

/-- A text on one line. -/
abbrev Line : Type :=
  { t : Text // '\n' ∉ t }

/-- The rate at which a harness submits its requests. -/
inductive Mode
  | rate (requestRate : Nat)
  | replay (multiplier : Line)

/-- The line that names the store and the server. -/
def harnessText (store server : Text) : Text :=
  "Adobe Visitor Profile Storage Test Harness 1.2 using ".toList ++
    (store ++ (" on ".toList ++ server))

/-- The line of the configuration. -/
def configText (threads requests more : Text) : Text :=
  "Config: threads = ".toList ++ (threads ++ ("; requests = ".toList ++ (requests ++ more)))

def rateText (requestRate : Text) : Text :=
  "; request rate = ".toList ++ requestRate

/-- A line of results. -/
def resultText (number : Nat) (name results : Text) : Text :=
  decimal number ++ (": aggregate ".toList ++ name ++ " = ".toList ++ results)

/-- `operator<<` of a vector. -/
def vector (values : List Nat) : Text :=
  (values.map decimal).flatMap (· ++ [' '])

/-- What threads print, and `main` when it creates them. -/
inductive ThreadLine
  | creating (pid : Nat)
  | alive (pid time : Nat)
  | done (pid time : Nat)
  | rate (pid : Nat) (values : List Nat)
  | readAvgNS (pid : Nat) (values : List Nat)
  | writeAvgNS (pid : Nat) (values : List Nat)

def ThreadLine.text (parentPid : Nat) : ThreadLine → Text
  | creating pid => decimal parentPid ++ (": Creating thread ".toList ++ decimal pid)
  | alive pid time =>
      decimal parentPid ++
        (": Child ".toList ++ (decimal pid ++ (" is alive at ".toList ++ decimal time)))
  | done pid time =>
      decimal parentPid ++
        (": Child ".toList ++ (decimal pid ++ (" is done at ".toList ++ decimal time)))
  | rate pid values =>
      decimal parentPid ++ ('-' :: (decimal pid ++ (": rate = ".toList ++ vector values)))
  | readAvgNS pid values =>
      decimal parentPid ++ ('-' :: (decimal pid ++ (": readAvgNS = ".toList ++ vector values)))
  | writeAvgNS pid values =>
      decimal parentPid ++ ('-' :: (decimal pid ++ (": writeAvgNS = ".toList ++ vector values)))

/-- What a harness prints. -/
structure Output where
  engine : Name
  hostname : Name
  configFile : Option Line
  threads : Nat
  requests : Nat
  mode : Mode
  parentPid : Nat
  threadLines : List ThreadLine
  aggregateRate : List Nat
  aggregateReadTimer : List Nat
  aggregateWriteTimer : List Nat

namespace Output

def harnessLine (o : Output) : Text :=
  harnessText o.engine.1 o.hostname.1

def modeText : Mode → Text
  | .rate requestRate => rateText (decimal requestRate)
  | .replay multiplier => "; replay multiplier = ".toList ++ multiplier.1

def configLine (o : Output) : Text :=
  configText (decimal o.threads) (decimal o.requests) (modeText o.mode)

def aggregateLine (o : Output) (name : Text) (values : List Nat) : Text :=
  resultText o.parentPid name (vector values)

def lines (o : Output) : List Text :=
  [o.harnessLine, []] ++
    ((o.configFile.map fun source => "Reading config from ".toList ++ source.1).toList ++
      ([o.configLine, []] ++
        (o.threadLines.map (ThreadLine.text o.parentPid) ++
          [[], o.aggregateLine "rate".toList o.aggregateRate,
            o.aggregateLine "readAvgNS".toList o.aggregateReadTimer,
            o.aggregateLine "writeAvgNS".toList o.aggregateWriteTimer])))

end Output

/-- A line that the script takes for a date stamp. -/
structure Stamp where
  line : Line
  time : Nat
  read : matchStamp line.1 = some time

/-- In a line that is none of these the patterns find nothing. -/
def Quiet (line : Text) : Prop :=
  found line = {}

/-- A part of a transcript. -/
inductive Part
  | stamp (s : Stamp)
  | output (o : Output)
  | other (line : Line) (quiet : Quiet line.1)

def Part.lines : Part → List Text
  | .stamp s => [s.line.1]
  | .output o => o.lines
  | .other line _ => [line.1]

/-! ## Patterns that do not match -/

theorem toLower_of_isDigit {c : Char} (digit : c.isDigit) : c.toLower = c := by
  have bounds := Char.isDigit_iff_toNat.mp digit
  apply dif_neg
  rintro ⟨above, -⟩
  have low := UInt32.le_iff_toNat_le.mp above
  have upper : ('A'.val).toNat = 65 := rfl
  have nine : '9'.toNat = 57 := rfl
  have same : c.val.toNat = c.toNat := rfl
  omega

theorem exactly_cases (count : Nat) (test : Char → Bool) (text : Text) :
    exactly count test text = none ∨
      exactly count test text = some (text.take count, text.drop count) := by
  rw [exactly]
  split
  · exact Or.inr rfl
  · exact Or.inl rfl

theorem char_of_head? {expected : Char} {text : Text} (other : text.head? ≠ some expected) :
    char expected text = none := by
  cases text with
  | nil => rfl
  | cons c rest =>
      have differs : c ≠ expected := fun same => other (congrArg some same)
      simp [char, exactly, differs]

theorem char_eq_drop {expected : Char} {text : Text} (first : text.head? = some expected) :
    char expected text = some (text.drop 1) := by
  cases text with
  | nil => cases first
  | cons c rest =>
      cases first
      simp [char, exactly]

/-- A stamp has a space behind its first word. -/
theorem matchStamp_of_third {text : Text} (third : text[3]? ≠ some ' ') :
    matchStamp text = none := by
  rw [← List.head?_drop] at third
  rw [matchStamp]
  rcases exactly_cases 3 (!isSpace ·) text with missing | taken
  · rw [missing]
    rfl
  · rw [taken]
    dsimp only [Option.bind_eq_bind, Option.bind_some]
    rw [char_of_head? third]
    rfl

/-- A stamp has a space behind its second word. -/
theorem matchStamp_of_seventh {text : Text} (seventh : text[7]? ≠ some ' ') :
    matchStamp text = none := by
  by_cases third : text[3]? = some ' '
  · rw [← List.head?_drop] at third seventh
    rw [matchStamp]
    rcases exactly_cases 3 (!isSpace ·) text with missing | taken
    · rw [missing]
      rfl
    · rw [taken]
      dsimp only [Option.bind_eq_bind, Option.bind_some]
      rw [char_eq_drop third, List.drop_drop]
      dsimp only [Option.bind_some]
      rcases exactly_cases 3 (!isSpace ·) (text.drop (3 + 1)) with missing | taken
      · rw [missing]
        rfl
      · rw [taken, List.drop_drop]
        dsimp only [Option.bind_some]
        rw [char_of_head? seventh]
        rfl
  · exact matchStamp_of_third third

/-- Where the spaces of a stamp would be behind a number. -/
theorem space_behind_digits {digits rest : Text} (nonempty : digits ≠ [])
    (pass : ∀ c ∈ digits, c.isDigit) (third : (digits ++ rest)[3]? = some ' ')
    (seventh : (digits ++ rest)[7]? = some ' ') :
    rest[0]? = some ' ' ∨ rest[2]? = some ' ' ∨ rest[1]? = some ' ' ∧ rest[5]? = some ' ' := by
  rcases digits with _ | ⟨a, _ | ⟨b, _ | ⟨c, _ | ⟨d, digits⟩⟩⟩⟩
  · contradiction
  · exact Or.inr (Or.inl third)
  · exact Or.inr (Or.inr ⟨third, seventh⟩)
  · exact Or.inl third
  · cases third
    exact absurd (pass ' ' (by simp)) (by decide)

/-! ## Stamps -/

theorem Stamp.third (s : Stamp) : s.line.1[3]? = some ' ' := by
  by_contra other
  have read := s.read
  rw [matchStamp_of_third other] at read
  cases read

theorem Stamp.seventh (s : Stamp) : s.line.1[7]? = some ' ' := by
  by_contra other
  have read := s.read
  rw [matchStamp_of_seventh other] at read
  cases read

theorem literal_of_space {expected text : Text} {i : Nat} {c : Char}
    (there : expected[i]? = some c) (space : text[i]? = some ' ') (other : c.toLower ≠ ' ') :
    literal expected text = none := by
  apply literal_of_getElem? there
  intro d found
  rw [space] at found
  cases found
  exact other

theorem Stamp.matchHarness (s : Stamp) : matchHarness s.line.1 = none := by
  rw [Report.matchHarness, @literal_of_space _ _ 3 'b' rfl s.third (by decide)]
  rfl

theorem Stamp.matchConfig (s : Stamp) : matchConfig s.line.1 = none := by
  rw [Report.matchConfig, @literal_of_space _ _ 3 'f' rfl s.third (by decide)]
  rfl

theorem Stamp.matchAggregate (s : Stamp) (name : Text) : matchAggregate name s.line.1 = none := by
  rw [Report.matchAggregate, spanned]
  split
  · rfl
  · rename_i nonempty
    have whole : s.line.1.takeWhile Char.isDigit ++ s.line.1.dropWhile Char.isDigit = s.line.1 :=
      List.takeWhile_append_dropWhile
    have spaces := space_behind_digits nonempty
      (fun c member => List.all_eq_true.mp List.all_takeWhile c member)
      (whole.symm ▸ s.third) (whole.symm ▸ s.seventh)
    have differs : literal (": aggregate ".toList ++ name ++ " = ".toList)
        (s.line.1.dropWhile Char.isDigit) = none := by
      rcases spaces with first | third | ⟨-, sixth⟩
      · exact @literal_of_space _ _ 0 ':' rfl first (by decide)
      · exact @literal_of_space _ _ 2 'a' rfl third (by decide)
      · exact @literal_of_space _ _ 5 'r' rfl sixth (by decide)
    dsimp only [Option.bind_eq_bind, Option.bind_some]
    rw [differs]
    rfl

/-- A stamp is nothing but a stamp. -/
theorem Stamp.found (s : Stamp) : found s.line.1 = { stamp := some s.time } := by
  rw [Report.found, s.read, s.matchHarness, s.matchConfig, s.matchAggregate, s.matchAggregate,
    s.matchAggregate]

/-! ## Lines that say nothing -/

theorem quiet_of {line : Text} (stamp : matchStamp line = none)
    (harness : matchHarness line = none) (config : matchConfig line = none)
    (aggregate : ∀ name, matchAggregate name line = none) : Quiet line := by
  rw [Quiet, found, stamp, harness, config, aggregate, aggregate, aggregate]

theorem quiet_nil : Quiet [] :=
  quiet_of rfl rfl rfl fun _ => rfl

theorem quiet_reading (source : Text) : Quiet ("Reading config from ".toList ++ source) :=
  quiet_of (matchStamp_of_third fun same => by cases same) rfl rfl fun _ => rfl

/-! ## Lines that begin with a number -/

section Numbered

variable (n : Nat) {rest : Text}

theorem isDigit_of_first {c : Char} (first : (decimal n ++ rest)[0]? = some c) : c.isDigit := by
  cases digits : decimal n with
  | nil => exact absurd digits (decimal_ne_nil n)
  | cons d more =>
      rw [digits] at first
      cases first
      exact isDigit_of_mem_decimal (digits ▸ List.mem_cons_self)

/-- A pattern that opens with a letter does not match a number. -/
theorem literal_of_decimal {expected : Char} {more : Text}
    (letter : expected.toLower.isDigit = false) :
    literal (expected :: more) (decimal n ++ rest) = none := by
  apply @literal_of_getElem? _ _ 0 expected rfl
  intro d first same
  have digit := isDigit_of_first n first
  rw [same, toLower_of_isDigit digit, digit] at letter
  cases letter

theorem matchHarness_of_decimal : matchHarness (decimal n ++ rest) = none := by
  have differs := @literal_of_decimal n rest 'A'
    "dobe Visitor Profile Storage Test Harness 1".toList rfl
  rw [matchHarness, show "Adobe Visitor Profile Storage Test Harness 1".toList =
    'A' :: "dobe Visitor Profile Storage Test Harness 1".toList from rfl, differs]
  rfl

theorem matchConfig_of_decimal : matchConfig (decimal n ++ rest) = none := by
  have differs := @literal_of_decimal n rest 'C' "onfig: threads = ".toList rfl
  rw [matchConfig, show "Config: threads = ".toList = 'C' :: "onfig: threads = ".toList from rfl,
    differs]
  rfl

theorem matchStamp_of_decimal
    (other : ¬ (rest[0]? = some ' ' ∨ rest[2]? = some ' ' ∨
      rest[1]? = some ' ' ∧ rest[5]? = some ' ')) : matchStamp (decimal n ++ rest) = none := by
  by_cases third : (decimal n ++ rest)[3]? = some ' '
  · apply matchStamp_of_seventh
    intro seventh
    exact other (space_behind_digits (decimal_ne_nil n) (fun _ => isDigit_of_mem_decimal) third
      seventh)
  · exact matchStamp_of_third third

theorem matchAggregate_decimal (stops : ∀ c ∈ rest.head?, ¬ c.isDigit) (name : Text) :
    matchAggregate name (decimal n ++ rest) =
      (literal (": aggregate ".toList ++ name ++ " = ".toList) rest).bind matchNumbers := by
  rw [matchAggregate, spanned_decimal n stops]
  rfl

/-- A number with something behind it that is neither a stamp nor an aggregate result. -/
theorem quiet_of_decimal (stops : ∀ c ∈ rest.head?, ¬ c.isDigit)
    (other : ¬ (rest[0]? = some ' ' ∨ rest[2]? = some ' ' ∨
      rest[1]? = some ' ' ∧ rest[5]? = some ' '))
    (differs : ∀ name, literal (": aggregate ".toList ++ name ++ " = ".toList) rest = none) :
    Quiet (decimal n ++ rest) := by
  apply quiet_of (matchStamp_of_decimal n other) (matchHarness_of_decimal n)
    (matchConfig_of_decimal n)
  intro name
  rw [matchAggregate_decimal n stops, differs]
  rfl

end Numbered

/-- What a thread prints of its own results. -/
theorem quiet_of_child (parentPid pid : Nat) (more : Text) :
    Quiet (decimal parentPid ++ ('-' :: (decimal pid ++ (':' :: more)))) := by
  apply quiet_of_decimal
  · rintro c ⟨⟩
    decide
  · rintro (first | third | ⟨second, -⟩)
    · cases first
    · rcases digits : decimal pid with _ | ⟨a, _ | ⟨b, digits'⟩⟩
      · exact decimal_ne_nil pid digits
      · rw [digits] at third
        cases third
      · rw [digits] at third
        cases third
        have digit : (' ' : Char).isDigit :=
          isDigit_of_mem_decimal (n := pid) (digits ▸ List.mem_cons_of_mem _ List.mem_cons_self)
        cases digit
    · have digit := isDigit_of_first pid second
      cases digit
  · exact fun _ => rfl

/-- What the parent prints of a thread, or the thread of itself. -/
theorem quiet_of_parent (parentPid : Nat) {more : Text} (sixth : more[2]? ≠ some ' ') :
    Quiet (decimal parentPid ++ (':' :: ' ' :: 'C' :: more)) := by
  apply quiet_of_decimal
  · rintro c ⟨⟩
    decide
  · rintro (first | third | ⟨-, space⟩)
    · cases first
    · cases third
    · exact sixth space
  · exact fun _ => rfl

theorem ThreadLine.quiet (parentPid : Nat) (line : ThreadLine) : Quiet (line.text parentPid) := by
  cases line with
  | creating pid => exact quiet_of_parent parentPid fun same => by cases same
  | alive pid time => exact quiet_of_parent parentPid fun same => by cases same
  | done pid time => exact quiet_of_parent parentPid fun same => by cases same
  | rate pid values => exact quiet_of_child parentPid pid _
  | readAvgNS pid values => exact quiet_of_child parentPid pid _
  | writeAvgNS pid values => exact quiet_of_child parentPid pid _

/-! ## Results -/

/-- A result is read under its own name. -/
theorem matchAggregate_resultText (number : Nat) (name results : Text) :
    matchAggregate name (resultText number name results) = matchNumbers results := by
  rw [resultText, matchAggregate_decimal, literal_append]
  · rfl
  · rintro c ⟨⟩
    decide

theorem resultText_eq (number : Nat) (name results : Text) :
    resultText number name results =
      decimal number ++ (": aggregate ".toList ++ (name ++ (" = ".toList ++ results))) := by
  simp only [resultText, List.append_assoc]

/-- A result is not read under another name. -/
theorem matchAggregate_other (number : Nat) {name name' results : Text}
    (differs : literal (name' ++ " = ".toList) (name ++ (" = ".toList ++ results)) = none) :
    matchAggregate name' (resultText number name results) = none := by
  rw [resultText_eq, matchAggregate_decimal]
  · have other : literal (": aggregate ".toList ++ name' ++ " = ".toList)
        (": aggregate ".toList ++ (name ++ (" = ".toList ++ results))) = none := differs
    rw [other]
    rfl
  · rintro c ⟨⟩
    decide

theorem matchStamp_resultText (number : Nat) (name results : Text) :
    matchStamp (resultText number name results) = none := by
  rw [resultText_eq]
  apply matchStamp_of_decimal
  rintro (same | same | ⟨-, same⟩) <;> cases same

theorem matchHarness_resultText (number : Nat) (name results : Text) :
    matchHarness (resultText number name results) = none :=
  matchHarness_of_decimal number

theorem matchConfig_resultText (number : Nat) (name results : Text) :
    matchConfig (resultText number name results) = none :=
  matchConfig_of_decimal number

theorem found_rate (number : Nat) (results : Text) :
    found (resultText number "rate".toList results) = { rate := matchNumbers results } := by
  rw [found, matchStamp_resultText, matchHarness_resultText, matchConfig_resultText,
    matchAggregate_resultText, matchAggregate_other number rfl, matchAggregate_other number rfl]

theorem found_readAvgNS (number : Nat) (results : Text) :
    found (resultText number "readAvgNS".toList results) =
      { readAvgNS := matchNumbers results } := by
  rw [found, matchStamp_resultText, matchHarness_resultText, matchConfig_resultText,
    matchAggregate_resultText, matchAggregate_other number rfl, matchAggregate_other number rfl]

theorem found_writeAvgNS (number : Nat) (results : Text) :
    found (resultText number "writeAvgNS".toList results) =
      { writeAvgNS := matchNumbers results } := by
  rw [found, matchStamp_resultText, matchHarness_resultText, matchConfig_resultText,
    matchAggregate_resultText, matchAggregate_other number rfl, matchAggregate_other number rfl]

/-! ## Numbers -/

theorem not_isSpace_decimal {n : Nat} {c : Char} (digit : c ∈ decimal n) : ¬ isSpace c := by
  intro space
  have isDigit := isDigit_of_mem_decimal digit
  simp only [isSpace, List.mem_cons, List.not_mem_nil, or_false, decide_eq_true_eq] at space
  rcases space with rfl | rfl | rfl | rfl | rfl | rfl <;> cases isDigit

theorem words_decimal {values : List Nat} : ∀ word ∈ values.map decimal,
    word ≠ [] ∧ ∀ c ∈ word, ¬ isSpace c := by
  intro word member
  obtain ⟨n, -, rfl⟩ := List.mem_map.mp member
  exact ⟨decimal_ne_nil n, fun c => not_isSpace_decimal⟩

/-- Numbers are found in a text that opens with the first of them. -/
theorem matchNumbers_decimal {n : Nat} {values : List Nat} {more : Text}
    (read : words isSpace (decimal n ++ more) = (n :: values).map decimal) :
    matchNumbers (decimal n ++ more) = some ((n :: values).map decimal) := by
  have digits : ((n :: values).map decimal).all (·.all Char.isDigit) := by
    rw [List.all_map, List.all_eq_true]
    exact fun n _ => List.all_eq_true.mpr fun c => isDigit_of_mem_decimal
  have first : (decimal n ++ more).head?.any Char.isDigit := by
    cases opens : decimal n with
    | nil => exact absurd opens (decimal_ne_nil n)
    | cons c rest => exact isDigit_of_mem_decimal (opens ▸ List.mem_cons_self)
  rw [matchNumbers, read, if_pos ⟨first, digits⟩]

/-- The numbers that are found of a vector. -/
def numbers (values : List Nat) : Option (List Text) :=
  if values = [] then none else some (values.map decimal)

/-- The numbers of a vector are read back, if there are any. -/
theorem matchNumbers_vector (values : List Nat) :
    matchNumbers (vector values) = numbers values := by
  cases values with
  | nil => rfl
  | cons n values =>
      have read : words isSpace (vector (n :: values)) = (n :: values).map decimal :=
        words_flatMap_concat rfl words_decimal
      have opens : vector (n :: values) = decimal n ++ (' ' :: vector values) := by
        rw [vector, List.map_cons, List.flatMap_cons, List.append_assoc]
        rfl
      rw [opens] at read ⊢
      rw [matchNumbers_decimal read, numbers, if_neg (List.cons_ne_nil n values)]

/-! ## Headings -/

/-- The store and the server are found if neither is empty. -/
theorem matchHarness_harnessText {store server : Text} (spaceless : ∀ c ∈ store, ¬ isSpace c)
    (spaceless' : ∀ c ∈ server, ¬ isSpace c) :
    matchHarness (harnessText store server) =
      if store ≠ [] ∧ server ≠ [] then some (store, server) else none := by
  have front : spanned (!isSpace ·) (store ++ (" on ".toList ++ server)) =
      if store = [] then none else some (store, " on ".toList ++ server) := by
    apply spanned_append_eq fun c member => by simp [spaceless c member]
    rintro c ⟨⟩
    decide
  have behind : spanned (!isSpace ·) server = if server = [] then none else some (server, []) := by
    have whole := @spanned_append_eq (!isSpace ·) server []
      (fun c member => by simp [spaceless' c member]) (fun _ none => by cases none)
    rwa [List.append_nil] at whole
  have version : "Adobe Visitor Profile Storage Test Harness 1.2 using ".toList =
      "Adobe Visitor Profile Storage Test Harness 1".toList ++ (['.'] ++ "2 using ".toList) := rfl
  have dot (rest : Text) : exactly 1 (· ≠ '\n') (['.'] ++ rest) = some (['.'], rest) := rfl
  have opens : harnessText store server = "Adobe Visitor Profile Storage Test Harness 1".toList ++
      (['.'] ++ ("2 using ".toList ++ (store ++ (" on ".toList ++ server)))) := by
    rw [← List.append_assoc ['.'], ← List.append_assoc, ← version]
    rfl
  rw [matchHarness, opens, literal_append]
  dsimp only [Option.bind_eq_bind, Option.bind_some]
  rw [dot]
  dsimp only [Option.bind_some]
  rw [literal_append]
  dsimp only [Option.bind_some]
  rw [front]
  by_cases unnamed : store = []
  · rw [if_pos unnamed, if_neg fun both => both.1 unnamed]
    rfl
  · rw [if_neg unnamed]
    dsimp only [Option.bind_some]
    rw [literal_append]
    dsimp only [Option.bind_some]
    rw [behind]
    by_cases nowhere : server = []
    · rw [if_pos nowhere, if_neg fun both => both.2 nowhere]
      rfl
    · rw [if_neg nowhere, if_pos ⟨unnamed, nowhere⟩]
      rfl

theorem found_harnessText {store server : Text} (spaceless : ∀ c ∈ store, ¬ isSpace c)
    (spaceless' : ∀ c ∈ server, ¬ isSpace c) :
    found (harnessText store server) =
      { harness := if store ≠ [] ∧ server ≠ [] then some (store, server) else none } := by
  have stamp : matchStamp (harnessText store server) = none :=
    matchStamp_of_third fun same => by cases same
  rw [found, stamp, matchHarness_harnessText spaceless spaceless']
  rfl

section Configuration

variable {threads requests : Text}

theorem spanned_semicolon {digits : Text} (pass : ∀ c ∈ digits, c.isDigit) (rest : Text) :
    spanned Char.isDigit (digits ++ (';' :: rest)) =
      if digits = [] then none else some (digits, ';' :: rest) := by
  apply spanned_append_eq pass
  rintro c ⟨⟩
  decide

/-- What follows the threads and the requests of a configuration. -/
theorem matchConfig_configText (pass : ∀ c ∈ threads, c.isDigit)
    (pass' : ∀ c ∈ requests, c.isDigit) (more : Text) :
    matchConfig (configText threads requests (';' :: more)) =
      if threads ≠ [] ∧ requests ≠ [] then
        (literal "; request rate = ".toList (';' :: more)).bind fun text =>
          (spanned Char.isDigit text).map fun rate => (threads, requests, rate.1)
      else
        none := by
  have front : spanned Char.isDigit
      (threads ++ ("; requests = ".toList ++ (requests ++ (';' :: more)))) =
        if threads = [] then none
        else some (threads, "; requests = ".toList ++ (requests ++ (';' :: more))) :=
    spanned_semicolon pass _
  have opens : configText threads requests (';' :: more) = "Config: threads = ".toList ++
      (threads ++ ("; requests = ".toList ++ (requests ++ (';' :: more)))) := rfl
  rw [matchConfig, opens, literal_append]
  dsimp only [Option.bind_eq_bind, Option.bind_some]
  rw [front]
  by_cases none : threads = []
  · rw [if_pos none, if_neg fun both => both.1 none]
    rfl
  · rw [if_neg none]
    dsimp only [Option.bind_some]
    rw [literal_append]
    dsimp only [Option.bind_some]
    rw [spanned_semicolon pass']
    by_cases none' : requests = []
    · rw [if_pos none', if_neg fun both => both.2 none']
      rfl
    · rw [if_neg none', if_pos ⟨none, none'⟩]
      dsimp only [Option.bind_some]
      cases literal "; request rate = ".toList (';' :: more) with
      | none => rfl
      | some text =>
          dsimp only [Option.bind_some]
          cases spanned Char.isDigit text <;> rfl

/-- The configuration with a request rate is found if nothing of it is empty. -/
theorem matchConfig_rateText {requestRate : Text} (pass : ∀ c ∈ threads, c.isDigit)
    (pass' : ∀ c ∈ requests, c.isDigit) (pass'' : ∀ c ∈ requestRate, c.isDigit) :
    matchConfig (configText threads requests (rateText requestRate)) =
      if threads ≠ [] ∧ requests ≠ [] ∧ requestRate ≠ [] then
        some (threads, requests, requestRate)
      else
        none := by
  have behind : spanned Char.isDigit requestRate =
      if requestRate = [] then none else some (requestRate, []) := by
    have whole := @spanned_append_eq Char.isDigit requestRate [] pass'' fun _ none => by cases none
    rwa [List.append_nil] at whole
  have read : literal "; request rate = ".toList
      (';' :: (" request rate = ".toList ++ requestRate)) = some requestRate :=
    literal_append "; request rate = ".toList requestRate
  have text : rateText requestRate = ';' :: (" request rate = ".toList ++ requestRate) := rfl
  rw [text, matchConfig_configText pass pass', read, Option.bind_some, behind]
  by_cases both : threads ≠ [] ∧ requests ≠ []
  · rw [if_pos both]
    by_cases none : requestRate = []
    · rw [if_pos none, if_neg fun all => all.2.2 none]
      rfl
    · rw [if_neg none, if_pos ⟨both.1, both.2, none⟩]
      rfl
  · rw [if_neg both, if_neg fun all => both ⟨all.1, all.2.1⟩]

theorem found_configText (threads requests more : Text) :
    found (configText threads requests more) =
      { config := matchConfig (configText threads requests more) } := by
  have stamp : matchStamp (configText threads requests more) = none :=
    matchStamp_of_third fun same => by cases same
  rw [found, stamp]
  rfl

end Configuration

namespace Output

variable (o : Output)

theorem found_harnessLine :
    found o.harnessLine = { harness := some (o.engine.1, o.hostname.1) } := by
  rw [harnessLine, found_harnessText o.engine.2.2 o.hostname.2.2,
    if_pos ⟨o.engine.2.1, o.hostname.2.1⟩]

/-- The configuration of a replay is not found. -/
def config : Option (Text × Text × Text) :=
  match o.mode with
  | .rate requestRate => some (decimal o.threads, decimal o.requests, decimal requestRate)
  | .replay _ => none

theorem matchConfig_configLine : matchConfig o.configLine = o.config := by
  have digits (n : Nat) : ∀ c ∈ decimal n, c.isDigit := fun _ => isDigit_of_mem_decimal
  rw [configLine, config]
  cases o.mode with
  | rate requestRate =>
      have read := matchConfig_rateText (digits o.threads) (digits o.requests) (digits requestRate)
      rw [if_pos ⟨decimal_ne_nil _, decimal_ne_nil _, decimal_ne_nil _⟩] at read
      exact read
  | replay multiplier =>
      have text : modeText (.replay multiplier) =
          ';' :: (" replay multiplier = ".toList ++ multiplier.1) := rfl
      have other : literal "; request rate = ".toList
          (';' :: (" replay multiplier = ".toList ++ multiplier.1)) = none := rfl
      rw [text, matchConfig_configText (digits _) (digits _), other]
      exact if_pos ⟨decimal_ne_nil _, decimal_ne_nil _⟩

theorem found_configLine : found o.configLine = { config := o.config } := by
  rw [← o.matchConfig_configLine]
  exact found_configText _ _ _

end Output

/-! ## The transcript -/

/-- What the patterns find in a part, line by line. -/
def Part.found : Part → List Found
  | .stamp s => [{ stamp := some s.time }]
  | .output o =>
      [{ harness := some (o.engine.1, o.hostname.1) }, { config := o.config },
        { rate := numbers o.aggregateRate }, { readAvgNS := numbers o.aggregateReadTimer },
        { writeAvgNS := numbers o.aggregateWriteTimer }]
  | .other _ _ => []

/-- In lines that say nothing nothing is found. -/
theorem filter_found_quiet {lines : List Text} (quiet : ∀ line ∈ lines, Quiet line) :
    (lines.map found).filter (· ≠ {}) = [] := by
  rw [List.filter_eq_nil_iff]
  intro finding member
  obtain ⟨line, inside, rfl⟩ := List.mem_map.mp member
  simpa using show found line = {} from quiet line inside

/-- Whatever threads print among the results, nothing is found in it. -/
theorem Part.filter_found (part : Part) :
    (part.lines.map Report.found).filter (· ≠ {}) = part.found.filter (· ≠ {}) := by
  cases part with
  | stamp stamp => rw [Part.lines, Part.found, List.map_singleton, stamp.found]
  | output o =>
      have config : ∀ line ∈ (o.configFile.map fun source =>
          "Reading config from ".toList ++ source.1).toList, Quiet line := by
        intro line member
        obtain ⟨source, -, rfl⟩ := Option.map_eq_some_iff.mp (Option.mem_toList.mp member)
        exact quiet_reading source.1
      have threads : ∀ line ∈ o.threadLines.map (ThreadLine.text o.parentPid), Quiet line := by
        intro line member
        obtain ⟨threadLine, -, rfl⟩ := List.mem_map.mp member
        exact threadLine.quiet o.parentPid
      have empty : Report.found [] = {} := quiet_nil
      rw [Part.lines, Output.lines, List.map_append, List.map_append, List.map_append,
        List.map_append, List.filter_append, List.filter_append, List.filter_append,
        List.filter_append, filter_found_quiet config, filter_found_quiet threads]
      simp only [List.map_cons, List.map_nil, empty, o.found_harnessLine, o.found_configLine,
        Output.aggregateLine, found_rate, found_readAvgNS, found_writeAvgNS,
        matchNumbers_vector, Part.found, List.filter_cons, List.filter_nil, List.nil_append]
      simp only [ne_eq, not_true_eq_false, decide_false, Bool.false_eq_true, if_false]
      split <;> split <;> rfl
  | other line quiet =>
      exact filter_found_quiet fun line' member => List.mem_singleton.mp member ▸ quiet

/-! ## Its text -/

def Part.text (part : Part) : Text :=
  part.lines.flatMap (· ++ ['\n'])

@[simp]
theorem newline_not_mem_decimal (n : Nat) : '\n' ∉ decimal n := by
  intro member
  have digit := isDigit_of_mem_decimal member
  cases digit

@[simp]
theorem newline_not_mem_vector (values : List Nat) : '\n' ∉ vector values := by
  simp [vector]

theorem newline_not_mem_name (name : Name) : '\n' ∉ name.1 :=
  fun member => name.2.2 _ member (by decide)

theorem whole_append {first second : Text} (whole : '\n' ∉ first) (whole' : '\n' ∉ second) :
    '\n' ∉ first ++ second := by
  rw [List.mem_append, not_or]
  exact ⟨whole, whole'⟩

theorem whole_harnessText {store server : Text} (whole : '\n' ∉ store) (whole' : '\n' ∉ server) :
    '\n' ∉ harnessText store server :=
  whole_append (by decide) (whole_append whole (whole_append (by decide) whole'))

theorem whole_configText {threads requests more : Text} (whole : '\n' ∉ threads)
    (whole' : '\n' ∉ requests) (whole'' : '\n' ∉ more) :
    '\n' ∉ configText threads requests more :=
  whole_append (by decide) (whole_append whole (whole_append (by decide)
    (whole_append whole' whole'')))

theorem whole_rateText {requestRate : Text} (whole : '\n' ∉ requestRate) :
    '\n' ∉ rateText requestRate :=
  whole_append (by decide) whole

theorem whole_resultText (number : Nat) {name results : Text} (whole : '\n' ∉ name)
    (whole' : '\n' ∉ results) : '\n' ∉ resultText number name results :=
  whole_append (newline_not_mem_decimal number) (whole_append (whole_append (whole_append
    (by decide) whole) (by decide)) whole')

theorem Output.whole_modeText (mode : Mode) : '\n' ∉ modeText mode := by
  cases mode with
  | rate requestRate => exact whole_rateText (newline_not_mem_decimal requestRate)
  | replay multiplier => exact whole_append (by decide) multiplier.2

theorem ThreadLine.whole (parentPid : Nat) (line : ThreadLine) : '\n' ∉ line.text parentPid := by
  cases line <;> simp [ThreadLine.text]

/-- No line of a part goes on in the next. -/
theorem Part.newline_not_mem (part : Part) : ∀ line ∈ part.lines, '\n' ∉ line := by
  cases part with
  | stamp stamp => simpa [lines] using stamp.line.2
  | other line quiet => simpa [lines] using line.2
  | output o =>
      have config : ∀ line ∈ (o.configFile.map fun source =>
          "Reading config from ".toList ++ source.1).toList, '\n' ∉ line := by
        intro line member
        obtain ⟨source, -, rfl⟩ := Option.map_eq_some_iff.mp (Option.mem_toList.mp member)
        exact whole_append (by decide) source.2
      have threads : ∀ line ∈ o.threadLines.map (ThreadLine.text o.parentPid), '\n' ∉ line := by
        intro line member
        obtain ⟨threadLine, -, rfl⟩ := List.mem_map.mp member
        exact threadLine.whole o.parentPid
      intro line member
      simp only [lines, Output.lines, List.mem_append, List.mem_cons, List.not_mem_nil,
        or_false] at member
      rcases member with (rfl | rfl) | member | (rfl | rfl) | member | rfl | rfl | rfl | rfl
      · exact whole_harnessText (newline_not_mem_name _) (newline_not_mem_name _)
      · exact List.not_mem_nil
      · exact config line member
      · exact whole_configText (newline_not_mem_decimal _) (newline_not_mem_decimal _)
          (Output.whole_modeText _)
      · exact List.not_mem_nil
      · exact threads line member
      · exact List.not_mem_nil
      · exact whole_resultText _ (by decide) (newline_not_mem_vector _)
      · exact whole_resultText _ (by decide) (newline_not_mem_vector _)
      · exact whole_resultText _ (by decide) (newline_not_mem_vector _)

/-- Whole lines are read back. -/
theorem lines_written {written : List Text} (whole : ∀ line ∈ written, '\n' ∉ line) :
    lines '\n' (written.flatMap (· ++ ['\n'])) = written := by
  rw [← List.append_nil (written.flatMap _), lines_flatMap_append whole List.not_mem_nil,
    if_pos rfl, List.append_nil]

/-- What is found in the text of a transcript does not depend on what threads print, nor
on its order. -/
theorem filter_found_text (parts : List Part) :
    ((lines '\n' (parts.flatMap Part.text)).map found).filter (· ≠ {}) =
      (parts.flatMap Part.found).filter (· ≠ {}) := by
  have text : parts.flatMap Part.text = (parts.flatMap Part.lines).flatMap (· ++ ['\n']) := by
    rw [List.flatMap_assoc]
    rfl
  have whole : ∀ line ∈ parts.flatMap Part.lines, '\n' ∉ line := by
    intro line member
    obtain ⟨part, -, inside⟩ := List.mem_flatMap.mp member
    exact part.newline_not_mem line inside
  rw [text, lines_written whole, List.map_flatMap, List.filter_flatMap, List.filter_flatMap]
  exact List.flatMap_congr fun part _ => part.filter_found

/-- A script that does nothing where nothing is found does the same wherever the same is
found. -/
theorem run_found {σ : Type*} {take : σ → Found → σ} (inv : σ → Prop)
    (preserved : ∀ s finding, inv s → inv (take s finding)) (idle : ∀ s, inv s → take s {} = s)
    {s : σ} (start : inv s) {founds founds' : List Found}
    (same : founds.filter (· ≠ {}) = founds'.filter (· ≠ {})) :
    run take s founds = run take s founds' := by
  have passing : ∀ s finding, inv s → ¬ finding ≠ {} → take s finding = s := by
    intro s finding holds nothing
    rw [not_not.mp nothing, idle s holds]
  rw [← run_filter preserved passing start, same, run_filter preserved passing start]

end Elevator.Report
