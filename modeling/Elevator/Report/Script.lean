import Elevator.Report.Clients
import Elevator.Sequence.Lines
import Elevator.Sequence.Scan
import Mathlib.Logic.Function.Basic

/-!
# Reading the results

`aggregateResults.pl` reads the output of many runs line by line.  It keeps the values it
read last, and books the results of a line under the number of threads and the server
that it read last.  A value that was never read is undefined, and counts as the empty
string where it is a key of a hash.

In each of the patterns a run of characters ends where the next character must differ
from them, so that the patterns are scanned without going back.
-/

namespace Elevator.Report

open Transition Sequence

/-- `\s`. -/
def isSpace (c : Char) : Bool :=
  c ∈ [' ', '\t', '\n', '\r', '\x0b', '\x0c']

/-- A character in its own case. -/
def char (expected : Char) (text : Text) : Option Text :=
  (exactly 1 (· = expected) text).map Prod.snd

/-- A date stamp, in seconds of its day. -/
def matchStamp (line : Text) : Option Nat := do
  let (_, text) ← exactly 3 (!isSpace ·) line
  let text ← char ' ' text
  let (_, text) ← exactly 3 (!isSpace ·) text
  let text ← char ' ' text
  let (day, text) ← spanned Char.isDigit text
  if day.length ≤ 2 then
    let (_, text) ← spanned (· = ' ') text
    let (hours, text) ← exactly 2 Char.isDigit text
    let text ← char ':' text
    let (minutes, text) ← exactly 2 Char.isDigit text
    let text ← char ':' text
    let (seconds, text) ← exactly 2 Char.isDigit text
    let text ← char ' ' text
    let text ← char 'P' text
    let (_, text) ← exactly 1 (fun c => c = 'D' || c = 'S') text
    let text ← char 'T' text
    let text ← char ' ' text
    let _ ← exactly 4 Char.isDigit text
    return ofDecimal hours * 60 * 60 + ofDecimal minutes * 60 + ofDecimal seconds
  else
    none

/-- The store and the server of a run. -/
def matchHarness (line : Text) : Option (Text × Text) := do
  let text ← literal "Adobe Visitor Profile Storage Test Harness 1".toList line
  let (_, text) ← exactly 1 (· ≠ '\n') text
  let text ← literal "2 using ".toList text
  let (store, text) ← spanned (!isSpace ·) text
  let text ← literal " on ".toList text
  let (server, _) ← spanned (!isSpace ·) text
  return (store, server)

/-- The threads, the requests and the request rate of a run. -/
def matchConfig (line : Text) : Option (Text × Text × Text) := do
  let text ← literal "Config: threads = ".toList line
  let (threads, text) ← spanned Char.isDigit text
  let text ← literal "; requests = ".toList text
  let (requests, text) ← spanned Char.isDigit text
  let text ← literal "; request rate = ".toList text
  let (requestRate, _) ← spanned Char.isDigit text
  return (threads, requests, requestRate)

/-- Numbers with space between them, of which there is at least one. -/
def matchNumbers (text : Text) : Option (List Text) :=
  if text.head?.any Char.isDigit ∧ (words isSpace text).all (·.all Char.isDigit) then
    some (words isSpace text)
  else
    none

/-- The aggregate results under a name. -/
def matchAggregate (name line : Text) : Option (List Text) := do
  let (_, text) ← spanned Char.isDigit line
  let text ← literal (": aggregate ".toList ++ name ++ " = ".toList) text
  matchNumbers text

/-- What the patterns find in a line. -/
structure Found where
  stamp : Option Nat := none
  harness : Option (Text × Text) := none
  config : Option (Text × Text × Text) := none
  rate : Option (List Text) := none
  readAvgNS : Option (List Text) := none
  writeAvgNS : Option (List Text) := none
  deriving DecidableEq

def found (line : Text) : Found where
  stamp := matchStamp line
  harness := matchHarness line
  config := matchConfig line
  rate := matchAggregate "rate".toList line
  readAvgNS := matchAggregate "readAvgNS".toList line
  writeAvgNS := matchAggregate "writeAvgNS".toList line

def stripPrefix (start text : Text) : Text :=
  if start.isPrefixOf text then text.drop start.length else text

def stripSuffix (ending text : Text) : Text :=
  if ending.isSuffixOf text then text.take (text.length - ending.length) else text

/-- The three substitutions in the name of the store. -/
def storeName (store : Text) : Text :=
  stripSuffix "Store".toList (stripPrefix "Store".toList (stripPrefix "VC".toList store))

/-- What `%test` holds for a number of threads under a key. -/
structure Entry where
  store : Option Text
  requests : Option Text
  requestRate : Option Text
  timestamp : Option Nat
  aggRate : Option (List Text)
  aggRead : Option (List Text)
  aggWrite : Option (List Text)

def Entry.blank : Entry :=
  ⟨none, none, none, none, none, none, none⟩

/-- The variables of the script. -/
structure Script where
  timestamp : Option Nat
  store : Option Text
  server : Option Text
  threads : Option Text
  requests : Option Text
  requestRate : Option Text
  test : Text → Text → Option Entry

def general : Text :=
  "general".toList

namespace Script

def blank : Script :=
  ⟨none, none, none, none, none, none, fun _ _ => none⟩

/-- Change what `$test{$threads}` holds under a key. -/
def assign (s : Script) (key : Text) (change : Entry → Entry) : Script :=
  let threads := s.threads.getD []
  { s with
    test := Function.update s.test threads (Function.update (s.test threads) key
      (some (change ((s.test threads key).getD .blank)))) }

/-- Change what is held for the server that was read last. -/
def assignServer (s : Script) (change : Entry → Entry) : Script :=
  s.assign (s.server.getD []) change

def setStamp (s : Script) (timestamp : Nat) : Script :=
  { s with timestamp := some timestamp }

def setHarness (s : Script) (found : Text × Text) : Script :=
  { s with store := some (storeName found.1), server := some found.2 }

def withConfig (s : Script) (found : Text × Text × Text) : Script :=
  { s with
    threads := some found.1
    requests := some found.2.1
    requestRate := some found.2.2 }

def setConfig (s : Script) (found : Text × Text × Text) : Script :=
  let s := s.withConfig found
  let s := s.assign general fun e =>
    { e with store := s.store, requests := s.requests, requestRate := s.requestRate }
  s.assignServer fun e => { e with timestamp := s.timestamp }

def setRate (s : Script) (values : List Text) : Script :=
  s.assignServer fun e => { e with aggRate := some values }

def setRead (s : Script) (values : List Text) : Script :=
  s.assignServer fun e => { e with aggRead := some values }

def setWrite (s : Script) (values : List Text) : Script :=
  s.assignServer fun e => { e with aggWrite := some values }

/-- Do what a match is for, if there is one. -/
def onMatch {α : Type} (set : Script → α → Script) (found : Option α) (s : Script) : Script :=
  match found with
  | some found => set s found
  | none => s

/-- Do what the matches are for, one after the other. -/
def take (s : Script) (found : Found) : Script :=
  let s := s.onMatch setStamp found.stamp
  let s := s.onMatch setHarness found.harness
  let s := s.onMatch setConfig found.config
  let s := s.onMatch setRate found.rate
  let s := s.onMatch setRead found.readAvgNS
  s.onMatch setWrite found.writeAvgNS

/-- A turn of the loop over the lines. -/
def readLine (s : Script) (line : Text) : Script :=
  s.take (found line)

/-- The loop over the lines. -/
def read (s : Script) (text : Text) : Script :=
  run readLine s (lines '\n' text)

end Script

end Elevator.Report
