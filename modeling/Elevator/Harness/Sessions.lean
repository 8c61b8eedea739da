import Elevator.Transition.Session
import Elevator.Harness.Worker
import Mathlib.Data.Option.Basic

/-!
# Workers that share a store

The workers of a run have one bucket in common.  Each constructs the cookie of a hit
from the bucket, changes it, and stores it; what the others stored in between for the
same user is overwritten.  A visitor finds what some of the hits of his user left, in
the order in which they were stored, the last of them among these.  He finds all of
them exactly when no cookie of his user was stored over another.
-/

namespace Elevator.Harness

open Transition VCookie VCookieStore

/-- A store, and the cookies that workers hold. -/
structure Workers (σ τ : Type) where
  store : σ
  cookies : τ → Option IndexedCookie

namespace Workers

variable {σ τ κ : Type} [DecidableEq τ] [DecidableEq κ]

section Step

variable (engine : StorageEngine σ) (junk : UInt8)

/-- A worker constructs and changes the cookie of a hit, or it stores the cookie. -/
def step (s : Workers σ τ) : SessionStep τ HitData → Workers σ τ
  | .load t hit =>
      { s with
        cookies := Function.update s.cookies t (some (hitCookie engine junk s.store hit)) }
  | .save t =>
      match s.cookies t with
      | some c =>
          { store := (engine.saveVCookie s.store c).1
            cookies := Function.update s.cookies t none }
      | none => s

/-- Workers that hold no cookies. -/
def start (τ : Type) (store : σ) : Workers σ τ where
  store := store
  cookies _ := none

end Step

variable {engine : StorageEngine σ} (keeping : Keeping engine κ)

/-- The hits that are loaded fit a record. -/
def Admitted : SessionStep τ HitData → Prop
  | .load _ hit => hit.Fits
  | .save _ => True

/-- The store shows the history of every slot, and the cookies that are held show what
their copies come from. -/
structure Tracks (ledger : Ledger τ κ HitData) (s : Workers σ τ) : Prop where
  served : ∃ kept, Served keeping ledger.history s.store kept
  cookies : ∀ t, Option.Rel (fun copy => Prepared copy.base copy.update)
    (ledger.copies t) (s.cookies t)

variable {keeping} {ledger : Ledger τ κ HitData} {s : Workers σ τ}

theorem rel_update {copies : τ → Option (SessionCopy HitData)}
    {cookies : τ → Option IndexedCookie} {holds : SessionCopy HitData → IndexedCookie → Prop}
    (held : ∀ t, Option.Rel holds (copies t) (cookies t)) (t : τ)
    {copy : Option (SessionCopy HitData)} {cookie : Option IndexedCookie}
    (new : Option.Rel holds copy cookie) (other : τ) :
    Option.Rel holds (Function.update copies t copy other)
      (Function.update cookies t cookie other) := by
  by_cases own : other = t
  · rw [own, Function.update_self, Function.update_self]
    exact new
  · rw [Function.update_of_ne own, Function.update_of_ne own]
    exact held other

theorem Tracks.step (tracks : Tracks keeping ledger s) (junk : UInt8)
    (admits : ∀ kept id, keeping.Admits kept id) {label : SessionStep τ HitData}
    (admitted : Admitted label) :
    Tracks keeping (ledger.step (fun hit => keeping.slot hit.id) label)
      (s.step engine junk label) := by
  obtain ⟨kept, served⟩ := tracks.served
  cases label with
  | load t hit =>
      constructor
      · exact ⟨kept, served⟩
      · exact rel_update tracks.cookies t (.some (served.prepare admitted junk))
  | save t =>
      have own := tracks.cookies t
      rw [Ledger.step, Workers.step]
      cases held : ledger.copies t with
      | none =>
          rw [held] at own
          cases cookie : s.cookies t with
          | none => exact tracks
          | some c =>
              rw [cookie] at own
              cases own
      | some copy =>
          rw [held] at own
          cases cookie : s.cookies t with
          | none =>
              rw [cookie] at own
              cases own
          | some c =>
              rw [cookie] at own
              cases own with
              | some prepared =>
                  constructor
                  · exact ⟨_, served.save prepared (admits kept copy.update.id)⟩
                  · exact rel_update tracks.cookies t .none

end Workers

end Elevator.Harness
