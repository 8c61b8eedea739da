import Elevator.Transition.Run
import Mathlib.Logic.Function.Basic

/-!
# Updates in two steps

An agent updates a cell by loading it, working on its copy, and saving the copy over
whatever the cell holds by then.  A ledger tells for each cell which updates its
content comes from and which ones were saved.  The content of a cell comes from some
of the updates that were saved for it, in their order, the last one among them; it
comes from all of them exactly when no copy was saved over a later update.
-/

namespace Elevator.Transition

universe u v w

variable {τ : Type u} {κ : Type v} {ω : Type w}

/-- To load the cell of an update and work on the copy, and to save the copy. -/
inductive SessionStep (τ : Type u) (ω : Type w)
  | load (agent : τ) (update : ω)
  | save (agent : τ)

/-- A copy of a cell that an update was worked into: which updates its content had come
from, and how many had been saved for the cell. -/
structure SessionCopy (ω : Type w) where
  base : List ω
  update : ω
  seen : Nat

structure Ledger (τ : Type u) (κ : Type v) (ω : Type w) where
  history : κ → List ω
  saves : κ → List ω
  copies : τ → Option (SessionCopy ω)

namespace Ledger

/-- Nothing was saved yet. -/
def blank (τ : Type u) (κ : Type v) (ω : Type w) : Ledger τ κ ω where
  history _ := []
  saves _ := []
  copies _ := none

/-- Whatever copy is held or new is held after the update of the copies. -/
theorem forall_copies_update [DecidableEq τ] {copies : τ → Option (SessionCopy ω)}
    {holds : τ → SessionCopy ω → Prop} {agent : τ} {copy : Option (SessionCopy ω)}
    (held : ∀ other copy, other ≠ agent → copies other = some copy → holds other copy)
    (new : ∀ c, copy = some c → holds agent c) (other : τ) (c : SessionCopy ω)
    (copied : Function.update copies agent copy other = some c) : holds other c := by
  by_cases own : other = agent
  · subst own
    rw [Function.update_self] at copied
    exact new c copied
  · rw [Function.update_of_ne own] at copied
    exact held other c own copied

/-- A copy comes from updates that its agent could see.  With nothing saved since its
load it is of the content that the cell still has. -/
structure SoundCopy (history saves : List ω) (copy : SessionCopy ω) : Prop where
  base : copy.base.Sublist (saves.take copy.seen)
  seen : copy.seen ≤ saves.length
  current : copy.seen = saves.length → copy.base = history

/-- A save of another agent. -/
theorem SoundCopy.save {history saves : List ω} {copy : SessionCopy ω}
    (sound : SoundCopy history saves copy) (history' : List ω) (update : ω) :
    SoundCopy history' (saves ++ [update]) copy := by
  have seen := sound.seen
  constructor
  · rw [List.take_append_of_le_length seen]
    exact sound.base
  · rw [List.length_append]
    exact Nat.le_add_right_of_le seen
  · intro all
    rw [List.length_append, List.length_singleton] at all
    omega

variable [DecidableEq τ] [DecidableEq κ] (key : ω → κ)

def step (s : Ledger τ κ ω) : SessionStep τ ω → Ledger τ κ ω
  | .load agent update =>
      { s with
        copies := Function.update s.copies agent
          (some ⟨s.history (key update), update, (s.saves (key update)).length⟩) }
  | .save agent =>
      match s.copies agent with
      | some copy =>
          { history := Function.update s.history (key copy.update) (copy.base ++ [copy.update])
            saves := Function.update s.saves (key copy.update)
              (s.saves (key copy.update) ++ [copy.update])
            copies := Function.update s.copies agent none }
      | none => s

/-- Contents come from some of the updates that were saved, the last one among them. -/
structure Sound (s : Ledger τ κ ω) : Prop where
  sublist : ∀ cell, (s.history cell).Sublist (s.saves cell)
  last : ∀ cell, (s.history cell).getLast? = (s.saves cell).getLast?
  copies : ∀ agent copy, s.copies agent = some copy →
    SoundCopy (s.history (key copy.update)) (s.saves (key copy.update)) copy

omit [DecidableEq τ] [DecidableEq κ] in
theorem sound_blank : (blank τ κ ω).Sound key where
  sublist _ := List.Sublist.refl _
  last _ := rfl
  copies _ _ held := by cases held

variable {key} {s : Ledger τ κ ω}

theorem step_save {agent : τ} {copy : SessionCopy ω} (held : s.copies agent = some copy) :
    s.step key (.save agent) =
      { history := Function.update s.history (key copy.update) (copy.base ++ [copy.update])
        saves := Function.update s.saves (key copy.update)
          (s.saves (key copy.update) ++ [copy.update])
        copies := Function.update s.copies agent none } := by
  rw [step, held]

theorem step_save_of_none {agent : τ} (none : s.copies agent = none) :
    s.step key (.save agent) = s := by
  rw [step, none]

/-- What a saved copy comes from. -/
theorem SoundCopy.sublist_concat {history saves : List ω} {copy : SessionCopy ω}
    (sound : SoundCopy history saves copy) :
    (copy.base ++ [copy.update]).Sublist (saves ++ [copy.update]) :=
  (sound.base.trans (List.take_sublist _ _)).append (List.Sublist.refl _)

theorem Sound.save (sound : s.Sound key) {agent : τ} {copy : SessionCopy ω}
    (held : s.copies agent = some copy) : (s.step key (.save agent)).Sound key := by
  rw [step_save held]
  have own := sound.copies agent copy held
  constructor
  · intro cell
    by_cases same : cell = key copy.update
    · subst same
      simpa only [Function.update_self] using own.sublist_concat
    · simpa only [Function.update_of_ne same] using sound.sublist cell
  · intro cell
    by_cases same : cell = key copy.update
    · simp only [same, Function.update_self, List.getLast?_concat]
    · simpa only [Function.update_of_ne same] using sound.last cell
  · dsimp only
    apply forall_copies_update
    · intro other c _ copied
      have before := sound.copies other c copied
      by_cases same : key c.update = key copy.update
      · rw [same] at before ⊢
        rw [Function.update_self, Function.update_self]
        exact before.save _ _
      · rw [Function.update_of_ne same, Function.update_of_ne same]
        exact before
    · intro c none
      cases none

/-- Every step keeps a ledger sound. -/
theorem Sound.step (sound : s.Sound key) (label : SessionStep τ ω) :
    (s.step key label).Sound key := by
  cases label with
  | load agent update =>
      constructor
      · exact sound.sublist
      · exact sound.last
      · apply forall_copies_update fun other c _ held => sound.copies other c held
        rintro c ⟨⟩
        constructor
        · exact (List.take_length (l := s.saves (key update))).symm ▸ sound.sublist _
        · exact Nat.le_refl _
        · exact fun _ => rfl
  | save agent =>
      cases held : s.copies agent with
      | some copy => exact sound.save held
      | none => rwa [step_save_of_none held]

/-- The copies of the cell are of one agent, and nothing was saved since they were made. -/
def OwnCell (key : ω → κ) (cell : κ) (agent : τ) (s : Ledger τ κ ω) : Prop :=
  ∀ other copy, s.copies other = some copy →
    key copy.update = cell → other = agent ∧ copy.seen = (s.saves cell).length

/-- Other agents do not load the cell. -/
def LeavesTo (key : ω → κ) (cell : κ) (agent : τ) : SessionStep τ ω → Prop
  | .load other update => key update = cell → other = agent
  | .save _ => True

theorem OwnCell.step {cell : κ} {agent : τ} (own : s.OwnCell key cell agent)
    {label : SessionStep τ ω} (left : LeavesTo key cell agent label) :
    (s.step key label).OwnCell key cell agent := by
  cases label with
  | load other update =>
      apply forall_copies_update fun t c _ held => own t c held
      rintro c ⟨⟩ same
      exact ⟨left same, congrArg (fun k => (s.saves k).length) same⟩
  | save other =>
      cases held : s.copies other with
      | none => rwa [step_save_of_none held]
      | some copy =>
          rw [step_save held]
          apply forall_copies_update
          · intro t c different copied same
            obtain ⟨mine, seen⟩ := own t c copied same
            have elsewhere : cell ≠ key copy.update := by
              rintro rfl
              exact different (mine.trans (own other copy held rfl).1.symm)
            dsimp only
            rw [Function.update_of_ne elsewhere]
            exact ⟨mine, seen⟩
          · intro c none
            cases none

end Ledger

end Elevator.Transition
