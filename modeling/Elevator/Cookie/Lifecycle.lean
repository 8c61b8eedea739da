import Elevator.Cookie.Variables

/-!
# The life of a cookie

A cookie is loaded by its constructor, changed by mutators, and saved by `Store`
or by its destructor if it is modified.  A store is known here by the outcomes of
its calls.  The five modified flags are raised by mutators and cleared together;
`Store` clears them after any save that does not throw.
-/

namespace Elevator

open Wire Transition RelVarTable

/-- What a call of `SaveVCookie` does. -/
inductive SaveOutcome
  | returned (retVal : Bool)
  | threw
  deriving DecidableEq, Repr

namespace VCookie

def clearFlags (c : VCookie) : VCookie :=
  { c with
    modified := false
    trafficModified := false
    ecommerceModified := false
    merchandisingModified := false
    relVarModified := false }

/-- The constructor; `load` is `LoadVCookie` of the store it is given. -/
def construct (id : VCookieId) (newVisitor : Bool) (load : VCookie → VCookie × Bool) : VCookie :=
  let c := fresh id newVisitor
  let c :=
    if c.newCookie = false then
      let loaded := load c
      { loaded.1 with newCookie := !loaded.2 }
    else
      c
  c.clearFlags

/-- `Store`, and what it returns; every exception is swallowed. -/
def store (c : VCookie) : SaveOutcome → VCookie × Bool
  | .returned retVal => (c.clearFlags, retVal)
  | .threw => (c, false)

/-! ## Flags -/

/-- The flag of a category. -/
def flag (c : VCookie) : Category → Bool
  | .traffic => c.trafficModified
  | .ecommerce => c.ecommerceModified
  | .merchandising => c.merchandisingModified
  | .relVar => c.relVarModified

/-- `modified` and the category flags of a cookie. -/
def flags (c : VCookie) : Bool × (Category → Bool) :=
  (c.modified, c.flag)

/-- The flags after a mutator of `category` assigned its two. -/
def raised (flags : Bool × (Category → Bool)) (category : Category) : Bool × (Category → Bool) :=
  (true, fun other => other = category || flags.2 other)

/-- `SetVar` gets to its assignments unless the value is empty or a first
allocation is already there. -/
def storesVar (table : RelVarTable) (relationId : RelationId) (val : Bytes)
    (allocType : AllocationType) : Prop :=
  let pos := table.findRelationPos relationId
  val ≠ [] ∧ ((pos ≥ table.relVar.length ∨ (table.entryAt pos).relationId ≠ relationId) ∨
    ¬ (allocType = .first ∧ (table.relVarAt (table.relVarSort.getD pos 0)).var.length = 1))

/-- The calls that assign flags. -/
def RaisesFlags (c : VCookie) : Mutator → Prop
  | .setPurchaseId purchaseId => movePurchaseId purchaseId c.purchaseIds = none
  | .setVar relationId val _ _ allocType _ => storesVar c.toRelVarTable relationId val allocType
  | .clearVar _ => False
  | .addLinearElement vid _ _ _ => vid < c.relVar.length
  | _ => True

end VCookie

/-- The category whose flag a call assigns. -/
def Mutator.category : Mutator → Category
  | .setFirstHitTimeGMT _ => .traffic
  | .setLastHitTimeGMT _ => .traffic
  | .setLastHitTimeVisitorLocal _ => .traffic
  | .setLastVisitNum _ => .traffic
  | .setLastPurchaseTimeGMT _ => .ecommerce
  | .setFirstHitReferrer _ => .ecommerce
  | .setFirstHitUrl _ => .ecommerce
  | .setFirstHitPagename _ => .ecommerce
  | .setLastPurchaseNum _ => .ecommerce
  | .setMerchandising _ => .merchandising
  | .setPurchaseId _ => .ecommerce
  | .setVar .. => .relVar
  | .clearVar _ => .relVar
  | .addLinearElement .. => .relVar

namespace VCookie

theorem flags_eq_raised {c d : VCookie} {category : Category} (modified : d.modified = true)
    (flag : ∀ other, d.flag other = (other = category || c.flag other)) :
    d.flags = raised c.flags category :=
  Prod.ext modified (funext flag)

theorem flags_clearVar (c : VCookie) (relationId : RelationId) :
    (c.clearVar relationId).flags = c.flags := by
  unfold clearVar
  dsimp only
  split <;> rfl

theorem flags_storeVar (c : VCookie) (vid : Nat) (element : RelVar) (allocType : AllocationType)
    (maxLinear : UInt32) :
    (c.storeVar vid element allocType maxLinear).1.flags = raised c.flags .relVar := by
  apply flags_eq_raised rfl
  intro other
  cases other <;> rfl

/-- A value that is not stored leaves the cookie alone. -/
theorem setVar_of_not_stores {c : VCookie} {relationId : RelationId} {val : Bytes}
    (nonempty : val ≠ []) (timestamp : TimeT) (revision : UInt8) {allocType : AllocationType}
    (maxLinear : UInt32) (silent : ¬ storesVar c.toRelVarTable relationId val allocType) :
    (c.setVar relationId val timestamp revision allocType maxLinear).1 = c := by
  rcases not_or.mp (not_and.mp silent nonempty) with ⟨present, already⟩
  rw [setVar, if_neg nonempty]
  dsimp only
  rw [if_neg present, if_pos (not_not.mp already)]

theorem flags_setVar (c : VCookie) (relationId : RelationId) (val : Bytes) (timestamp : TimeT)
    (revision : UInt8) (allocType : AllocationType) (maxLinear : UInt32) :
    (storesVar c.toRelVarTable relationId val allocType →
      (c.setVar relationId val timestamp revision allocType maxLinear).1.flags =
        raised c.flags .relVar) ∧
    (¬ storesVar c.toRelVarTable relationId val allocType →
      (c.setVar relationId val timestamp revision allocType maxLinear).1.flags = c.flags) := by
  constructor
  · intro stores
    rw [setVar, if_neg stores.1]
    dsimp only
    split
    · exact flags_storeVar ..
    · rename_i present
      rw [if_neg (stores.2.resolve_left present)]
      exact flags_storeVar ..
  · intro silent
    by_cases empty : val = []
    · rw [empty, setVar_nil]
      dsimp only
      split
      · exact flags_clearVar c relationId
      · rfl
    · rw [setVar_of_not_stores empty timestamp revision maxLinear silent]

/-- A mutator assigns `modified` and the flag of its category, or no flag. -/
theorem flags_mutate (c : VCookie) (m : Mutator) :
    (RaisesFlags c m → (c.mutate m).flags = raised c.flags m.category) ∧
      (¬ RaisesFlags c m → (c.mutate m).flags = c.flags) := by
  cases m with
  | setPurchaseId purchaseId =>
      simp only [RaisesFlags, mutate, setPurchaseId]
      constructor
      · intro new
        rw [new]
        apply flags_eq_raised rfl
        intro other
        cases other <;> rfl
      · intro saved
        rcases Option.ne_none_iff_exists'.mp saved with ⟨purchaseIds, moved⟩
        rw [moved]
        rfl
  | setVar relationId val timestamp revision allocType maxLinear => exact flags_setVar c ..
  | clearVar relationId => exact ⟨False.elim, fun _ => flags_clearVar c relationId⟩
  | addLinearElement vid val timestamp revision =>
      simp only [RaisesFlags, mutate]
      constructor
      · intro inside
        rw [addLinearElement, if_neg (by omega)]
        apply flags_eq_raised rfl
        intro other
        cases other <;> rfl
      · intro outside
        rw [addLinearElement_of_ge (by omega)]
  | _ =>
      constructor
      · intro _
        apply flags_eq_raised rfl
        intro other
        cases other <;> rfl
      · exact fun silent => absurd trivial silent

theorem raisesFlags_clearFlags (c : VCookie) (m : Mutator) :
    RaisesFlags c.clearFlags m ↔ RaisesFlags c m := by
  cases m <;> rfl

/-- A mutator raises on top of the old flags what it raises on cleared ones. -/
theorem flags_mutate_or (c : VCookie) (m : Mutator) :
    (c.mutate m).flags =
      (c.modified || (c.clearFlags.mutate m).modified,
        fun category => c.flag category || (c.clearFlags.mutate m).flag category) := by
  have cleared := flags_mutate c.clearFlags m
  rw [raisesFlags_clearFlags] at cleared
  by_cases raises : RaisesFlags c m
  · have modified := congrArg Prod.fst (cleared.1 raises)
    have flag := congrArg Prod.snd (cleared.1 raises)
    simp only [flags, raised] at modified flag
    rw [(flags_mutate c m).1 raises, modified, flag, Bool.or_true]
    refine Prod.ext rfl (funext fun category => ?_)
    cases category <;> simp [raised, flags, clearFlags, VCookie.flag, Bool.or_comm]
  · have modified := congrArg Prod.fst (cleared.2 raises)
    have flag := congrArg Prod.snd (cleared.2 raises)
    simp only [flags] at modified flag
    rw [(flags_mutate c m).2 raises, modified, flag]
    refine Prod.ext (by simp [flags, clearFlags]) (funext fun category => ?_)
    cases category <;> simp [flags, clearFlags, VCookie.flag]

theorem modified_mutate (c : VCookie) (m : Mutator) :
    (c.mutate m).modified = (c.modified || (c.clearFlags.mutate m).modified) :=
  congrArg Prod.fst (flags_mutate_or c m)

theorem flag_mutate (c : VCookie) (m : Mutator) (category : Category) :
    (c.mutate m).flag category =
      (c.flag category || (c.clearFlags.mutate m).flag category) :=
  congrFun (congrArg Prod.snd (flags_mutate_or c m)) category

/-! ## Changes waiting for a save -/

/-- A step in the life of a cookie. -/
inductive LifeOp
  | mutate (m : Mutator)
  | store (outcome : SaveOutcome)
  deriving DecidableEq, Repr

/-- A cookie with the record of what mutators flagged since the last save that
returned true: whether anything was, and which categories. -/
structure Tracked where
  cookie : VCookie
  pending : Bool
  pendingIn : Category → Bool

/-- What a mutator flags is what it raises on cleared flags. -/
def Tracked.step (s : Tracked) : LifeOp → Tracked
  | .mutate m =>
      let flagged := s.cookie.clearFlags.mutate m
      { cookie := s.cookie.mutate m
        pending := s.pending || flagged.modified
        pendingIn := fun category => s.pendingIn category || flagged.flag category }
  | .store (.returned true) =>
      { cookie := (s.cookie.store (.returned true)).1
        pending := false
        pendingIn := fun _ => false }
  | .store outcome => { s with cookie := (s.cookie.store outcome).1 }

/-- Every unsaved change still has its flags, so a later save is attempted. -/
def Tracked.Remembers (s : Tracked) : Prop :=
  (s.pending = true → s.cookie.modified = true) ∧
    ∀ category, s.pendingIn category = true → s.cookie.flag category = true

/-- A change recorded in a category is recorded. -/
def Tracked.Consistent (s : Tracked) : Prop :=
  ∀ category, s.pendingIn category = true → s.pending = true

theorem remembers_mutate {s : Tracked} (remembers : s.Remembers) (m : Mutator) :
    (s.step (.mutate m)).Remembers := by
  constructor
  · intro pending
    change (s.cookie.mutate m).modified = true
    rw [modified_mutate, Bool.or_eq_true]
    exact (Bool.or_eq_true _ _ ▸ pending).imp_left remembers.1
  · intro category pending
    change (s.cookie.mutate m).flag category = true
    rw [flag_mutate, Bool.or_eq_true]
    exact (Bool.or_eq_true _ _ ▸ pending).imp_left (remembers.2 category)

/-- A flag goes with `modified`. -/
theorem modified_of_flag (c : VCookie) (m : Mutator) (category : Category)
    (flagged : (c.clearFlags.mutate m).flag category = true) :
    (c.clearFlags.mutate m).modified = true := by
  by_cases raises : RaisesFlags c.clearFlags m
  · exact congrArg Prod.fst ((flags_mutate c.clearFlags m).1 raises)
  · have flag := congrFun (congrArg Prod.snd ((flags_mutate c.clearFlags m).2 raises)) category
    have cleared : c.clearFlags.flag category = true := flag.symm.trans flagged
    cases category <;> contradiction

theorem consistent_mutate {s : Tracked} (consistent : s.Consistent) (m : Mutator) :
    (s.step (.mutate m)).Consistent := by
  intro category pending
  change (s.pending || (s.cookie.clearFlags.mutate m).modified) = true
  rw [Bool.or_eq_true]
  have either := Bool.or_eq_true _ _ ▸ pending
  exact either.imp (consistent category) (modified_of_flag s.cookie m category)

/-- Failed saves are remembered along a life exactly when no save returns false
while a change is unsaved. -/
theorem failedSave_remembered_iff (id : VCookieId) (newVisitor : Bool)
    (load : VCookie → VCookie × Bool) (ops : List LifeOp) :
    let start : Tracked := ⟨construct id newVisitor load, false, fun _ => false⟩
    Always Tracked.step Tracked.Remembers start ops ↔
      EveryStep Tracked.step
        (fun s op => op = .store (.returned false) → s.pending = false) start ops := by
  intro start
  have blank : start.Remembers ∧ start.Consistent :=
    ⟨⟨fun pending => absurd pending Bool.false_ne_true,
      fun _ pending => absurd pending Bool.false_ne_true⟩,
      fun _ pending => absurd pending Bool.false_ne_true⟩
  refine @always_iff_everyStep _ _ Tracked.step Tracked.Remembers
    (fun s => s.Remembers ∧ s.Consistent) _ (fun s inv => inv.1) ?_ ?_ start blank ops
  · rintro s op ⟨remembers, consistent⟩ admitted
    cases op with
    | mutate m => exact ⟨remembers_mutate remembers m, consistent_mutate consistent m⟩
    | store outcome =>
        cases outcome with
        | returned retVal =>
            cases retVal with
            | true =>
                exact ⟨⟨fun pending => absurd pending Bool.false_ne_true,
                  fun _ pending => absurd pending Bool.false_ne_true⟩,
                  fun _ pending => absurd pending Bool.false_ne_true⟩
            | false =>
                have quiet := admitted rfl
                refine ⟨⟨fun pending => ?_, fun category pending => ?_⟩, consistent⟩
                · exact absurd (quiet ▸ pending) Bool.false_ne_true
                · exact absurd (quiet ▸ consistent category pending) Bool.false_ne_true
        | threw => exact ⟨remembers, consistent⟩
  · rintro s op ⟨remembers, consistent⟩ refused remembered
    rcases Classical.not_imp.mp refused with ⟨rfl, pending⟩
    exact absurd (remembered.1 (eq_true_of_ne_false pending)) Bool.false_ne_true

/-- The visit number is set, the save returns false, and the change is forgotten. -/
theorem failedSave_forgotten :
    let start : Tracked := ⟨construct ⟨1, 2, 3⟩ true fun c => (c, true), false, fun _ => false⟩
    let s := run Tracked.step start [.mutate (.setLastVisitNum 3), .store (.returned false)]
    s.pending = true ∧ s.pendingIn .traffic = true ∧ s.cookie.lastVisitNum = 3 ∧
      s.cookie.modified = false ∧ ¬ s.Remembers := by
  constructor
  · decide
  constructor
  · decide
  constructor
  · decide
  constructor
  · decide
  · intro remembers
    exact absurd (remembers.1 (by decide)) (by decide)

/-! ## Cookies alike but for their flags -/

/-- The cookie with every flag down. -/
def lowered (c : VCookie) : VCookie :=
  { c.clearFlags with newCookie := false }

/-- Branches alike up to `f`. -/
theorem map_ite_congr {α β : Type} (f : α → β) {p : Prop} [Decidable p] {a b a' b' : α}
    (yes : f a = f a') (no : f b = f b') : f (if p then a else b) = f (if p then a' else b') := by
  rw [apply_ite f, apply_ite f, yes, no]

theorem lowered_clearVar (c : VCookie) (relationId : RelationId) :
    (c.clearVar relationId).lowered = (c.lowered.clearVar relationId).lowered := by
  unfold clearVar
  exact map_ite_congr lowered rfl rfl

theorem lowered_setVar (c : VCookie) (relationId : RelationId) (val : Bytes) (timestamp : TimeT)
    (revision : UInt8) (allocType : AllocationType) (maxLinear : UInt32) :
    (c.setVar relationId val timestamp revision allocType maxLinear).1.lowered =
      (c.lowered.setVar relationId val timestamp revision allocType maxLinear).1.lowered := by
  unfold setVar
  apply map_ite_congr fun result : VCookie × Nat => result.1.lowered
  · exact map_ite_congr lowered (lowered_clearVar c relationId) rfl
  · apply map_ite_congr fun result : VCookie × Nat => result.1.lowered
    · rfl
    · exact map_ite_congr (fun result : VCookie × Nat => result.1.lowered) rfl rfl

theorem lowered_addLinearElement (c : VCookie) (vid : Nat) (val : Bytes) (timestamp : TimeT)
    (revision : UInt8) :
    (c.addLinearElement vid val timestamp revision).lowered =
      (c.lowered.addLinearElement vid val timestamp revision).lowered := by
  unfold addLinearElement
  exact map_ite_congr lowered rfl rfl

/-- No mutator looks at a flag. -/
theorem lowered_mutate (c : VCookie) (m : Mutator) :
    (c.mutate m).lowered = (c.lowered.mutate m).lowered := by
  cases m with
  | setPurchaseId purchaseId =>
      unfold mutate setPurchaseId
      dsimp only [lowered, clearFlags]
      cases movePurchaseId purchaseId c.purchaseIds <;> rfl
  | setVar relationId val timestamp revision allocType maxLinear => exact lowered_setVar c ..
  | clearVar relationId => exact lowered_clearVar c relationId
  | addLinearElement vid val timestamp revision => exact lowered_addLinearElement c ..
  | _ => rfl

end VCookie

end Elevator
