import Elevator.Codec.Calls
import Elevator.Codec.RoundTrip
import Elevator.Cookie.Lifecycle

/-!
# Cookies over a storage engine

Any number of cookies are constructed over one store, changed, saved and destroyed,
in any order.  A storage engine is compared with a table of the cookies saved last,
one for each of its slots.  Along every run a cookie that is constructed shows what
the getters of the cookie in its slot returned when it was saved.
-/

namespace Elevator

open Wire Transition RelVarTable VCookie VCookieStore

/-! ## Plain cookies -/

namespace VCookieStore

/-- A plain call leaves a plain cookie. -/
theorem PlainCookie.mutate {c : VCookie} (plainCookie : PlainCookie c) {m : Mutator}
    (plain : m.Plain) : PlainCookie (c.mutate m) where
  indexed := indexed_mutate plainCookie.indexed m
  nulFree := by
    rw [profile_mutate]
    exact plainCookie.nulFree.mutate plain.text
  purchaseIds := by
    have ids : (c.mutate m).purchaseIds = (c.profile.mutate m).purchaseIds :=
      congrArg Profile.purchaseIds (profile_mutate c m)
    rw [ids]
    exact Profile.purchaseIdsKept_mutate plainCookie.purchaseIds m
  table := plainCookie.table.mutate List.not_mem_nil plain.storesIn

theorem PlainCookie.run {c : VCookie} (plainCookie : PlainCookie c) {ms : List Mutator}
    (plain : ∀ m ∈ ms, m.Plain) : PlainCookie (run VCookie.mutate c ms) :=
  @run_invariant_of_forall _ _ VCookie.mutate PlainCookie Mutator.Plain
    (fun _ _ plain kept => kept.mutate plain) c plainCookie ms plain

theorem plainCookie_fresh (id : VCookieId) (newCookie : Bool) :
    PlainCookie (fresh id newCookie) :=
  plainCookie_run id newCookie (List.forall_mem_nil _)

/-- A cookie with the profile and the table of a plain one. -/
theorem PlainCookie.congr {c d : VCookie} (plainCookie : PlainCookie c)
    (profile : d.profile = c.profile) (table : d.toRelVarTable = c.toRelVarTable) :
    PlainCookie d where
  indexed := table ▸ plainCookie.indexed
  nulFree := profile ▸ plainCookie.nulFree
  purchaseIds := by
    have ids : d.purchaseIds = c.purchaseIds := congrArg Profile.purchaseIds profile
    rw [ids]
    exact plainCookie.purchaseIds
  table := table ▸ plainCookie.table

/-- Decoding adds no entry of the invalid relation. -/
theorem validRelations_replay {c : VCookie}
    (valid : Within (fun r => r ≠ invalidRid) (fun _ => True) c.toRelVarTable)
    {calls : List Call} (decoded : ∀ call ∈ calls, call.Decoded) :
    Within (fun r => r ≠ invalidRid) (fun _ => True) (replay c calls).toRelVarTable := by
  refine @run_invariant_of_forall _ _ applyCall
    (fun d => Within (fun r => r ≠ invalidRid) (fun _ => True) d.toRelVarTable)
    Call.Decoded (fun d call decoded within => ?_) c valid calls decoded
  cases call with
  | mutate m =>
      apply within.mutate trivial
      cases m with
      | setVar => exact False.elim decoded
      | addLinearElement => exact False.elim decoded
      | _ => trivial
  | setVar rid rv allocType maxLinear =>
      exact within.setVar trivial (fun _ => ⟨decoded.1, trivial⟩) allocType maxLinear
  | append rid rv => exact within.addLinearElement _ trivial

/-- `found` shows what the getters of `saved` return. -/
structure Reloaded (saved found : VCookie) : Prop where
  profile : found.profile = gottenProfile saved
  elements : ∀ r, found.elements r = saved.elements r

theorem nulFree_gottenProfile {c : VCookie} (nulFree : c.profile.NulFree) :
    (gottenProfile c).NulFree where
  firstHitReferrer := nulFree.firstHitReferrer
  firstHitPageUrl := nulFree.firstHitPageUrl
  firstHitPagename := nulFree.firstHitPagename
  merchandising := nulFree.merchandising
  purchaseIds := nulFree.purchaseIds

/-- What a plain cookie is loaded as is plain. -/
theorem PlainCookie.reloaded {saved found : VCookie} (plainCookie : PlainCookie saved)
    (reloaded : Reloaded saved found) (indexed : found.toRelVarTable.Indexed)
    (valid : Within (fun r => r ≠ invalidRid) (fun _ => True) found.toRelVarTable) :
    PlainCookie found where
  indexed := indexed
  nulFree := reloaded.profile ▸ nulFree_gottenProfile plainCookie.nulFree
  purchaseIds := by
    have ids : found.purchaseIds = saved.purchaseIds :=
      congrArg Profile.purchaseIds reloaded.profile
    rw [ids]
    exact plainCookie.purchaseIds
  table rv member := by
    constructor
    · exact (valid rv member).1
    · intro element stored
      rw [← indexed.elements_of_mem member, reloaded.elements] at stored
      rcases exists_of_elements_ne_nil (List.ne_nil_of_mem stored) with ⟨own, entry, same⟩
      rw [← same, plainCookie.indexed.elements_of_mem entry] at stored
      exact (plainCookie.table own entry).2 element stored

/-- The record of a plain cookie is loaded as it was, along both storage paths. -/
theorem deserialize_saved {saved : VCookie} (plainCookie : PlainCookie saved)
    (inRange : InRange saved) {saveLastHitTime : Bool}
    (small : (encode saved saveLastHitTime).length < 2 ^ 32)
    (id : VCookieId) (newCookie : Bool) (junk : UInt8) :
    ∃ found, deserialize junk
          (loadTarget id newCookie saveLastHitTime saved.getLastHitTimeGMT)
          (encode saved saveLastHitTime) = (found, true) ∧
      found.id = id ∧ Reloaded saved found ∧ PlainCookie found := by
  have blank := blank_loadTarget id newCookie saveLastHitTime saved.getLastHitTimeGMT
  obtain ⟨found, accepted, sameId, profile, indexed, elements⟩ :=
    deserialize_encode plainCookie small blank junk
  have reloaded : Reloaded saved found :=
    ⟨profile, fun r => (elements r).trans (inRange_iff.mp inRange r)⟩
  have start : (loadTarget id newCookie saveLastHitTime
      saved.getLastHitTimeGMT).toRelVarTable.Indexed := blank.table ▸ indexed_empty
  have replayed : found = replay (loadTarget id newCookie saveLastHitTime
      saved.getLastHitTimeGMT) (scan (encode saved saveLastHitTime)).1 := by
    rw [deserialize_eq_replay start] at accepted
    exact (congrArg Prod.fst accepted).symm
  have valid : Within (fun r => r ≠ invalidRid) (fun _ => True) found.toRelVarTable := by
    rw [replayed]
    apply validRelations_replay _ (decoded_of_mem_scan _)
    rw [blank.table]
    exact fun rv member => absurd member List.not_mem_nil
  refine ⟨found, accepted, sameId.trans (id_loadTarget ..), reloaded, ?_⟩
  exact plainCookie.reloaded reloaded indexed valid

theorem indexed_deserialize {c : VCookie} (indexed : c.toRelVarTable.Indexed) (junk : UInt8)
    (buffer : Bytes) : (deserialize junk c buffer).1.toRelVarTable.Indexed := by
  rw [deserialize_eq_replay indexed]
  exact indexed_replay indexed _

theorem serialized_eq (c : IndexedCookie) (saveLastHitTime : Bool) :
    serialized c saveLastHitTime = encode c.1 saveLastHitTime := by
  have written := serialize_eq c.2 saveLastHitTime
  simp only [serialized, written, Option.get_some]

end VCookieStore

/-! ## Engines -/

/-- `VCookieStore`, as cookies and their owner call it.  A load keeps a well-indexed
cookie so. -/
structure StorageEngine (σ : Type) where
  saveVCookie : σ → IndexedCookie → σ × Bool
  loadVCookie : σ → UInt8 → VCookie → VCookie × Bool
  deleteVCookie : σ → VCookie → σ × Bool
  deleteOldVCookies : σ → TimeT → σ × Nat
  indexed : ∀ store junk c, c.toRelVarTable.Indexed →
    (loadVCookie store junk c).1.toRelVarTable.Indexed

namespace VCookieStore.IndexedCookie

def construct {σ : Type} (engine : StorageEngine σ) (store : σ) (id : VCookieId)
    (newVisitor : Bool) (junk : UInt8) : IndexedCookie :=
  ⟨VCookie.construct id newVisitor (engine.loadVCookie store junk), by
    cases newVisitor with
    | true => exact indexed_fresh id true
    | false => exact engine.indexed store junk _ (indexed_fresh id false)⟩

def mutate (c : IndexedCookie) (m : Mutator) : IndexedCookie :=
  ⟨c.1.mutate m, indexed_mutate c.2 m⟩

/-- `Store`, where the save returned. -/
def store (c : IndexedCookie) (retVal : Bool) : IndexedCookie :=
  ⟨(c.1.store (.returned retVal)).1, c.2⟩

end VCookieStore.IndexedCookie

open VCookieStore

/-- A store and the cookies constructed over it, under the names of their variables. -/
structure Site (σ ν : Type) where
  store : σ
  cookies : ν → Option IndexedCookie

inductive SiteOp (ν : Type)
  | construct (name : ν) (visitor : VCookieId) (newVisitor : Bool) (junk : UInt8)
  | mutate (name : ν) (m : Mutator)
  | store (name : ν)
  | destroy (name : ν)
  | delete (name : ν)
  | deleteOld (t : TimeT)

namespace Site

variable {σ ν κ : Type}

/-- The cookie that a call saves: the destructor saves a modified one. -/
def saved (s : Site σ ν) : SiteOp ν → Option IndexedCookie
  | .store name => s.cookies name
  | .destroy name => (s.cookies name).filter fun c => c.1.modified
  | _ => none

variable [DecidableEq ν]

def step (engine : StorageEngine σ) (s : Site σ ν) : SiteOp ν → Site σ ν
  | .construct name visitor newVisitor junk =>
      { s with
        cookies := Function.update s.cookies name
          (some (IndexedCookie.construct engine s.store visitor newVisitor junk)) }
  | .mutate name m =>
      { s with
        cookies := Function.update s.cookies name ((s.cookies name).map fun c => c.mutate m) }
  | .store name =>
      match s.cookies name with
      | some c =>
          let stored := engine.saveVCookie s.store c
          { store := stored.1
            cookies := Function.update s.cookies name (some (c.store stored.2)) }
      | none => s
  | .destroy name =>
      match s.cookies name with
      | some c =>
          { store := if c.1.modified then (engine.saveVCookie s.store c).1 else s.store
            cookies := Function.update s.cookies name none }
      | none => s
  | .delete name =>
      match s.cookies name with
      | some c => { s with store := (engine.deleteVCookie s.store c.1).1 }
      | none => s
  | .deleteOld t => { s with store := (engine.deleteOldVCookies s.store t).1 }

end Site

/-! ## What an engine keeps -/

/-- The record of a cookie fits the offsets of its header and the counts of its lists. -/
structure Small (c : VCookie) : Prop where
  inRange : InRange c
  record : ∀ saveLastHitTime, (encode c saveLastHitTime).length < 2 ^ 32

/-- The store of an engine stands for a table of the cookies saved last, one for each
slot, as long as it admits the visitors that are saved. -/
structure Keeping {σ : Type} (engine : StorageEngine σ) (κ : Type) [DecidableEq κ] where
  slot : VCookieId → κ
  Holds : σ → (κ → Option IndexedCookie) → Prop
  Admits : (κ → Option IndexedCookie) → VCookieId → Prop
  purges : TimeT → VCookie → Bool
  save : ∀ {store kept}, Holds store kept → ∀ c : IndexedCookie, Admits kept c.1.id →
    Holds (engine.saveVCookie store c).1 (Function.update kept (slot c.1.id) (some c))
  delete : ∀ {store kept}, Holds store kept → ∀ c : VCookie,
    Holds (engine.deleteVCookie store c).1 (Function.update kept (slot c.id) none)
  deleteOld : ∀ {store kept}, Holds store kept → ∀ t,
    Holds (engine.deleteOldVCookies store t).1
      (fun slot => (kept slot).filter fun c => !purges t c.1)
  load_none : ∀ {store kept}, Holds store kept → ∀ junk (c : VCookie),
    kept (slot c.id) = none → engine.loadVCookie store junk c = (c, false)
  load_some : ∀ {store kept}, Holds store kept → ∀ junk id {saved : IndexedCookie},
    kept (slot id) = some saved → PlainCookie saved.1 → Small saved.1 →
      ∃ found, engine.loadVCookie store junk (fresh id false) = (found, true) ∧ found.id = id ∧
        Reloaded saved.1 found ∧ PlainCookie found

/-- The cookie that is constructed for a visitor, where `kept` is in the slot: a blank
new one, or one that shows the cookie kept. -/
def Finds (kept : Option IndexedCookie) (id : VCookieId) (found : VCookie) : Prop :=
  match kept with
  | none => found = fresh id true
  | some saved =>
      found.id = id ∧ found.newCookie = false ∧ found.flags = (false, fun _ => false) ∧
        Reloaded saved.1 found

namespace Keeping

variable {σ κ : Type} [DecidableEq κ] {engine : StorageEngine σ} (keeping : Keeping engine κ)

/-- The store stands for a table of plain cookies. -/
structure Represents (store : σ) (kept : κ → Option IndexedCookie) : Prop where
  holds : keeping.Holds store kept
  kept : ∀ slot c, kept slot = some c → PlainCookie c.1 ∧ Small c.1

variable {keeping} {store : σ} {kept : κ → Option IndexedCookie}

/-- A cookie that is constructed is plain and shows what is kept. -/
theorem Represents.construct (represents : keeping.Represents store kept) (id : VCookieId)
    (newVisitor : Bool) (junk : UInt8) :
    let found := VCookie.construct id newVisitor (engine.loadVCookie store junk)
    PlainCookie found ∧
      Finds (if newVisitor then none else kept (keeping.slot id)) id found := by
  intro found
  cases newVisitor with
  | true => exact ⟨plainCookie_fresh id true, rfl⟩
  | false =>
      cases here : kept (keeping.slot id) with
      | none =>
          have blank : found = fresh id true := by
            have missed := keeping.load_none represents.holds junk (fresh id false) here
            simp only [found, VCookie.construct, missed]
            rfl
          exact ⟨blank ▸ plainCookie_fresh id true, blank⟩
      | some saved =>
          obtain ⟨plainSaved, small⟩ := represents.kept _ saved here
          obtain ⟨loaded, load, sameId, reloaded, plainCookie⟩ :=
            keeping.load_some represents.holds junk id here plainSaved small
          have constructed : found = { loaded with newCookie := false }.clearFlags := by
            simp only [found, VCookie.construct, load]
            rfl
          rw [constructed]
          constructor
          · exact plainCookie.congr rfl rfl
          · refine ⟨sameId, rfl, ?_, ⟨reloaded.profile, reloaded.elements⟩⟩
            exact Prod.ext rfl (funext fun category => by cases category <;> rfl)

/-- A plain cookie that is saved takes its slot. -/
theorem Represents.save (represents : keeping.Represents store kept) {c : IndexedCookie}
    (plainCookie : PlainCookie c.1) (small : Small c.1) (admitted : keeping.Admits kept c.1.id) :
    keeping.Represents (engine.saveVCookie store c).1
      (Function.update kept (keeping.slot c.1.id) (some c)) where
  holds := keeping.save represents.holds c admitted
  kept slot c' after := by
    by_cases own : slot = keeping.slot c.1.id
    · rw [own, Function.update_self] at after
      cases after
      exact ⟨plainCookie, small⟩
    · rw [Function.update_of_ne own] at after
      exact represents.kept slot c' after

theorem Represents.delete (represents : keeping.Represents store kept) (c : VCookie) :
    keeping.Represents (engine.deleteVCookie store c).1
      (Function.update kept (keeping.slot c.id) none) where
  holds := keeping.delete represents.holds c
  kept slot c' after := by
    by_cases own : slot = keeping.slot c.id
    · rw [own, Function.update_self] at after
      contradiction
    · rw [Function.update_of_ne own] at after
      exact represents.kept slot c' after

theorem Represents.deleteOld (represents : keeping.Represents store kept) (t : TimeT) :
    keeping.Represents (engine.deleteOldVCookies store t).1
      (fun slot => (kept slot).filter fun c => !keeping.purges t c.1) where
  holds := keeping.deleteOld represents.holds t
  kept slot c after := represents.kept slot c (Option.filter_eq_some_iff.mp after).1

end Keeping

/-- A site beside the table of what is kept. -/
structure Kept (σ ν κ : Type) extends Site σ ν where
  kept : κ → Option IndexedCookie

namespace Kept

variable {σ ν κ : Type} [DecidableEq ν] [DecidableEq κ] {engine : StorageEngine σ}
  (keeping : Keeping engine κ)

/-- A save puts the cookie saved in its slot. -/
def keep (slot : VCookieId → κ) (kept : κ → Option IndexedCookie) :
    Option IndexedCookie → κ → Option IndexedCookie
  | some c => Function.update kept (slot c.1.id) (some c)
  | none => kept

/-- What is kept after a call. -/
def keptAfter (s : Kept σ ν κ) : SiteOp ν → κ → Option IndexedCookie
  | .delete name =>
      match s.cookies name with
      | some c => Function.update s.kept (keeping.slot c.1.id) none
      | none => s.kept
  | .deleteOld t => fun slot => (s.kept slot).filter fun c => !keeping.purges t c.1
  | op => keep keeping.slot s.kept (s.saved op)

def step (s : Kept σ ν κ) (op : SiteOp ν) : Kept σ ν κ :=
  { s.toSite.step engine op with kept := s.keptAfter keeping op }

/-- Changes are plain, and what is saved is small and of a visitor that is admitted. -/
def Admits (s : Kept σ ν κ) (op : SiteOp ν) : Prop :=
  (∀ name m, op = .mutate name m → m.Plain) ∧
    ∀ c, s.saved op = some c → Small c.1 ∧ keeping.Admits s.kept c.1.id

/-- The store stands for what is kept, and every cookie is plain. -/
structure Consistent (s : Kept σ ν κ) : Prop where
  represents : keeping.Represents s.store s.kept
  cookies : ∀ name c, s.cookies name = some c → PlainCookie c.1

variable {keeping} {s : Kept σ ν κ}

/-- The cookie under one name is replaced by a plain one, if at all. -/
theorem plain_update {cookies : ν → Option IndexedCookie}
    (plain : ∀ name c, cookies name = some c → PlainCookie c.1) {name : ν}
    {replaced : Option IndexedCookie} (new : ∀ c, replaced = some c → PlainCookie c.1)
    (other : ν) (c : IndexedCookie)
    (found : Function.update cookies name replaced other = some c) : PlainCookie c.1 := by
  by_cases same : other = name
  · rw [same, Function.update_self] at found
    exact new c found
  · rw [Function.update_of_ne same] at found
    exact plain other c found

/-- Admitted calls leave plain cookies. -/
theorem Consistent.plain_step (consistent : s.Consistent keeping) {op : SiteOp ν}
    (admitted : s.Admits keeping op) :
    ∀ name c, (s.toSite.step engine op).cookies name = some c → PlainCookie c.1 := by
  cases op with
  | construct name visitor newVisitor junk =>
      apply plain_update consistent.cookies
      rintro c ⟨⟩
      exact (consistent.represents.construct visitor newVisitor junk).1
  | mutate name m =>
      apply plain_update consistent.cookies
      intro c changed
      rcases Option.map_eq_some_iff.mp changed with ⟨old, own, rfl⟩
      exact (consistent.cookies name old own).mutate (admitted.1 name m rfl)
  | store name =>
      rw [Site.step]
      split
      · rename_i old own
        apply plain_update consistent.cookies
        rintro c ⟨⟩
        exact (consistent.cookies name old own).congr rfl rfl
      · exact consistent.cookies
  | destroy name =>
      rw [Site.step]
      split
      · apply plain_update consistent.cookies
        rintro c ⟨⟩
      · exact consistent.cookies
  | delete name =>
      rw [Site.step]
      split <;> exact consistent.cookies
  | deleteOld t => exact consistent.cookies

/-- Admitted calls leave a store that stands for what is kept. -/
theorem Consistent.represents_step (consistent : s.Consistent keeping) {op : SiteOp ν}
    (admitted : s.Admits keeping op) :
    keeping.Represents (s.toSite.step engine op).store (s.keptAfter keeping op) := by
  have represents := consistent.represents
  cases op with
  | construct name visitor newVisitor junk => exact represents
  | mutate name m => exact represents
  | store name =>
      cases own : s.cookies name with
      | none => simpa only [Site.step, keptAfter, keep, Site.saved, own] using represents
      | some c =>
          have saved : s.saved (.store name) = some c := own
          obtain ⟨small, visitor⟩ := admitted.2 c saved
          simpa only [Site.step, keptAfter, keep, saved, own] using
            represents.save (consistent.cookies name c own) small visitor
  | destroy name =>
      cases own : s.cookies name with
      | none =>
          simpa only [Site.step, keptAfter, keep, Site.saved, own, Option.filter_none] using
            represents
      | some c =>
          by_cases modified : c.1.modified = true
          · have saved : s.saved (.destroy name) = some c := by
              rw [Site.saved, own, Option.filter_some, if_pos modified]
            obtain ⟨small, visitor⟩ := admitted.2 c saved
            simpa only [Site.step, keptAfter, keep, saved, own, if_pos modified] using
              represents.save (consistent.cookies name c own) small visitor
          · have silent : s.saved (.destroy name) = none := by
              rw [Site.saved, own, Option.filter_some, if_neg modified]
            simpa only [Site.step, keptAfter, keep, silent, own, if_neg modified] using represents
  | delete name =>
      cases own : s.cookies name with
      | none => simpa only [Site.step, keptAfter, keep, Site.saved, own] using represents
      | some c => simpa only [Site.step, keptAfter, own] using represents.delete c.1
  | deleteOld t => exact represents.deleteOld t

/-- Admitted calls keep the site consistent. -/
theorem Consistent.step (consistent : s.Consistent keeping) {op : SiteOp ν}
    (admitted : s.Admits keeping op) : (s.step keeping op).Consistent keeping where
  represents := consistent.represents_step admitted
  cookies := consistent.plain_step admitted

/-- Along a run of admitted calls every cookie constructed shows what is kept. -/
theorem finds_run (consistent : s.Consistent keeping) {ops : List (SiteOp ν)}
    (admitted : EveryStep (Kept.step keeping) (Kept.Admits keeping) s ops) :
    Always (Kept.step keeping) (fun s => ∀ id newVisitor junk,
      Finds (if newVisitor then none else s.kept (keeping.slot id)) id
        (VCookie.construct id newVisitor (engine.loadVCookie s.store junk))) s ops :=
  always_of_everyStep
    (fun _ consistent id newVisitor junk =>
      (consistent.represents.construct id newVisitor junk).2)
    (fun _ _ consistent admitted => consistent.step admitted) consistent admitted

end Kept

end Elevator
