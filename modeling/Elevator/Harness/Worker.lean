import Elevator.Harness.HitBody
import Elevator.Store.Engines

/-!
# A worker and its store

A worker takes hits from its source one by one, and for each constructs a cookie,
changes it and saves it.  A visitor starts over with every hit that says it is of a new
visitor.  At any time his cookie shows the first hit since then, the last one, and the
number and the most recent of his purchases, whatever hits of others came between.
-/

namespace Elevator.Harness

open Wire Transition Sequence RelVarTable VCookie VCookieStore DwfileHitSource

/-! ## Serving hits -/

section Serve

variable {σ : Type} (engine : StorageEngine σ) (junk : UInt8)

theorem indexed_applyHit (hit : HitData) {cookie : VCookie}
    (indexed : cookie.toRelVarTable.Indexed) : (applyHit hit cookie).toRelVarTable.Indexed := by
  rw [applyHit_eq]
  apply After.indexed (after_evarLoop _ hit.toHit)
  exact @run_invariant _ _ mutate (fun d => d.toRelVarTable.Indexed)
    (fun _ m kept => indexed_mutate kept m) cookie indexed _

/-- The cookie of a hit as it is saved. -/
def hitCookie (store : σ) (hit : HitData) : IndexedCookie :=
  let cookie := IndexedCookie.construct engine store hit.id hit.visidNew junk
  ⟨applyHit hit cookie.1, indexed_applyHit hit cookie.2⟩

/-- A turn of the loop over the hits.  `Store` leaves the cookie unmodified, so that its
destructor saves nothing. -/
def serve (store : σ) (hit : HitData) : σ :=
  (engine.saveVCookie store (hitCookie engine junk store hit)).1

/-- The loop over the hits, unless `NextHit` throws. -/
def workerLoop (cast : LexicalCast) : Nat → DwfileHitSource → σ → Option (DwfileHitSource × σ)
  | 0, hits, store => some (hits, store)
  | requests + 1, hits, store =>
      match nextHit cast hits with
      | (.hit hit, hits) => workerLoop cast requests hits (serve engine junk store hit)
      | (.ended, hits) => some (hits, store)
      | (.threw, _) => none

end Serve

/-! ## What a visitor finds -/

/-- The hits since the last one that is of a new visitor, that one included. -/
def sinceNew (hits : List HitData) : List HitData :=
  hits.foldl (fun since hit => if hit.visidNew then [hit] else since ++ [hit]) []

/-- The purchase ids of hits. -/
def purchases (hits : List HitData) : List Bytes :=
  (hits.map HitData.purchaseid).filter (· ≠ [])

/-- The profile that hits leave, as the getters return it. -/
def summarize (first last : HitData) (since : List HitData) : Profile where
  firstHitTimeGMT := first.hitTimeGmt
  lastHitTimeGMT := last.hitTimeGmt
  lastHitTimeVisitorLocal := last.hitTimeGmt
  lastVisitNum := last.visitNum.toUInt32
  lastPurchaseTimeGMT := last.hitTimeGmt
  firstHitReferrer := first.referrer
  firstHitPageUrl := first.pageUrl
  firstHitPagename := first.pageName
  lastPurchaseNum := UInt32.ofNat (purchases since).length
  merchandising := []
  purchaseIds := mostRecent numSavedPurchaseIds (purchases since)

def summary : List HitData → Option Profile
  | [] => none
  | first :: rest => some (summarize first (rest.getLastD first) (first :: rest))

/-- What a visitor finds after the hits of his slot. -/
def Recalls (hits : List HitData) (id : VCookieId) (found : VCookie) : Prop :=
  match summary (sinceNew hits) with
  | none => found = fresh id true
  | some p =>
      found.id = id ∧ found.newCookie = false ∧ found.flags = (false, fun _ => false) ∧
        found.profile = p ∧ NoVars found

theorem sinceNew_concat (hits : List HitData) (hit : HitData) :
    sinceNew (hits ++ [hit]) = if hit.visidNew then [hit] else sinceNew hits ++ [hit] := by
  rw [sinceNew, List.foldl_append]
  rfl

/-- The members as the getters return them. -/
def Profile.gotten (p : Profile) : Profile :=
  { p with
    lastHitTimeVisitorLocal := p.lastHitTimeGMT
    lastPurchaseTimeGMT := p.lastHitTimeGMT }

theorem gottenProfile_eq (c : VCookie) : gottenProfile c = Profile.gotten c.profile :=
  rfl

theorem purchases_concat (hits : List HitData) (hit : HitData) :
    purchases (hits ++ [hit]) =
      purchases hits ++ if hit.purchaseid = [] then [] else [hit.purchaseid] := by
  rw [purchases, List.map_append, List.filter_append]
  by_cases none : hit.purchaseid = [] <;> simp [purchases, none]

/-- A purchase is counted, and its id becomes the most recent one. -/
theorem purchases_after (hits : List HitData) (hit : HitData) :
    (if hit.purchaseid = [] then UInt32.ofNat (purchases hits).length
      else UInt32.ofNat (purchases hits).length + 1) =
        UInt32.ofNat (purchases (hits ++ [hit])).length ∧
    (if hit.purchaseid = [] then mostRecent numSavedPurchaseIds (purchases hits)
      else usePurchaseId (mostRecent numSavedPurchaseIds (purchases hits)) hit.purchaseid) =
        mostRecent numSavedPurchaseIds (purchases (hits ++ [hit])) := by
  rw [purchases_concat]
  by_cases none : hit.purchaseid = []
  · simp [none]
  · rw [if_neg none, if_neg none, if_neg none, List.length_append, usePurchaseId,
      use_mostRecent (by decide)]
    exact ⟨(UInt32.ofNat_add _ _).symm, rfl⟩

/-- The first hit of a new visitor. -/
theorem summary_singleton (hit : HitData) :
    summary [hit] = some (Profile.gotten (profileAfter hit true Profile.zero)) := by
  rcases purchases_after [] hit with ⟨count, ids⟩
  have none : mostRecent numSavedPurchaseIds (purchases []) = [] := mostRecent_nil _
  rw [none] at ids
  rw [List.nil_append] at count ids
  rw [summary, summarize, ← count, ← ids]
  rfl

/-- A hit of a visitor who is not new. -/
theorem summary_concat {since : List HitData} {p : Profile} (before : summary since = some p)
    (hit : HitData) :
    summary (since ++ [hit]) = some (Profile.gotten (profileAfter hit false p)) := by
  rcases purchases_after since hit with ⟨count, ids⟩
  cases since with
  | nil => cases before
  | cons first rest =>
      cases before
      rw [List.cons_append] at count ids ⊢
      rw [summary, summarize, ← count, ← ids, List.getLastD_concat]
      rfl

/-! ## Runs -/

section Served

variable {σ κ : Type} [DecidableEq κ] {engine : StorageEngine σ} (keeping : Keeping engine κ)

/-- The store stands for cookies without variables that show what the hits in the
history of their slots leave. -/
structure Served (history : κ → List HitData) (store : σ) (kept : κ → Option IndexedCookie) :
    Prop where
  represents : keeping.Represents store kept
  cookies : ∀ slot c, kept slot = some c → NoVars c.1 ∧ ShortTexts c.1.profile
  recalled : ∀ slot, (kept slot).map (fun c => gottenProfile c.1) =
    summary (sinceNew (history slot))

/-- A constructed cookie shows `recalled`, if anything. -/
structure Found (visitor : VCookieId) (recalled : Option Profile) (found : VCookie) : Prop where
  plain : PlainCookie found
  noVars : NoVars found
  short : ShortTexts found.profile
  id : found.id = visitor
  newCookie : found.newCookie = recalled.isNone
  profile : found.profile = recalled.getD Profile.zero
  flags : found.flags = (false, fun _ => false)
  blank : recalled = none → found = fresh visitor true

theorem shortTexts_zero : ShortTexts Profile.zero := by
  intro text member
  simp only [Profile.texts, Profile.zero, List.append_nil, List.mem_cons, List.not_mem_nil,
    or_self, or_false] at member
  rw [member]
  exact Nat.two_pow_pos 28

theorem found_fresh (id : VCookieId) : Found id none (fresh id true) where
  plain := plainCookie_fresh id true
  noVars r := rfl
  short := shortTexts_zero
  id := rfl
  newCookie := rfl
  profile := rfl
  flags := Prod.ext rfl (funext fun category => by cases category <;> rfl)
  blank _ := rfl

variable {keeping} {history : κ → List HitData} {store : σ} {kept : κ → Option IndexedCookie}

theorem Served.construct (served : Served keeping history store kept) (id : VCookieId)
    (newVisitor : Bool) (junk : UInt8) :
    Found id (if newVisitor then none else summary (sinceNew (history (keeping.slot id))))
      (VCookie.construct id newVisitor (engine.loadVCookie store junk)) := by
  rcases served.represents.construct id newVisitor junk with ⟨plain, finds⟩
  generalize VCookie.construct id newVisitor (engine.loadVCookie store junk) = found at plain finds
  cases newVisitor with
  | true =>
      rw [if_pos rfl] at finds ⊢
      rw [show found = fresh id true from finds]
      exact found_fresh id
  | false =>
      rw [if_neg Bool.false_ne_true] at finds ⊢
      rw [← served.recalled]
      cases here : kept (keeping.slot id) with
      | none =>
          rw [here] at finds
          rw [show found = fresh id true from finds]
          exact found_fresh id
      | some saved =>
          rw [here] at finds
          rcases finds with ⟨sameId, newCookie, flags, reloaded⟩
          rcases served.cookies _ saved here with ⟨noVars, short⟩
          constructor
          · exact plain
          · exact fun r => (reloaded.elements r).trans (noVars r)
          · rw [reloaded.profile]
            exact short
          · exact sameId
          · exact newCookie
          · exact reloaded.profile
          · exact flags
          · exact fun none => by cases none

/-- Whoever comes back finds what the hits of his slot left. -/
theorem Served.recalls (served : Served keeping history store kept) (id : VCookieId)
    (junk : UInt8) :
    Recalls (history (keeping.slot id)) id
      (VCookie.construct id false (engine.loadVCookie store junk)) := by
  have found := served.construct id false junk
  rw [if_neg Bool.false_ne_true] at found
  rw [Recalls]
  cases recalled : summary (sinceNew (history (keeping.slot id))) with
  | some p =>
      rw [recalled] at found
      exact ⟨found.id, found.newCookie, found.flags, found.profile, found.noVars⟩
  | none => exact found.blank recalled

/-- What a hit makes of what was recalled. -/
theorem summary_sinceNew_concat (hits : List HitData) (hit : HitData) :
    let recalled := if hit.visidNew then none else summary (sinceNew hits)
    summary (sinceNew (hits ++ [hit])) =
      some (Profile.gotten (profileAfter hit recalled.isNone (recalled.getD Profile.zero))) := by
  rw [sinceNew_concat]
  by_cases new : hit.visidNew = true
  · simp only [if_pos new]
    exact summary_singleton hit
  · simp only [if_neg new]
    cases recalled : summary (sinceNew hits) with
    | some p => exact summary_concat recalled hit
    | none =>
        have none : sinceNew hits = [] := by
          cases since : sinceNew hits with
          | nil => rfl
          | cons first rest =>
              rw [since] at recalled
              cases recalled
        rw [none]
        exact summary_singleton hit

/-- A cookie that shows what the hits of `base` leave and one more. -/
structure Prepared (base : List HitData) (hit : HitData) (c : IndexedCookie) : Prop where
  plain : PlainCookie c.1
  noVars : NoVars c.1
  short : ShortTexts c.1.profile
  id : c.1.id = hit.id
  recalled : some (gottenProfile c.1) = summary (sinceNew (base ++ [hit]))

/-- The cookie of a hit. -/
theorem Served.prepare (served : Served keeping history store kept) {hit : HitData}
    (fits : hit.Fits) (junk : UInt8) :
    Prepared (history (keeping.slot hit.id)) hit (hitCookie engine junk store hit) := by
  have found := served.construct hit.id hit.visidNew junk
  obtain ⟨plain, noVars, profile, sameId⟩ := applied_of_plain fits.nulFree found.plain found.noVars
  have short := shortTexts_profileAfter fits
    (VCookie.construct hit.id hit.visidNew (engine.loadVCookie store junk)).newCookie found.short
  rw [← profile] at short
  constructor
  · exact plain
  · exact noVars
  · exact short
  · exact sameId.trans found.id
  · rw [summary_sinceNew_concat, gottenProfile_eq, ← found.newCookie, ← found.profile]
    exact congrArg (fun p => some (Profile.gotten p)) profile

/-- Saving the cookie of a hit, whatever is kept by then. -/
theorem Served.save (served : Served keeping history store kept) {base : List HitData}
    {hit : HitData} {c : IndexedCookie} (prepared : Prepared base hit c)
    (admitted : keeping.Admits kept hit.id) :
    Served keeping (Function.update history (keeping.slot hit.id) (base ++ [hit]))
      (engine.saveVCookie store c).1
      (Function.update kept (keeping.slot hit.id) (some c)) := by
  have small := small_of_noVars prepared.plain prepared.noVars prepared.short
  constructor
  · have saved := served.represents.save prepared.plain small (prepared.id ▸ admitted)
    rwa [prepared.id] at saved
  · intro slot c' after
    by_cases own : slot = keeping.slot hit.id
    · rw [own, Function.update_self] at after
      cases after
      exact ⟨prepared.noVars, prepared.short⟩
    · rw [Function.update_of_ne own] at after
      exact served.cookies slot c' after
  · intro slot
    by_cases own : slot = keeping.slot hit.id
    · rw [own, Function.update_self, Function.update_self, Option.map_some]
      exact prepared.recalled
    · rw [Function.update_of_ne own, Function.update_of_ne own]
      exact served.recalled slot

theorem served_empty {empty : σ} (start : keeping.Holds empty fun _ => none) :
    Served keeping (fun _ => []) empty fun _ => none where
  represents := ⟨start, fun _ _ kept => by cases kept⟩
  cookies _ _ kept := by cases kept
  recalled _ := rfl

variable (keeping) in
/-- The hits of a slot. -/
def slotHits (hits : List HitData) (slot : κ) : List HitData :=
  hits.filter fun hit => keeping.slot hit.id = slot

theorem slotHits_concat (hits : List HitData) (hit : HitData) :
    slotHits keeping (hits ++ [hit]) =
      Function.update (slotHits keeping hits) (keeping.slot hit.id)
        (slotHits keeping hits (keeping.slot hit.id) ++ [hit]) := by
  funext slot
  rw [slotHits, List.filter_append, List.filter_singleton]
  by_cases own : slot = keeping.slot hit.id
  · rw [own, Function.update_self]
    simp [slotHits]
  · rw [Function.update_of_ne own]
    simp [slotHits, Ne.symm own]

variable {hits : List HitData}

/-- A slot that is taken belongs to a hit. -/
theorem Served.exists_hit (served : Served keeping (slotHits keeping hits) store kept) {slot : κ}
    (taken : (kept slot).isSome) : ∃ hit ∈ hits, keeping.slot hit.id = slot := by
  have recalled := served.recalled slot
  rcases Option.isSome_iff_exists.mp taken with ⟨c, here⟩
  rw [here, Option.map_some] at recalled
  cases own : slotHits keeping hits slot with
  | nil =>
      rw [own] at recalled
      cases recalled
  | cons hit rest =>
      have among : hit ∈ slotHits keeping hits slot := own ▸ List.mem_cons_self
      rcases List.mem_filter.mp among with ⟨member, same⟩
      exact ⟨hit, member, of_decide_eq_true same⟩

/-- Serving hits one after the other. -/
theorem served_run {empty : σ} (start : keeping.Holds empty fun _ => none) (junk : UInt8)
    {hits : List HitData} (fits : ∀ hit ∈ hits, hit.Fits)
    (admitted : ∀ hit ∈ hits, ∀ kept : κ → Option IndexedCookie,
      (∀ slot, (kept slot).isSome → ∃ other ∈ hits, keeping.slot other.id = slot) →
        keeping.Admits kept hit.id) :
    ∃ kept, Served keeping (slotHits keeping hits) (run (serve engine junk) empty hits) kept := by
  induction hits using List.reverseRecOn with
  | nil => exact ⟨fun _ => none, served_empty start⟩
  | append_singleton hits hit ih =>
      rcases List.forall_mem_append.mp fits with ⟨fitsRest, fitsLast⟩
      obtain ⟨kept, served⟩ := ih fitsRest fun other member kept taken =>
        admitted other (List.mem_append_left _ member) kept fun slot some => by
          rcases taken slot some with ⟨found, among, same⟩
          exact ⟨found, List.mem_append_left _ among, same⟩
      rw [run_concat, slotHits_concat]
      have prepared := served.prepare (fitsLast hit (List.mem_singleton_self hit)) junk
      refine ⟨_, served.save prepared ?_⟩
      apply admitted hit (List.mem_append_right _ (List.mem_singleton_self hit))
      intro slot taken
      rcases served.exists_hit taken with ⟨found, among, same⟩
      exact ⟨found, List.mem_append_left _ among, same⟩

end Served

/-! ## Over either engine -/

theorem served_inMemory (junk : UInt8) {hits : List HitData} (fits : ∀ hit ∈ hits, hit.Fits)
    (comparable : ∀ a ∈ hits, ∀ b ∈ hits, a.id.AtMost b.id ∨ b.id.AtMost a.id) :
    ∃ kept, Served VCStoreInMemory.keeping (slotHits VCStoreInMemory.keeping hits)
      (run (serve VCStoreInMemory.engine junk) .nil hits) kept := by
  apply served_run (Ordered.represents_nil VCookieId.lt) junk fits
  intro hit member kept taken other live
  rcases taken other live with ⟨found, among, rfl⟩
  exact comparable hit member found among

/-- Whatever hits are served from an empty in-memory store, if their visitors are
comparable every visitor finds what his own hits left. -/
theorem recalls_inMemory (junk : UInt8) {hits : List HitData} (fits : ∀ hit ∈ hits, hit.Fits)
    (comparable : ∀ a ∈ hits, ∀ b ∈ hits, a.id.AtMost b.id ∨ b.id.AtMost a.id)
    (id : VCookieId) :
    Recalls (hits.filter fun hit => hit.id = id) id
      (VCookie.construct id false
        (VCStoreInMemory.loadVCookie (run (serve VCStoreInMemory.engine junk) .nil hits)
          junk)) := by
  rcases served_inMemory junk fits comparable with ⟨kept, served⟩
  exact served.recalls id junk

/-- A purchase of a visitor without a referrer. -/
def plainHit : HitData where
  hitTimeGmt := 10
  evar _ := [97]
  rsid := 1
  visidHigh := 2
  visidLow := 3
  visidNew := false
  visitNum := 4
  referrer := []
  pageUrl := [47, 97]
  pageName := [97]
  purchaseTimeGmt := 9
  purchaseid := [49]
  campaign := []

theorem fits_plainHit : plainHit.Fits := by
  constructor <;> decide +kernel

theorem recalls_inMemory_plain :
    let hits := [plainHit, { plainHit with purchaseid := [] }]
    Recalls (hits.filter fun hit => hit.id = plainHit.id) plainHit.id
      (VCookie.construct plainHit.id false
        (VCStoreInMemory.loadVCookie (run (serve VCStoreInMemory.engine 0) .nil hits) 0)) := by
  intro hits
  apply recalls_inMemory
  · intro hit member
    rcases List.mem_pair.mp member with rfl | rfl
    · exact fits_plainHit
    · constructor <;> decide +kernel
  · intro a first b second
    rcases List.mem_pair.mp first with rfl | rfl <;>
      rcases List.mem_pair.mp second with rfl | rfl <;>
      exact Or.inl (VCookieId.AtMost.refl _)

/-- Whatever hits are served from an empty bucket, every visitor finds what the hits of
his user left. -/
theorem recalls_couchbase {σ : Type} {lcb : VCCouchbaseStore.Lcb σ} {empty : σ}
    (faithful : VCCouchbaseStore.Faithful lcb empty) (junk : UInt8) {hits : List HitData}
    (fits : ∀ hit ∈ hits, hit.Fits) (id : VCookieId) :
    Recalls (hits.filter fun hit => hit.id.userid = id.userid) id
      (VCookie.construct id false
        (VCCouchbaseStore.loadVCookie lcb
          (run (serve (VCCouchbaseStore.engine lcb) junk) empty hits) junk)) := by
  have start : (VCCouchbaseStore.keeping faithful).Holds empty fun _ => none :=
    (VCCouchbaseStore.consistent_emptySite faithful Unit).represents.holds
  obtain ⟨kept, served⟩ := served_run start junk fits fun _ _ _ _ => trivial
  exact served.recalls id junk

theorem recalls_couchbase_plain :
    Recalls ([plainHit].filter fun hit => hit.id.userid = 1) ⟨1, 5, 6⟩
      (VCookie.construct ⟨1, 5, 6⟩ false
        (VCCouchbaseStore.loadVCookie VCCouchbaseStore.mapLcb
          (run (serve (VCCouchbaseStore.engine VCCouchbaseStore.mapLcb) 0) (fun _ => none)
            [plainHit]) 0)) :=
  recalls_couchbase VCCouchbaseStore.faithful_mapLcb 0
    (List.forall_mem_singleton.mpr fits_plainHit) ⟨1, 5, 6⟩

end Elevator.Harness
