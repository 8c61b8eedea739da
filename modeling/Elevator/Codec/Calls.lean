import Elevator.Codec.Trace

/-!
# The calls of the decoder

A property that every setter keeps is kept by the decoder, whether it accepts the
buffer or not.  The calls it makes are those of the known fields, of variables with a
valid relation, and of elements behind the first.
-/

namespace Elevator

open Wire Transition RelVarTable VCookie

/-- The setters of the known fields. -/
def Mutator.IsField : Mutator → Prop
  | .setVar .. => False
  | .clearVar _ => False
  | .addLinearElement .. => False
  | _ => True

namespace VCookie

theorem table_mutate_of_isField {m : Mutator} (field : m.IsField) (cookie : VCookie) :
    (cookie.mutate m).toRelVarTable = cookie.toRelVarTable := by
  cases m with
  | setPurchaseId purchaseId => exact setPurchaseId_table cookie purchaseId
  | setVar => exact False.elim field
  | clearVar => exact False.elim field
  | addLinearElement => exact False.elim field
  | _ => rfl

end VCookie

namespace VCookieStore

/-! ## What the decoder calls -/

section Keeps

variable {σ α β : Type}

/-- What a decode leaves behind, accepted or not. -/
def leftBy (f : α → σ) : Except σ α → σ
  | .error cookie => cookie
  | .ok result => f result

theorem keeps_bind {inv : σ → Prop} {f : α → σ} {g : β → σ} {x : Except σ α}
    {k : α → Except σ β} (first : inv (leftBy f x))
    (rest : ∀ a, inv (f a) → inv (leftBy g (k a))) : inv (leftBy g (x >>= k)) := by
  cases x with
  | error cookie => exact first
  | ok a => exact rest a first

variable {setters : Setters σ} {inv : σ → Prop}

theorem keeps_readField {item : Item α} {set : α → Mutator}
    (writes : ∀ cookie val, inv cookie → inv (setters.mutate cookie (set val)))
    (buffer : Bytes) (number : UInt8) {s : Cursor σ} (start : inv s.cookie) :
    inv (leftBy Cursor.cookie (readField setters buffer item number set s)) := by
  unfold readField
  split
  · split
    · exact start
    · rename_i val b _
      have written := writes s.cookie val start
      dsimp only
      split <;> exact written
  · exact start

theorem keeps_readPurchaseLoop
    (writes : ∀ cookie pid, inv cookie → inv (setters.mutate cookie (.setPurchaseId pid)))
    (buffer : Bytes) (count : Nat) {cookie : σ} (b : Nat) (start : inv cookie) :
    inv (leftBy Prod.fst (readPurchaseLoop setters buffer count cookie b)) := by
  induction count generalizing cookie b with
  | zero => exact start
  | succ count ih =>
      rw [readPurchaseLoop]
      split
      · exact start
      · exact ih _ (writes _ _ start)

theorem keeps_readPurchaseIds
    (writes : ∀ cookie pid, inv cookie → inv (setters.mutate cookie (.setPurchaseId pid)))
    (buffer : Bytes) {s : Cursor σ} (start : inv s.cookie) :
    inv (leftBy Cursor.cookie (readPurchaseIds setters buffer s)) := by
  unfold readPurchaseIds
  split
  · split
    · exact start
    · rename_i cnt b _
      have ids := keeps_readPurchaseLoop writes buffer cnt.toNat b start
      split
      · rename_i stopped
        rwa [stopped] at ids
      · rename_i done
        rw [done] at ids
        split <;> exact ids
  · exact start

/-- The fields keep what every setter keeps; the last-hit time is set only if field 2
follows the first field. -/
theorem keeps_readFields (writes : ∀ cookie m, m.IsField → (∀ t, m ≠ .setLastHitTimeGMT t) →
      inv cookie → inv (setters.mutate cookie m))
    (buffer : Bytes) {s : Cursor σ} (start : inv s.cookie)
    (second : ∀ s', readField setters buffer i64 1 .setFirstHitTimeGMT s = .ok s' →
      s'.next = 2 → ∀ cookie t, inv cookie → inv (setters.mutate cookie (.setLastHitTimeGMT t))) :
    inv (leftBy Cursor.cookie (readFields setters buffer s)) := by
  have keeps {α : Type} {item : Item α} {set : α → Mutator} {number : UInt8} {s : Cursor σ}
      (field : ∀ val, (set val).IsField) (other : ∀ val t, set val ≠ .setLastHitTimeGMT t)
      (start : inv s.cookie) :
      inv (leftBy Cursor.cookie (readField setters buffer item number set s)) :=
    keeps_readField (fun cookie val => writes cookie _ (field val) (other val)) buffer _ start
  have first : inv (leftBy Cursor.cookie
      (readField setters buffer i64 1 .setFirstHitTimeGMT s)) :=
    keeps (fun _ => trivial) (by simp) start
  unfold readFields
  cases result : readField setters buffer i64 1 .setFirstHitTimeGMT s with
  | error cookie => rwa [result] at first
  | ok s =>
      rw [result] at first
      have lastHit : inv (leftBy Cursor.cookie
          (readField setters buffer i64 2 .setLastHitTimeGMT s)) := by
        by_cases present : s.next = 2
        · exact keeps_readField (second s result present) buffer _ first
        · rw [readField, if_neg present]
          exact first
      apply keeps_bind lastHit
      intro s start
      apply keeps_bind (keeps (by exact fun _ => trivial) (by simp) start)
      intro s start
      apply keeps_bind (keeps (by exact fun _ => trivial) (by simp) start)
      intro s start
      apply keeps_bind (keeps (by exact fun _ => trivial) (by simp) start)
      intro s start
      apply keeps_bind (keeps (by exact fun _ => trivial) (by simp) start)
      intro s start
      apply keeps_bind (keeps (by exact fun _ => trivial) (by simp) start)
      intro s start
      apply keeps_bind (keeps (by exact fun _ => trivial) (by simp) start)
      intro s start
      apply keeps_bind (keeps (by exact fun _ => trivial) (by simp) start)
      intro s start
      apply keeps_bind (keeps (by exact fun _ => trivial) (by simp) start)
      intro s start
      have ids (cookie : σ) (pid : Bytes) (start : inv cookie) :
          inv (setters.mutate cookie (.setPurchaseId pid)) :=
        writes cookie _ trivial (by simp) start
      exact keeps_readPurchaseIds ids buffer start

/-- A property kept by the calls for variables. -/
structure KeptByVars (setters : Setters σ) (inv : σ → Prop) : Prop where
  setVar : ∀ {cookie rid rv allocType cnt}, rid ≠ invalidRid → allocType ≠ .first →
    inv cookie → inv (setters.setVar cookie rid rv allocType cnt).1
  addLinearElement : ∀ {cookie vid rv}, inv cookie →
    inv (setters.addLinearElement cookie vid rv)

theorem keeps_readElements (kept : KeptByVars setters inv) (buffer : Bytes) {rid : RelationId}
    (valid : rid ≠ invalidRid) (cnt : UInt32) (remaining : Nat) {cookie : σ} (vid b : Nat)
    (start : inv cookie) :
    inv (leftBy Prod.fst (readElements setters buffer rid cnt remaining cookie vid b)) := by
  induction remaining generalizing cookie vid b with
  | zero => exact start
  | succ remaining ih =>
      rw [readElements]
      split
      · exact start
      · dsimp only
        split
        · refine ih _ _ (kept.setVar valid ?_ start)
          split <;> simp
        · exact ih _ _ (kept.addLinearElement start)

theorem keeps_readVars (kept : KeptByVars setters inv) (buffer : Bytes) {cookie : σ}
    (rid : RelationId) (b : Nat) (start : inv cookie) :
    inv (leftBy id (readVars setters buffer cookie rid b)) := by
  fun_induction readVars setters buffer cookie rid b with
  | case1 => exact start
  | case2 => exact start
  | case3 cookie rid b valid cnt b₁ count stopped elements =>
      have left := keeps_readElements kept buffer valid cnt cnt.toNat varNotSet b₁ start
      rwa [elements] at left
  | case4 cookie rid b valid cnt b₁ count cookie' b₂ elements again =>
      have left := keeps_readElements kept buffer valid cnt cnt.toNat varNotSet b₁ start
      rwa [elements] at left
  | case5 cookie rid b valid cnt b₁ count cookie' b₂ elements rid' b₃ again ih =>
      have left := keeps_readElements kept buffer valid cnt cnt.toNat varNotSet b₁ start
      rw [elements] at left
      exact ih left

/-- A property kept by every call that the decoder makes. -/
structure KeptBy (setters : Setters σ) (inv : σ → Prop) : Prop where
  mutate : ∀ {cookie m}, m.IsField → inv cookie → inv (setters.mutate cookie m)
  setVar : ∀ {cookie rid rv allocType cnt}, rid ≠ invalidRid → allocType ≠ .first →
    inv cookie → inv (setters.setVar cookie rid rv allocType cnt).1
  addLinearElement : ∀ {cookie vid rv}, inv cookie →
    inv (setters.addLinearElement cookie vid rv)

/-- The offset that is read behind the header ends at the seventh byte. -/
theorem position_of_header {buffer : Bytes} {junk : UInt8} {offset : UInt32} {b : Nat}
    (read : u32.read buffer (readHeaderByte buffer junk
      (readHeaderByte buffer junk (readHeaderByte buffer junk 0).2).2).2 = some (offset, b)) :
    b = 7 := by
  have long : 3 ≤ buffer.length := by
    by_contra short
    rw [u32_read_of_lt (by omega)] at read
    contradiction
  have header (b : Nat) (inside : b < buffer.length) :
      (readHeaderByte buffer junk b).2 = b + 1 := by
    rw [readHeaderByte, u8_read_of_lt inside, Option.getD_some]
  rw [header 0 (by omega), header 1 (by omega), header 2 (by omega)] at read
  rcases Option.map_eq_some_iff.mp read with ⟨result, word, equal⟩
  rcases readWord_eq_some_iff.mp word with ⟨_, rfl⟩
  exact (congrArg Prod.snd equal).symm

/-- What the fields and the calls for variables keep holds of what the decoder leaves. -/
theorem keeps_decode_of_fields (vars : KeptByVars setters inv) (junk : UInt8) (buffer : Bytes)
    {cookie : σ} (start : inv cookie)
    (fields : ∀ next b, u8.read buffer 7 = some (next, b) →
      inv (leftBy Cursor.cookie (readFields setters buffer ⟨cookie, b, next⟩))) :
    inv (leftBy id (decode setters junk cookie buffer)) := by
  unfold decode
  dsimp only
  split
  · exact start
  · split
    · exact start
    · rename_i offset b header
      split
      · exact start
      · rename_i next b' behind
        have left := fields next b' (position_of_header header ▸ behind)
        split
        · rename_i stopped
          rwa [stopped] at left
        · rename_i s done
          rw [done] at left
          split
          · exact left
          · split
            · exact left
            · exact keeps_readVars vars buffer _ _ left

/-- A property kept by every call holds of what the decoder leaves. -/
theorem keeps_decode (kept : KeptBy setters inv) (junk : UInt8) (buffer : Bytes) {cookie : σ}
    (start : inv cookie) : inv (leftBy id (decode setters junk cookie buffer)) :=
  keeps_decode_of_fields ⟨kept.setVar, kept.addLinearElement⟩ junk buffer start fun _ _ _ =>
    keeps_readFields (fun _ _ field _ => kept.mutate field) buffer start
      fun _ _ _ _ _ => kept.mutate trivial

end Keeps

/-- The calls a decoder makes: fields, variables of a valid relation, appends. -/
def Call.Decoded : Call → Prop
  | .mutate m => m.IsField
  | .setVar rid _ allocType _ => rid ≠ invalidRid ∧ allocType ≠ .first
  | .append .. => True

theorem decoded_of_mem_scan (buffer : Bytes) : ∀ call ∈ (scan buffer).1, call.Decoded := by
  have concat {calls : List Call} {last : Call} (all : ∀ call ∈ calls, call.Decoded)
      (decoded : last.Decoded) : ∀ call ∈ calls ++ [last], call.Decoded :=
    List.forall_mem_append.mpr ⟨all, List.forall_mem_singleton.mpr decoded⟩
  have kept : KeptBy traceSetters fun calls => ∀ call ∈ calls, call.Decoded :=
    ⟨fun field all => concat all field, fun valid other all => concat all ⟨valid, other⟩,
      fun all => concat all trivial⟩
  have left := keeps_decode kept 0 buffer (List.forall_mem_nil _)
  unfold scan
  cases result : decode traceSetters 0 [] buffer <;> rwa [result] at left

end VCookieStore

end Elevator
