import Elevator.Codec.Encoding
import Mathlib.Algebra.Ring.Nat

/-!
# The size of an encoding

The fields of a cookie take a fixed number of bytes and those of its texts, each with
one byte behind it.
-/

namespace Elevator

open Wire RelVarTable VCookie

/-- The strings of a profile. -/
def Profile.texts (p : Profile) : List Bytes :=
  [p.firstHitReferrer, p.firstHitPageUrl, p.firstHitPagename, p.merchandising] ++ p.purchaseIds

namespace VCookieStore

/-- The bytes of a list of texts, each with the zero byte behind it. -/
def sizeOfTexts (texts : List Bytes) : Nat :=
  (texts.map fun text => text.length + 1).sum

theorem sizeOfTexts_le {texts : List Bytes} {bound : Nat}
    (short : ∀ text ∈ texts, text.length < bound) :
    sizeOfTexts texts ≤ texts.length * bound := by
  induction texts with
  | nil => exact Nat.zero_le _
  | cons text texts ih =>
      obtain ⟨first, rest⟩ := List.forall_mem_cons.mp short
      have behind := ih rest
      rw [sizeOfTexts] at behind ⊢
      rw [List.map_cons, List.sum_cons, List.length_cons, Nat.succ_mul]
      omega

theorem length_timeField_le (field : UInt8) (val : TimeT) : (timeField field val).length ≤ 9 := by
  rw [timeField, addField]
  split
  · exact Nat.zero_le _
  · simp [i64, fixed]

theorem length_numberField_le (field : UInt8) (val : UInt32) :
    (numberField field val).length ≤ 5 := by
  rw [numberField, addField]
  split
  · exact Nat.zero_le _
  · simp [u32, fixed]

theorem length_text_put (val : Bytes) : (text.put val).length = val.length + 1 := by
  simp [text]

theorem length_textField_le (field : UInt8) (val : Bytes) :
    (textField field val).length ≤ val.length + 2 := by
  rw [textField, addField]
  split
  · exact Nat.zero_le _
  · simp [length_text_put]

theorem length_purchaseField_le {c : VCookie} (kept : PurchaseIdsKept c.purchaseIds) :
    (purchaseField c).length ≤ 2 + sizeOfTexts c.purchaseIds := by
  rw [purchaseField_eq kept]
  split
  · exact Nat.zero_le _
  · simp only [List.length_append, List.length_flatMap, length_text_put, sizeOfTexts,
      List.length_cons, List.length_nil]
    omega

/-- The fields of a cookie and its texts. -/
theorem length_encodeFields_le {c : VCookie} (kept : PurchaseIdsKept c.purchaseIds)
    (saveLastHitTime : Bool) :
    (encodeFields c saveLastHitTime).length ≤ 53 + sizeOfTexts c.profile.texts := by
  have texts : sizeOfTexts c.profile.texts =
      (c.firstHitReferrer.length + 1) + (c.firstHitPageUrl.length + 1) +
        (c.firstHitPagename.length + 1) + (c.merchandising.length + 1) +
          sizeOfTexts c.purchaseIds := by
    simp [sizeOfTexts, Profile.texts, VCookie.profile]
    omega
  have lastHit : (if saveLastHitTime then timeField 2 c.getLastHitTimeGMT else []).length ≤ 9 := by
    split
    · exact length_timeField_le ..
    · exact Nat.zero_le _
  have times (field : UInt8) (val : TimeT) := length_timeField_le field val
  have numbers (field : UInt8) (val : UInt32) := length_numberField_le field val
  have firstHit := times 1 c.getFirstHitTimeGMT
  have visitorLocal := times 3 c.getLastHitTimeVisitorLocal
  have visitNum := numbers 4 c.getLastVisitNum
  have purchaseTime := times 5 c.getLastPurchaseTimeGMT
  have referrer := length_textField_le 6 c.getFirstHitReferrer
  have url := length_textField_le 7 c.getFirstHitUrl
  have pagename := length_textField_le 8 c.getFirstHitPagename
  have purchaseNum := numbers 9 c.getLastPurchaseNum
  have merchandising := length_textField_le 10 c.getMerchandising
  have purchases := length_purchaseField_le kept
  rw [encodeFields, serializeFields, texts]
  simp only [List.length_append, u8_put, List.length_singleton]
  simp only [getFirstHitReferrer, getFirstHitUrl, getFirstHitPagename, getMerchandising] at *
  omega

theorem length_encode (c : VCookie) (saveLastHitTime : Bool) :
    (encode c saveLastHitTime).length =
      7 + (encodeFields c saveLastHitTime).length + (encodeVars c.countedVars).length := by
  simp only [encode, List.length_append, List.length_cons, List.length_nil, u32, fixed,
    length_leBytes]

end VCookieStore

end Elevator
