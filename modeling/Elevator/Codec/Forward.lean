import Elevator.Codec.RoundTrip
import Elevator.Cookie.Semantics

/-!
# Streams of a newer writer

A newer version may write fields behind the known ones, as long as the stream
stays readable by this version.  The decoder stops at the first field number it
does not know and finds the variables through the offset, so such a stream loads
like the encoding without the new fields.  A stream that declares itself
unreadable is turned away before anything is written.
-/

namespace Elevator

open Wire Transition RelVarTable VCookie

namespace VCookieStore

/-! ## Reachable cookies without zero bytes -/

theorem kept_run (id : VCookieId) (newCookie : Bool) (ops : List CookieOp) :
    Kept (run applyOp (fresh id newCookie) ops) :=
  @run_invariant _ _ applyOp Kept (fun _ op kept => kept_applyOp kept op) _
    (kept_fresh id newCookie) ops

theorem encodable_run {id : VCookieId} {newCookie : Bool} {ops : List CookieOp}
    (nulFree : (run applyOp (fresh id newCookie) ops).NulFree) :
    Encodable (run applyOp (fresh id newCookie) ops) :=
  encodable_of_nulFree (kept_run id newCookie ops).indexed (kept_run id newCookie ops).purchaseIds
    nulFree

/-- Mutators with strings without a zero byte leave such strings. -/
theorem nulFree_mutators (id : VCookieId) (newCookie : Bool) {ms : List Mutator}
    (texts : ∀ m ∈ ms, 0 ∉ m.text) : (run mutate (fresh id newCookie) ms).NulFree := by
  constructor
  · rw [profile_run, profile_fresh]
    exact @run_invariant_of_forall _ _ Profile.mutate Profile.NulFree (fun m => 0 ∉ m.text)
      (fun _ _ text kept => kept.mutate text) _ Profile.nulFree_zero ms texts
  · have stores : ∀ m ∈ ms, m.StoresIn (fun _ => True) fun element => 0 ∉ element.value := by
      intro m member
      have text := texts m member
      cases m with
      | setVar relationId val timestamp revision allocType maxLinear =>
          exact fun _ => ⟨trivial, text⟩
      | addLinearElement vid val timestamp revision => exact text
      | _ => trivial
    intro relationId element stored
    rcases exists_of_elements_ne_nil (List.ne_nil_of_mem stored) with ⟨rv, member, rfl⟩
    rw [(indexed_mutators id newCookie ms).elements_of_mem member] at stored
    exact (within_run List.not_mem_nil id newCookie stores rv member).2 element stored

/-! ## Newer streams -/

/-- A stream with a newer read-compatible version is turned away untouched. -/
theorem deserialize_of_incompatible (junk : UInt8) (c : VCookie) {buffer : Bytes}
    {readCompatibleVersion : UInt8} (second : buffer[1]? = some readCompatibleVersion)
    (newer : readCompatibleVersion > vcSerialVersion) :
    deserialize junk c buffer = (c, false) := by
  rcases List.getElem?_eq_some_iff.mp second with ⟨inside, rfl⟩
  have version : readHeaderByte buffer junk 0 = (buffer[0], 1) := by
    rw [readHeaderByte, u8_read_of_lt (by omega), Option.getD_some]
  have compatible : readHeaderByte buffer junk 1 = (buffer[1], 2) := by
    rw [readHeaderByte, u8_read_of_lt inside, Option.getD_some]
  simp only [deserialize, decode, version, compatible, if_pos newer]

/-- A stream with unknown fields behind the known ones loads into every cookie as
the encoding without them does, and a stream that this version cannot read is
rejected with the cookie untouched. -/
theorem forward_compatible (id : VCookieId) (newCookie saveLastHitTime : Bool)
    (ops : List CookieOp) (nulFree : (run applyOp (fresh id newCookie) ops).NulFree) :
    let c := run applyOp (fresh id newCookie) ops
    let fields := serializeFields c saveLastHitTime
    (∃ buf vars, serialize c saveLastHitTime = some buf ∧
      buf = [0, 0, 0] ++ u32.put (UInt32.ofNat (7 + fields.length + 1)) ++ fields ++ [0] ++ vars ∧
      ∀ (version flag first : UInt8) (rest : Bytes), ¬ (1 ≤ first ∧ first ≤ 11) →
        let stream := [version, 0, flag] ++
          u32.put (UInt32.ofNat (7 + fields.length + (first :: rest).length)) ++ fields ++
          (first :: rest) ++ vars
        stream.length < 2 ^ 32 →
        ∀ (id' : VCookieId) (newCookie' : Bool) (ops' : List CookieOp) (junk junk' : UInt8),
          let start := run applyOp (fresh id' newCookie') ops'
          deserialize junk start stream = deserialize junk' start buf) ∧
    ∀ (start : VCookie) (junk : UInt8) (stream : Bytes) (readCompatibleVersion : UInt8),
      stream[1]? = some readCompatibleVersion → readCompatibleVersion > vcSerialVersion →
        deserialize junk start stream = (start, false) := by
  intro c fields
  have encodable : Encodable c := encodable_run nulFree
  refine ⟨⟨encode c saveLastHitTime, encodeVars c.countedVars, serialize_eq encodable.indexed _,
    encode_eq_newerStream c saveLastHitTime, ?_⟩, fun start junk stream _ second newer =>
    deserialize_of_incompatible junk start second newer⟩
  intro version flag first rest unknown stream small id' newCookie' ops' junk junk' start
  have above : first = 0 ∨ 11 < first := by
    by_cases zero : first = 0
    · exact Or.inl zero
    · right
      rw [← UInt8.not_le]
      intro known
      apply unknown
      refine ⟨?_, known⟩
      rw [UInt8.le_iff_toNat_le]
      exact Nat.pos_of_ne_zero fun none => zero (UInt8.toNat_inj.mp none)
  have indexed : start.toRelVarTable.Indexed := indexed_run id' newCookie' ops'
  have length_stream := length_newerStream c saveLastHitTime version flag (first :: rest)
  have length_encode := length_newerStream c saveLastHitTime 0 0 [0]
  have smallStream : (newerStream c saveLastHitTime version flag (first :: rest)).length < 2 ^ 32 :=
    small
  rw [← encode_eq_newerStream, List.length_singleton] at length_encode
  rw [List.length_cons] at length_stream
  have opens : OpensAbove 11 (first :: rest) := ⟨first, rest, rfl, above⟩
  have newer : scan stream = (encodingCalls c saveLastHitTime, true) :=
    scan_newerStream encodable version flag opens smallStream
  rw [deserialize_eq_replay indexed, deserialize_eq_replay indexed, newer,
    scan_encode encodable (by omega)]

/-- A cookie with a referrer and a variable, and two unknown bytes. -/
theorem forward_compatible_referrer :
    let c := run applyOp (fresh ⟨1, 2, 3⟩ true)
      [.mutate (.setFirstHitReferrer [97]), .mutate (.setVar 3 [98] 7 1 .last 0)]
    ∃ buf vars, serialize c true = some buf ∧
      deserialize 0 (fresh ⟨4, 5, 6⟩ true)
          ([1, 0, 9] ++ u32.put 12 ++ serializeFields c true ++ [12, 7] ++ vars) =
        deserialize 0 (fresh ⟨4, 5, 6⟩ true) buf ∧
      deserialize 0 c [1, 1, 0] = (c, false) := by
  intro c
  have nulFree : c.NulFree :=
    nulFree_mutators ⟨1, 2, 3⟩ true
      (by decide : ∀ m ∈ [Mutator.setFirstHitReferrer [97], .setVar 3 [98] 7 1 .last 0],
        0 ∉ m.text)
  obtain ⟨⟨buf, vars, saved, layout, loads⟩, rejects⟩ :=
    forward_compatible ⟨1, 2, 3⟩ true true
      [.mutate (.setFirstHitReferrer [97]), .mutate (.setVar 3 [98] 7 1 .last 0)] nulFree
  have fields : serializeFields c true = [6, 97, 0] := by decide
  have known : serialize c true = some [0, 0, 0, 11, 0, 0, 0, 6, 97, 0, 0, 3, 0, 1, 0, 0, 0, 98, 0,
      7, 0, 0, 0, 0, 0, 0, 0, 1, 255, 255] := by decide +kernel
  have short : vars.length < 30 := by
    have size := congrArg List.length layout
    rw [← Option.some.inj (known.symm.trans saved)] at size
    simp only [List.length_append, List.length_cons, List.length_nil] at size
    omega
  refine ⟨buf, vars, saved, ?_, rejects c 0 [1, 1, 0] 1 rfl (by decide)⟩
  have loaded := loads 1 9 12 [7] (by decide) (by
    rw [fields]
    simp only [List.length_append, List.length_cons, List.length_nil, length_u32_put]
    omega) ⟨4, 5, 6⟩ true [] 0 0
  rw [fields] at loaded ⊢
  exact loaded

end VCookieStore

end Elevator
