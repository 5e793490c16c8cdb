import KaspaScript.Engine.Encoding

namespace KaspaScript

open Library (Branching)
open Library.ScriptNum (encode unsigned)

/-- The shortest of the pushes whose opcode or length bytes give the length. -/
def lengthPush (data : Bytes) : Bytes :=
  if data.length ≤ 75 then UInt8.ofNat data.length :: data
  else if data.length ≤ 255 then 0x4c :: UInt8.ofNat data.length :: data
  else if data.length ≤ 65535 then 0x4d :: leBytes 2 data.length ++ data
  else 0x4e :: leBytes 4 data.length ++ data

/-- The minimal push of a stack element. -/
def minimalPush : Bytes → Bytes
  | [] => [0x00]
  | [byte] =>
      if 1 ≤ byte.toNat ∧ byte.toNat ≤ 16 then [UInt8.ofNat (0x50 + byte.toNat)]
      else if byte = 0x81 then [0x4f]
      else lengthPush [byte]
  | data => lengthPush data

namespace Value

/-- What a push of the value leaves on the stack. -/
def element : Value → Bytes
  | .integer n => encode n
  | .bool b => boolBytes b
  | .bytes data => data
  | .string text => utf8Bytes text
  | .symbol name => utf8Bytes name
  | .type ty => utf8Bytes ty.debug

/-- The bytes of a value that is pushed as a string of bytes. -/
def byteString : Value → Option Bytes
  | .integer _ | .bool _ => none
  | .bytes data => some data
  | .string text => some (utf8Bytes text)
  | .symbol name => some (utf8Bytes name)
  | .type ty => some (utf8Bytes ty.debug)

end Value

/-- The code is the one push of the element that the engine takes. -/
structure IsCanonical (code element : Bytes) : Prop where
  form : code = minimalPush element
  accepted : decodeOp code = some (.plain (.push element), [])
  unique : ∀ other, decodeOp other = some (.plain (.push element), []) → other = code

theorem leBytes_unsigned {width : Nat} {bytes : Bytes} (h : bytes.length = width) :
    leBytes width (unsigned bytes) = bytes := by
  induction bytes generalizing width with
  | nil =>
    subst h
    rfl
  | cons byte rest ih =>
    subst h
    have hbyte : byte.toNat < 256 := byte.toNat_lt
    have hmod : (byte.toNat + 256 * unsigned rest) % 256 = byte.toNat := by omega
    have hdiv : (byte.toNat + 256 * unsigned rest) / 256 = unsigned rest := by omega
    rw [List.length_cons, unsigned, leBytes, hmod, hdiv, ih rfl, UInt8.ofNat_toNat]

/-- A push that is read whole, and taken, is its length and its data. -/
theorem of_decodePushData {minimal : Bytes → Bool} {size : Nat} {rest element : Bytes}
    (h : decodePushData minimal size rest = some (.push element, [])) :
    rest = leBytes size element.length ++ element ∧ minimal element = true ∧
      element.length < 256 ^ size := by
  simp only [decodePushData] at h
  split_ifs at h with hfits hminimal
  · rw [Option.some.injEq, Prod.mk.injEq] at h
    obtain ⟨hpush, hrest⟩ := h
    rw [Opcode.push.injEq] at hpush
    -- nothing follows, so the data is all that stands behind the length
    have hlen : (rest.drop size).length ≤ unsigned (rest.take size) :=
      List.drop_eq_nil_iff.mp hrest
    have hwhole : (rest.drop size).take (unsigned (rest.take size)) = rest.drop size :=
      List.take_of_length_le hlen
    rw [hwhole] at hpush hminimal
    have hsize : (rest.take size).length = size := List.length_take_of_le hfits.1
    have heq : element.length = unsigned (rest.take size) := by
      rw [← hpush]
      exact Nat.le_antisymm hlen hfits.2
    refine ⟨?_, hpush ▸ hminimal, ?_⟩
    · rw [heq, leBytes_unsigned hsize, ← hpush, List.take_append_drop]
    · rw [heq]
      have hbound := Library.ScriptNum.unsigned_lt (rest.take size)
      rwa [hsize] at hbound
  · rw [Option.some.injEq, Prod.mk.injEq] at h
    cases h.1

theorem opcodeOf_ne_push {code : Nat} {element : Bytes} :
    opcodeOf code ≠ some (.plain (.push element)) := by
  intro h
  unfold opcodeOf at h
  split at h <;> simp at h

theorem minimalPush_eq {element : Bytes} (h : hasShorterPush element = false) :
    minimalPush element = lengthPush element := by
  match element with
  | [] => cases h
  | [byte] =>
    simp only [hasShorterPush, Bool.or_eq_false_iff, Bool.and_eq_false_iff, decide_eq_false_iff_not,
      beq_eq_false_iff_ne] at h
    rw [minimalPush, if_neg (by omega), if_neg h.2]
  | _ :: _ :: _ => rfl

theorem hasShorterPush_long {element : Bytes} (h : 1 < element.length) :
    hasShorterPush element = false := by
  match element with
  | [] | [_] => simp at h
  | _ :: _ :: _ => rfl

/-- The engine takes one push of an element, the canonical one. -/
theorem eq_minimalPush {code element : Bytes}
    (h : decodeOp code = some (.plain (.push element), [])) : code = minimalPush element := by
  cases code with
  | nil => cases h
  | cons byte rest =>
    have hbyte : byte = UInt8.ofNat byte.toNat := UInt8.ofNat_toNat.symm
    have hdata : ∀ {minimal : Bytes → Bool} {size : Nat} {from' : Bytes},
        (decodePushData minimal size from').map (fun x => (Branching.plain x.1, x.2)) =
          some (.plain (.push element), []) →
        decodePushData minimal size from' = some (.push element, []) := by
      intro minimal size from' hmap
      obtain ⟨read, hpush, heq⟩ := Option.map_eq_some_iff.mp hmap
      rw [Prod.mk.injEq, Branching.plain.injEq] at heq
      rw [hpush, ← heq.1, ← heq.2]
    simp only [decodeOp] at h
    split_ifs at h with hzero hdirect hone htwo hfour hnegate hsmall
    · simp only [Option.some.injEq, Prod.mk.injEq, Branching.plain.injEq, Opcode.push.injEq] at h
      rw [hbyte, hzero, ← h.1, h.2]
      rfl
    · obtain ⟨hrest, hminimal, hlen⟩ := of_decodePushData (hdata h)
      have hmod : element.length % 256 = element.length := Nat.mod_eq_of_lt (by omega)
      simp only [leBytes, hmod, List.cons_append, List.nil_append, List.cons.injEq] at hrest
      have hshort : element.length ≤ 75 := by
        rw [hrest.1, Library.ScriptNum.toNat_ofNat (by omega)] at hdirect
        exact hdirect
      rw [minimalPush_eq (by simpa using hminimal), lengthPush, if_pos hshort, hrest.1, hrest.2]
    · obtain ⟨hrest, hminimal, hlen⟩ := of_decodePushData (hdata h)
      have hlong : 75 < element.length := of_decide_eq_true hminimal
      have hmod : element.length % 256 = element.length := Nat.mod_eq_of_lt (by omega)
      rw [minimalPush_eq (hasShorterPush_long (by omega)), lengthPush, if_neg (by omega),
        if_pos (by omega), hbyte, hone, hrest]
      simp [leBytes, hmod]
    · obtain ⟨hrest, hminimal, hlen⟩ := of_decodePushData (hdata h)
      have hlong : 255 < element.length := of_decide_eq_true hminimal
      rw [minimalPush_eq (hasShorterPush_long (by omega)), lengthPush, if_neg (by omega),
        if_neg (by omega), if_pos (by omega), hbyte, htwo, hrest]
      rfl
    · obtain ⟨hrest, hminimal, hlen⟩ := of_decodePushData (hdata h)
      have hlong : 65535 < element.length := of_decide_eq_true hminimal
      rw [minimalPush_eq (hasShorterPush_long (by omega)), lengthPush, if_neg (by omega),
        if_neg (by omega), if_neg (by omega), hbyte, hfour, hrest]
      rfl
    · simp only [Option.some.injEq, Prod.mk.injEq, Branching.plain.injEq, Opcode.push.injEq] at h
      rw [hbyte, hnegate, ← h.1, h.2]
      rfl
    · simp only [Option.some.injEq, Prod.mk.injEq, Branching.plain.injEq, Opcode.push.injEq] at h
      have hvalue : (UInt8.ofNat (byte.toNat - 0x50)).toNat = byte.toNat - 0x50 :=
        Library.ScriptNum.toNat_ofNat (by omega)
      have hsum : 0x50 + (byte.toNat - 0x50) = byte.toNat := by omega
      rw [← h.1, h.2, minimalPush, hvalue, if_pos (by omega), hsum, ← hbyte]
    · obtain ⟨op, hop, heq⟩ := Option.map_eq_some_iff.mp h
      rw [Prod.mk.injEq] at heq
      rw [heq.1] at hop
      exact absurd hop opcodeOf_ne_push

theorem isCanonical_iff {code element : Bytes} :
    IsCanonical code element ↔ decodeOp code = some (.plain (.push element), []) := by
  constructor
  · intro h
    exact h.accepted
  · intro haccepted
    have hform := eq_minimalPush haccepted
    refine ⟨hform, haccepted, ?_⟩
    intro other hother
    rw [eq_minimalPush hother, hform]

theorem decodeAll_ne_nil {byte : UInt8} {rest : Bytes} :
    decodeAll (byte :: rest) ≠ some [] := by
  intro h
  cases hop : decodeOp (byte :: rest) with
  | none => simp [decodeAll, decodeScript, hop] at h
  | some read =>
    rw [decodeAll_of_decodeOp hop] at h
    simp at h

/-- Bytes that decode to one instruction are its code. -/
theorem Encodes.decodeOp_eq {code : Bytes} {op : Branching Opcode} (h : Encodes code [op]) :
    decodeOp code = some (op, []) := by
  have hall := h.decodeAll_eq
  cases code with
  | nil => cases hall
  | cons byte rest =>
    cases hop : decodeOp (byte :: rest) with
    | none => simp [decodeAll, decodeScript, hop] at hall
    | some read =>
      obtain ⟨first, after⟩ := read
      rw [decodeAll_of_decodeOp hop] at hall
      obtain ⟨others, hothers, heq⟩ := Option.map_eq_some_iff.mp hall
      rw [List.cons.injEq] at heq
      obtain ⟨rfl, rfl⟩ := heq
      cases after with
      | nil => rfl
      | cons next tail => exact absurd hothers decodeAll_ne_nil

theorem dataPush_eq_push_iff {data : Bytes} :
    dataPush data = .push data ↔
      ∀ byte, data = [byte] → ¬ (1 ≤ byte.toNat ∧ byte.toNat ≤ 16) ∧ byte ≠ 0x81 := by
  match data with
  | [] => simp [dataPush]
  | [byte] =>
    simp only [dataPush, hasShorterPush, ne_eq, reduceCtorEq, not_false_eq_true, true_and,
      Bool.or_eq_true, Bool.and_eq_true, decide_eq_true_eq, beq_iff_eq, List.cons.injEq, and_true,
      forall_eq']
    split_ifs with hshorter
    · simp only [reduceCtorEq, false_iff]
      tauto
    · simp only [true_iff]
      tauto
  | _ :: _ :: _ => simp [dataPush, hasShorterPush]

/-- An encoded value is the canonical push of its stack element, unless it is a string of one byte
that has an opcode of its own. -/
theorem encodePush_canonical_iff (value : Value) (span : Span) (code : Bytes)
    (h : encodePush value span = .ok code) :
    IsCanonical code value.element ↔
      ∀ byte, value.byteString = some [byte] →
        ¬ (1 ≤ byte.toNat ∧ byte.toNat ≤ 16) ∧ byte ≠ 0x81 := by
  have hpush : IsCanonical code value.element ↔ pushOpcode value = .push value.element := by
    rw [isCanonical_iff, (encodes_push h).decodeOp_eq]
    simp
  rw [hpush]
  cases value with
  | integer n => simp [pushOpcode, Value.element, Value.byteString]
  | bool b => simp [pushOpcode, Value.element, Value.byteString]
  | bytes data => simpa [pushOpcode, Value.element, Value.byteString] using dataPush_eq_push_iff
  | string text => simpa [pushOpcode, Value.element, Value.byteString] using dataPush_eq_push_iff
  | symbol name => simpa [pushOpcode, Value.element, Value.byteString] using dataPush_eq_push_iff
  | type ty => simpa [pushOpcode, Value.element, Value.byteString] using dataPush_eq_push_iff

theorem encodePush_canonical_iff_height : IsCanonical [0x02, 0xf4, 0x01] (encode 500) :=
  (encodePush_canonical_iff (.integer 500) ⟨0, 0⟩ [0x02, 0xf4, 0x01] (by decide)).mpr
    (by simp [Value.byteString])

/-- The string literal of one line feed is pushed as data, though `OP_10` pushes the same. -/
theorem encodePush_canonical_lineFeed :
    encodePush (.string "\n") ⟨0, 0⟩ = .ok [0x01, 0x0a] ∧
    minimalPush (Value.string "\n").element = [0x5a] ∧
    ¬ IsCanonical [0x01, 0x0a] (Value.string "\n").element := by
  refine ⟨by decide, by decide, ?_⟩
  intro h
  have hform := h.form
  revert hform
  decide

end KaspaScript
