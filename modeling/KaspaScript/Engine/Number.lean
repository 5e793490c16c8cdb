import KaspaScript.Engine.Encoding
import KaspaScript.Library.Buffered

namespace KaspaScript

open Library (Branching Buffered)
open Library.Buffered (push extend Appends appends_push appends_extend appends_throw)
open Library.ScriptNum (decode encode isMinimal unsigned)

/-- `encode_data` as it writes to its output buffer. -/
def encodeDataOnto (bytes : Bytes) (span : Span) : Buffered CodegenError UInt8 Unit := do
  let len := bytes.length
  if len ≤ 75 then push (UInt8.ofNat len)
  else if len ≤ 255 then
    push opPushData1
    push (UInt8.ofNat len)
  else if len ≤ 65535 then
    push opPushData2
    extend (leBytes 2 len)
  else
    if len > u32Max then throw (.valueTooLarge span "push value exceeds u32 length")
    push opPushData4
    extend (leBytes 4 len)
  extend bytes

/-- `encode_u64` as it writes to its output buffer. -/
def encodeU64Onto (value : Nat) (span : Span) : Buffered CodegenError UInt8 Unit := do
  if value > i64Max then
    throw (.valueTooLarge span "positive script number exceeds the native signed 64-bit range")
  if value = 0 then push opFalse
  else if value ≤ 16 then push (op1 + UInt8.ofNat value - 1)
  else encodeDataOnto (scriptNumber value) span

theorem encodeDataOnto_appends (bytes : Bytes) (span : Span) :
    Appends (encodeDataOnto bytes span) (encodeData bytes span) := by
  unfold encodeDataOnto encodeData
  by_cases htiny : bytes.length ≤ 75
  · simp only [htiny, if_true]
    exact (appends_push _).bind (appends_extend _)
  by_cases hsmall : bytes.length ≤ 255
  · simp only [htiny, hsmall, if_true, if_false]
    exact ((appends_push _).bind (appends_push _)).bind (appends_extend _)
  by_cases hmiddle : bytes.length ≤ 65535
  · simp only [htiny, hsmall, hmiddle, if_true, if_false]
    exact ((appends_push _).bind (appends_extend _)).bind (appends_extend _)
  by_cases hfits : bytes.length ≤ u32Max
  · simp only [htiny, hsmall, hmiddle, hfits, Nat.not_lt_of_le hfits, if_true, if_false]
    exact ((appends_push _).bind (appends_extend _)).bind (appends_extend _)
  · simp only [htiny, hsmall, hmiddle, hfits, Nat.lt_of_not_le hfits, if_true, if_false]
    exact fun out => rfl

/-- The encoder that returns its bytes says what the one on the buffer appends. -/
theorem encodeU64Onto_appends (value : Nat) (span : Span) :
    Appends (encodeU64Onto value span) (encodeU64 value span) := by
  unfold encodeU64Onto encodeU64
  by_cases hlarge : value > i64Max
  · simp only [hlarge, if_true]
    exact fun out => rfl
  by_cases hzero : value = 0
  · subst hzero
    exact appends_push _
  by_cases hsmall : value ≤ 16
  · simp only [hlarge, hzero, hsmall, if_true, if_false]
    exact appends_push _
  · simp only [hlarge, hzero, hsmall, if_false]
    exact encodeDataOnto_appends _ span

theorem unsigned_append_zeros (bytes : Bytes) (count : Nat) :
    unsigned (bytes ++ List.replicate count 0) = unsigned bytes := by
  have hzeros : unsigned (List.replicate count 0) = 0 := by
    induction count with
    | zero => rfl
    | succ count ih =>
      rw [List.replicate_succ, unsigned, ih]
      rfl
  induction bytes with
  | nil => exact hzeros
  | cons byte rest ih => rw [List.cons_append, unsigned, unsigned, ih]

/-- A stack element as both its readers see it: arithmetic takes it for a minimal number with a
sign, a lock check pads it to eight bytes and takes them for a number without one. -/
structure ReadsAs (element : Bytes) (value : Nat) : Prop where
  signed : decode element = value
  minimal : isMinimal element = true
  short : element.length ≤ 8
  padded : unsigned (element ++ List.replicate (8 - element.length) 0) = value

theorem readsAs_encode {value : Nat} (h : value ≤ i64Max) : ReadsAs (encode value) value := by
  constructor
  · exact Library.ScriptNum.decode_encode value
  · exact Library.ScriptNum.isMinimal_encode value
  · apply Library.ScriptNum.length_encode
    rw [Int.natAbs_natCast]
    unfold i64Max at h
    omega
  · rw [unsigned_append_zeros, Library.ScriptNum.unsigned_encode]

/-- Up to `i64::MAX` one push is appended whose element reads as the number; above it nothing is
written; and two numbers never give one push. -/
theorem encodeU64_keeps_value (span : Span) (out : Bytes) :
    (∀ value ≤ i64Max, ∃ code element, (encodeU64Onto value span).runOn out = (.ok (), out ++ code) ∧
      decodeAll code = some [.plain (.push element)] ∧ ReadsAs element value) ∧
    (∀ value > i64Max, (encodeU64Onto value span).runOn out =
      (.error (.valueTooLarge span
        "positive script number exceeds the native signed 64-bit range"), out)) ∧
    ∀ value ≤ i64Max, ∀ other ≤ i64Max,
      (encodeU64Onto value span).runOn out = (encodeU64Onto other span).runOn out →
        value = other := by
  have hpush : ∀ value ≤ i64Max, ∃ code,
      (encodeU64Onto value span).runOn out = (.ok (), out ++ code) ∧
        decodeAll code = some [.plain (.push (encode value))] := by
    intro value hvalue
    obtain ⟨code, hcode⟩ := encodeU64_ok span hvalue
    refine ⟨code, ?_, (encodes_u64 hcode).decodeAll_eq⟩
    rw [encodeU64Onto_appends value span out, hcode]
  refine ⟨?_, ?_, ?_⟩
  · intro value hvalue
    obtain ⟨code, hrun, hdecode⟩ := hpush value hvalue
    exact ⟨code, encode value, hrun, hdecode, readsAs_encode hvalue⟩
  · intro value hvalue
    rw [encodeU64Onto_appends value span out, encodeU64, if_pos hvalue]
  · intro value hvalue other hother hsame
    obtain ⟨code, hrun, hdecode⟩ := hpush value hvalue
    obtain ⟨code', hrun', hdecode'⟩ := hpush other hother
    have hcode : code = code' := by
      have hout := congrArg Prod.snd (hrun.symm.trans (hsame.trans hrun'))
      exact List.append_cancel_left hout
    rw [hcode, hdecode'] at hdecode
    have hencode : encode (other : Int) = encode (value : Int) := by
      simpa using hdecode
    have hnumber := Library.ScriptNum.encode_injective hencode
    omega

end KaspaScript
