import KaspaScript.Codegen.Gate
import KaspaScript.Engine.Script
import Mathlib.Tactic.IntervalCases

namespace KaspaScript

open Library (Branching bind_eq_ok pure_eq_ok joinAll joinAll_cons)
open Library.ScriptNum (encode magnitude magnitude_small magnitude_large unsigned)

/-- The instructions of a whole script. -/
def decodeAll (script : Bytes) : Option (List (Branching Opcode)) :=
  decodeScript script.length script

theorem decodePushData_length {minimal : Bytes → Bool} {size : Nat} {rest rest' : Bytes}
    {op : Opcode} (h : decodePushData minimal size rest = some (op, rest')) :
    rest'.length + size ≤ rest.length := by
  simp only [decodePushData] at h
  split_ifs at h with hsize
  all_goals
    simp only [Option.some.injEq, Prod.mk.injEq] at h
    rw [← h.2]
    simp only [List.length_drop]
    omega

theorem decodeOp_length {script rest : Bytes} {op : Branching Opcode}
    (h : decodeOp script = some (op, rest)) : rest.length < script.length := by
  cases script with
  | nil => simp [decodeOp] at h
  | cons byte tail =>
    have data {minimal : Bytes → Bool} {size : Nat} {from' : Bytes}
        (hfrom : from'.length < tail.length + 1 + size)
        (hdata : (decodePushData minimal size from').map
          (fun x => (Branching.plain x.1, x.2)) = some (op, rest)) :
        rest.length < (byte :: tail).length := by
      obtain ⟨⟨o, r⟩, hpush, heq⟩ := Option.map_eq_some_iff.mp hdata
      have hlen := decodePushData_length hpush
      simp only [Prod.mk.injEq] at heq
      rw [← heq.2, List.length_cons]
      omega
    simp only [decodeOp] at h
    split_ifs at h
    · simp only [Option.some.injEq, Prod.mk.injEq] at h
      simp [← h.2]
    · exact data (by simp) h
    · exact data (by omega) h
    · exact data (by omega) h
    · exact data (by omega) h
    · simp only [Option.some.injEq, Prod.mk.injEq] at h
      simp [← h.2]
    · simp only [Option.some.injEq, Prod.mk.injEq] at h
      simp [← h.2]
    · obtain ⟨o, _, heq⟩ := Option.map_eq_some_iff.mp h
      simp only [Prod.mk.injEq] at heq
      simp [← heq.2]

/-- More rounds than bytes change nothing. -/
theorem decodeScript_fuel (fuel : Nat) (script : Bytes) (h : script.length ≤ fuel) :
    decodeScript fuel script = decodeAll script := by
  induction fuel using Nat.strong_induction_on generalizing script with
  | _ fuel ih =>
    unfold decodeAll
    cases script with
    | nil => cases fuel <;> rfl
    | cons byte tail =>
      cases fuel with
      | zero => simp at h
      | succ fuel =>
        simp only [List.length_cons, decodeScript]
        cases hop : decodeOp (byte :: tail) with
        | none => rfl
        | some r =>
          obtain ⟨op, rest⟩ := r
          have hlen := decodeOp_length hop
          simp only [List.length_cons] at hlen h
          simp only [Option.bind_some]
          rw [ih fuel (by omega) rest (by omega)]
          by_cases hfuel : fuel = tail.length
          · rw [← hfuel, ih fuel (by omega) rest (by omega)]
          · rw [ih tail.length (by omega) rest (by omega)]

theorem decodeAll_of_decodeOp {script rest : Bytes} {op : Branching Opcode}
    (h : decodeOp script = some (op, rest)) :
    decodeAll script = (decodeAll rest).map (op :: ·) := by
  have hlen := decodeOp_length h
  cases script with
  | nil => simp [decodeOp] at h
  | cons byte tail =>
    simp only [decodeAll, List.length_cons, decodeScript, h, Option.bind_some]
    rw [decodeScript_fuel]
    · rfl
    · simpa using Nat.lt_succ_iff.mp hlen

/-- The bytes decode to the instructions wherever they stand. -/
def Encodes (code : Bytes) (ops : List (Branching Opcode)) : Prop :=
  ∀ rest, decodeAll (code ++ rest) = (decodeAll rest).map (ops ++ ·)

namespace Encodes

theorem nil : Encodes [] [] := by
  intro rest
  cases h : decodeAll rest <;> simp [h]

theorem append {code code' : Bytes} {ops ops' : List (Branching Opcode)} (h : Encodes code ops)
    (h' : Encodes code' ops') : Encodes (code ++ code') (ops ++ ops') := by
  intro rest
  rw [List.append_assoc, h, h', Option.map_map]
  congr 1
  funext x
  simp

theorem single {code : Bytes} {op : Branching Opcode}
    (h : ∀ rest, decodeOp (code ++ rest) = some (op, rest)) : Encodes code [op] := by
  intro rest
  exact decodeAll_of_decodeOp (h rest)

/-- A whole script. -/
theorem decodeAll_eq {code : Bytes} {ops : List (Branching Opcode)} (h : Encodes code ops) :
    decodeAll code = some ops := by
  have hall := h []
  rw [List.append_nil] at hall
  rw [hall]
  simp [decodeAll, decodeScript]

theorem runScript_eq {code : Bytes} {ops : List (Branching Opcode)} (h : Encodes code ops)
    (env : ScriptEnv) (stack : Stack) : runScript env code stack = runOps env ops stack := by
  change (decodeAll code).bind (fun ops => runOps env ops stack) = _
  rw [h.decodeAll_eq, Option.bind_some]

end Encodes

/-- A builder that appends one minimal push for every item. -/
theorem encodes_foldlM {ε : Type} {add : Bytes → Bytes → Except ε Bytes}
    (hadd : ∀ {script data out}, add script data = .ok out →
      ∃ code, out = script ++ code ∧ Encodes code [.plain (.push data)])
    {items : List Bytes} {start out : Bytes} (h : items.foldlM add start = .ok out) :
    ∃ code, out = start ++ code ∧ Encodes code ((items.map Opcode.push).map .plain) := by
  induction items generalizing start with
  | nil =>
    rw [List.foldlM_nil, pure_eq_ok] at h
    exact ⟨[], by rw [List.append_nil, h], Encodes.nil⟩
  | cons item rest ih =>
    obtain ⟨mid, hmid, hrest⟩ := bind_eq_ok.mp h
    obtain ⟨first, hfirst, hencodes⟩ := hadd hmid
    obtain ⟨others, hothers, hencodes'⟩ := ih hrest
    refine ⟨first ++ others, ?_, hencodes.append hencodes'⟩
    rw [hothers, hfirst, List.append_assoc]

/-- The push of some data; a single byte that has an opcode of its own is not pushed minimally. -/
def dataPush (data : Bytes) : Opcode :=
  if data ≠ [] ∧ hasShorterPush data then .pushNonMinimal data else .push data

/-- A key or a script is pushed as it is: it takes more than one byte. -/
theorem dataPush_of_length {data : Bytes} (h : 2 ≤ data.length) : dataPush data = .push data := by
  rw [dataPush, if_neg]
  intro hshort
  obtain ⟨_, hshorter⟩ := hshort
  cases data with
  | nil => simp at h
  | cons first rest =>
    cases rest with
    | nil => simp at h
    | cons second rest => simp [hasShorterPush] at hshorter

def pushOpcode : Value → Opcode
  | .integer n => .push (encode n)
  | .bool b => .push (boolBytes b)
  | .bytes data => dataPush data
  | .string text => dataPush (utf8Bytes text)
  | .symbol name => dataPush (utf8Bytes name)
  | .type ty => dataPush (utf8Bytes ty.debug)

def lockOpcodes (n : Nat) : List Opcode :=
  [.push (encode n), .checkLockTimeVerify, .push (boolBytes true)]

/-- The opcodes an instruction stands for; the refused ones have none. -/
def opcodes : InstructionKind → List Opcode
  | .push value => [pushOpcode value]
  | .drop => [.drop]
  | .dup => [.dup]
  | .inputValue index => [.push (encode index), .txInputAmount]
  | .inputScript index => [.push (encode index), .txInputSpk]
  | .outputValue index => [.push (encode index), .txOutputAmount]
  | .outputScript index => [.push (encode index), .txOutputSpk]
  | .outputCount => [.txOutputCount]
  | .inputCount => [.txInputCount]
  | .checkSig _ => [.checkSig]
  | .checkMultiSig _ keyCount => [.push (encode keyCount), .checkMultiSig]
  | .checkLockHeight height => lockOpcodes height
  | .checkLockTime time => lockOpcodes time
  | .checkLockHeightFromStack | .checkLockTimeFromStack =>
      [.checkLockTimeVerify, .push (boolBytes true)]
  | .sha256 => [.sha256]
  | .blake2b => [.blake2b]
  | .verify => [.verify]
  | .equal => [.equal]
  | .notEqual => [.numeric .numNotEqual]
  | .lessThan => [.numeric .lessThan]
  | .lessThanOrEqual => [.numeric .lessThanOrEqual]
  | .greaterThan => [.numeric .greaterThan]
  | .greaterThanOrEqual => [.numeric .greaterThanOrEqual]
  | .and => [.numeric .boolAnd]
  | .or => [.numeric .boolOr]
  | .not => [.not]
  | .add => [.numeric .add]
  | .sub => [.numeric .sub]
  | .covenantDepth | .covenantId | .zkVerifyGroth16 | .zkVerifyRiscZero | .sequencingCommitment
  | .hash160 | .checkHashPreimage | .mul | .div | .mod => []

def plainOpcodes (kinds : List InstructionKind) : List (Branching Opcode) :=
  (kinds.flatMap opcodes).map .plain

theorem unsigned_leBytes (width n : Nat) (h : n < 256 ^ width) : unsigned (leBytes width n) = n := by
  induction width generalizing n with
  | zero => simp at h; simp [leBytes, unsigned, h]
  | succ width ih =>
    have hdiv : n / 256 < 256 ^ width := by
      rw [Nat.div_lt_iff_lt_mul (by norm_num), ← pow_succ]
      exact h
    rw [leBytes, unsigned, ih _ hdiv, Library.ScriptNum.toNat_ofNat (by omega)]
    omega

theorem decodePushData_append (minimal : Bytes → Bool) (size : Nat) (data rest : Bytes)
    (h : data.length < 256 ^ size) :
    decodePushData minimal size (leBytes size data.length ++ data ++ rest) =
      some (if minimal data then .push data else .pushNonMinimal data, rest) := by
  have hlen := leBytes_length size data.length
  have htake : (leBytes size data.length ++ data ++ rest).take size = leBytes size data.length := by
    rw [List.append_assoc, List.take_left' hlen]
  have hdrop : (leBytes size data.length ++ data ++ rest).drop size = data ++ rest := by
    rw [List.append_assoc, List.drop_left' hlen]
  simp only [decodePushData, htake, hdrop, unsigned_leBytes size _ h]
  rw [if_pos]
  · simp
  · simp only [List.length_append, hlen]
    omega

theorem encodes_data {data code : Bytes} {span : Span} (h : encodeData data span = .ok code) :
    Encodes code [.plain (dataPush data)] := by
  apply Encodes.single
  intro rest
  unfold encodeData at h
  simp only at h
  split_ifs at h with hshort hone htwo hfour
  · simp only [Except.ok.injEq] at h
    subst h
    have hbyte : (UInt8.ofNat data.length).toNat = data.length :=
      Library.ScriptNum.toNat_ofNat (by omega)
    by_cases hnil : data = []
    · subst hnil
      rfl
    · have hpos : data.length ≠ 0 := by simpa using hnil
      have hpush := decodePushData_append (fun d => !hasShorterPush d) 1 data rest (by omega)
      simp only [leBytes, Nat.mod_eq_of_lt (show data.length < 256 by omega)] at hpush
      simp only [decodeOp, List.cons_append, hbyte, hpos, if_false, hshort, if_true]
      rw [show UInt8.ofNat data.length :: (data ++ rest) =
        [UInt8.ofNat data.length] ++ data ++ rest by simp, hpush]
      simp only [dataPush, hnil, ne_eq, not_false_eq_true, true_and, Option.map_some]
      cases hasShorterPush data <;> rfl
  all_goals
    simp only [Except.ok.injEq] at h
    subst h
    have hlong : ¬ (data ≠ [] ∧ hasShorterPush data = true) := by
      rintro ⟨_, hshorter⟩
      unfold hasShorterPush at hshorter
      split at hshorter <;> simp_all
  · have hpush := decodePushData_append (fun d => decide (75 < d.length)) 1 data rest (by omega)
    simp only [leBytes, Nat.mod_eq_of_lt (show data.length < 256 by omega)] at hpush
    have hstep : decodeOp (opPushData1 :: UInt8.ofNat data.length :: data ++ rest) =
        (decodePushData (fun d => decide (75 < d.length)) 1
          ([UInt8.ofNat data.length] ++ data ++ rest)).map fun x => (.plain x.1, x.2) := rfl
    rw [hstep, hpush]
    simp [dataPush, hlong, show 75 < data.length by omega]
  · have hpush := decodePushData_append (fun d => decide (255 < d.length)) 2 data rest (by omega)
    have hstep : decodeOp (opPushData2 :: leBytes 2 data.length ++ data ++ rest) =
        (decodePushData (fun d => decide (255 < d.length)) 2
          (leBytes 2 data.length ++ data ++ rest)).map fun x => (.plain x.1, x.2) := rfl
    rw [hstep, hpush]
    simp [dataPush, hlong, show 255 < data.length by omega]
  · have hpush := decodePushData_append (fun d => decide (65535 < d.length)) 4 data rest
      (by unfold u32Max at hfour; omega)
    have hstep : decodeOp (opPushData4 :: leBytes 4 data.length ++ data ++ rest) =
        (decodePushData (fun d => decide (65535 < d.length)) 4
          (leBytes 4 data.length ++ data ++ rest)).map fun x => (.plain x.1, x.2) := rfl
    rw [hstep, hpush]
    simp [dataPush, hlong, show 65535 < data.length by omega]

/-- Trailing zeros of a tail go first; a byte in front stays when it is not zero itself. -/
theorem rdropWhile_cons (byte : UInt8) (rest : Bytes) :
    (byte :: rest).rdropWhile (· == 0) =
      if rest.rdropWhile (· == 0) = [] then [byte].rdropWhile (· == 0)
      else byte :: rest.rdropWhile (· == 0) := by
  simp only [List.rdropWhile, List.reverse_cons, List.dropWhile_append, List.reverse_eq_nil_iff]
  split_ifs <;> simp_all

theorem leBytes_zero (width : Nat) : (leBytes width 0).rdropWhile (· == 0) = [] := by
  induction width with
  | zero => rfl
  | succ width ih =>
    rw [leBytes, rdropWhile_cons, ih]
    rfl

/-- Appends the zero byte that keeps the high bit from reading as a sign. -/
def padSign (encoded : Bytes) : Bytes :=
  if encoded.getLast?.any (fun byte => 0x80 ≤ byte) then encoded ++ [0] else encoded

theorem padSign_cons {byte : UInt8} {rest : Bytes} (h : rest ≠ []) :
    padSign (byte :: rest) = byte :: padSign rest := by
  unfold padSign
  rw [List.getLast?_cons_of_ne_nil h]
  split_ifs <;> rfl

theorem padSign_singleton {n : Nat} (hn : n < 256) :
    padSign [UInt8.ofNat n] = if n < 128 then [UInt8.ofNat n] else [UInt8.ofNat n, 0] := by
  have hle : (0x80 : UInt8) ≤ UInt8.ofNat n ↔ 128 ≤ n := by
    rw [UInt8.le_iff_toNat_le, Library.ScriptNum.toNat_ofNat hn]
    rfl
  simp only [padSign, List.getLast?_singleton, Option.any_some, decide_eq_true_eq, hle]
  split_ifs <;> first | rfl | omega

/-- Trimming and padding the fixed-width bytes gives the magnitude of a script number. -/
theorem padSign_leBytes (width fuel n : Nat) (hpos : 0 < n) (hn : n < 256 ^ width)
    (hfuel : n ≤ fuel) :
    (leBytes width n).rdropWhile (· == 0) ≠ [] ∧
      padSign ((leBytes width n).rdropWhile (· == 0)) = magnitude 0 fuel n := by
  induction width generalizing fuel n with
  | zero => simp at hn; omega
  | succ width ih =>
    rw [leBytes, rdropWhile_cons]
    by_cases hsmall : n < 256
    · have hdiv : n / 256 = 0 := Nat.div_eq_of_lt hsmall
      have hbyte : UInt8.ofNat n ≠ 0 := by
        intro hzero
        have := congrArg UInt8.toNat hzero
        rw [Library.ScriptNum.toNat_ofNat hsmall] at this
        simp at this
        omega
      rw [hdiv, leBytes_zero, if_pos rfl, Nat.mod_eq_of_lt hsmall]
      have hone : ([UInt8.ofNat n] : Bytes).rdropWhile (· == 0) = [UInt8.ofNat n] := by
        simp [List.rdropWhile, hbyte]
      rw [hone]
      refine ⟨by simp, ?_⟩
      rw [padSign_singleton hsmall]
      split_ifs with h128
      · rw [magnitude_small fuel h128, Nat.add_zero]
      · obtain ⟨fuel', _, heq⟩ := magnitude_large 0 hfuel (by omega)
        rw [heq, hdiv, magnitude_small fuel' (by omega), Nat.mod_eq_of_lt hsmall]
        rfl
    · have hdiv : n / 256 < 256 ^ width := by
        rw [Nat.div_lt_iff_lt_mul (by norm_num), ← pow_succ]
        exact hn
      obtain ⟨fuel', hfuel', heq⟩ := magnitude_large 0 hfuel (by omega)
      obtain ⟨hne, hmag⟩ := ih fuel' (n / 256) (by omega) hdiv hfuel'
      rw [if_neg hne]
      refine ⟨by simp, ?_⟩
      rw [padSign_cons hne, hmag, heq]

theorem scriptNumber_eq {n : Nat} (hpos : 0 < n) (hn : n ≤ i64Max) : scriptNumber n = encode n := by
  have hwidth : n < 256 ^ 8 := by unfold i64Max at hn; omega
  have hne : (n : Int) ≠ 0 := by omega
  have hnonneg : ¬ (n : Int) < 0 := by omega
  rw [encode, if_neg hne, if_neg hnonneg, Int.natAbs_natCast]
  exact (padSign_leBytes 8 n n hpos hwidth (Nat.le_refl n)).2

theorem encode_shorter {n : Nat} (h : 16 < n) : ¬ (encode n ≠ [] ∧ hasShorterPush (encode n)) := by
  rintro ⟨_, hshorter⟩
  by_cases hsmall : n < 128
  · rw [Library.ScriptNum.encode_small (by omega) hsmall] at hshorter
    have hbyte : (UInt8.ofNat n).toNat = n := Library.ScriptNum.toNat_ofNat (by omega)
    simp only [hasShorterPush, hbyte, Bool.or_eq_true, Bool.and_eq_true, decide_eq_true_eq,
      beq_iff_eq] at hshorter
    rcases hshorter with hshorter | hshorter
    · omega
    · have := congrArg UInt8.toNat hshorter
      rw [hbyte] at this
      simp at this
      omega
  · have hne : (n : Int) ≠ 0 := by omega
    have hnonneg : ¬ (n : Int) < 0 := by omega
    obtain ⟨fuel, _, heq⟩ := magnitude_large 0 (Nat.le_refl n) (by omega)
    rw [encode, if_neg hne, if_neg hnonneg, Int.natAbs_natCast, heq] at hshorter
    obtain ⟨last, rest, hrest⟩ :=
      List.exists_cons_of_ne_nil (Library.ScriptNum.magnitude_ne_nil 0 fuel (n / 256))
    rw [hrest] at hshorter
    simp [hasShorterPush] at hshorter

theorem encodes_u64 {n : Nat} {span : Span} {code : Bytes} (h : encodeU64 n span = .ok code) :
    Encodes code [.plain (.push (encode n))] := by
  unfold encodeU64 at h
  split_ifs at h with hmax hzero hsmall
  · simp only [Except.ok.injEq] at h
    subst h hzero
    exact Encodes.single fun rest => rfl
  · simp only [Except.ok.injEq] at h
    subst h
    have hbyte : (op1 + UInt8.ofNat n - 1).toNat = 0x50 + n := by
      interval_cases n <;> rfl
    apply Encodes.single
    intro rest
    simp only [List.singleton_append, decodeOp, hbyte]
    rw [Library.ScriptNum.encode_small (by omega) (by omega)]
    simp [show ¬ 80 + n ≤ 75 by omega, show 80 + n ≠ 76 by omega, show 80 + n ≠ 77 by omega,
      show 80 + n ≠ 78 by omega, show 80 + n ≠ 79 by omega, show 81 ≤ 80 + n by omega,
      show 80 + n ≤ 96 by omega]
  · rw [scriptNumber_eq (by omega) (by omega)] at h
    have hdata := encodes_data h
    rwa [dataPush, if_neg (encode_shorter (by omega))] at hdata

theorem encodes_push {value : Value} {span : Span} {code : Bytes}
    (h : encodePush value span = .ok code) : Encodes code [.plain (pushOpcode value)] := by
  cases value with
  | integer n => exact encodes_u64 h
  | bool b =>
    simp only [encodePush, Except.ok.injEq] at h
    subst h
    cases b <;> exact Encodes.single fun rest => rfl
  | bytes data => exact encodes_data h
  | string text => exact encodes_data h
  | symbol name => exact encodes_data h
  | type ty => exact encodes_data h

/-- A number followed by opcodes without data. -/
theorem encodes_u64_then {n : Nat} {span : Span} {code tail : Bytes}
    {ops : List (Branching Opcode)} (htail : Encodes tail ops)
    (h : (do let bytes ← encodeU64 n span
             pure (bytes ++ tail)) = .ok code) :
    Encodes code (.plain (.push (encode n)) :: ops) := by
  simp only [bind_eq_ok, pure_eq_ok] at h
  obtain ⟨bytes, hbytes, rfl⟩ := h
  exact (encodes_u64 hbytes).append htail

theorem encodes_op1 : Encodes [op1] [.plain (.push (boolBytes true))] :=
  Encodes.single fun _ => rfl

theorem encodes_lock : Encodes [opCheckLockTimeVerify, op1]
    [.plain .checkLockTimeVerify, .plain (.push (boolBytes true))] :=
  have hlock : Encodes [opCheckLockTimeVerify] [.plain .checkLockTimeVerify] :=
    Encodes.single fun _ => rfl
  hlock.append encodes_op1

/-- The bytes of an instruction decode to its opcodes. -/
theorem encodes_instruction {instruction : Instruction} {code : Bytes}
    (h : encodeInstruction instruction = .ok code) :
    Encodes code (plainOpcodes [instruction.kind]) := by
  obtain ⟨span, kind⟩ := instruction
  simp only [plainOpcodes, List.flatMap_cons, List.flatMap_nil, List.append_nil]
  cases kind with
  | push value => exact encodes_push h
  | inputValue index => exact encodes_u64_then (Encodes.single fun _ => rfl) h
  | inputScript index => exact encodes_u64_then (Encodes.single fun _ => rfl) h
  | outputValue index => exact encodes_u64_then (Encodes.single fun _ => rfl) h
  | outputScript index => exact encodes_u64_then (Encodes.single fun _ => rfl) h
  | checkMultiSig required keyCount => exact encodes_u64_then (Encodes.single fun _ => rfl) h
  | checkLockHeight height => exact encodes_u64_then encodes_lock h
  | checkLockTime time => exact encodes_u64_then encodes_lock h
  | checkLockHeightFromStack | checkLockTimeFromStack =>
    simp only [encodeInstruction, Except.ok.injEq] at h
    subst h
    exact encodes_lock
  | covenantDepth | covenantId | zkVerifyGroth16 | zkVerifyRiscZero | sequencingCommitment
  | hash160 | checkHashPreimage | mul | div | mod =>
    simp [encodeInstruction, unsupportedInstruction] at h
  | _ =>
    simp only [encodeInstruction, Except.ok.injEq] at h
    subst h
    exact Encodes.single fun _ => rfl

theorem encodes_sequence {instructions : List Instruction} {code : Bytes}
    (h : compileInstructionSequence instructions = .ok code) :
    Encodes code (plainOpcodes (kinds instructions)) := by
  induction instructions generalizing code with
  | nil =>
    simp only [compileInstructionSequence, List.map_nil, Library.joinAll_nil, Except.ok.injEq] at h
    subst h
    exact Encodes.nil
  | cons instruction instructions ih =>
    obtain ⟨first, rest, hfirst, hrest, rfl⟩ := joinAll_cons.mp h
    have happ := (encodes_instruction hfirst).append (ih hrest)
    simpa [plainOpcodes, kinds] using happ

/-- A spend script decodes to the opcodes of its body and the closing true value. -/
theorem encodes_spendScript {instructions : List Instruction} {code : Bytes}
    (h : compileSpendScript instructions = .ok code) :
    Encodes code (plainOpcodes (kinds instructions ++ [.push (.bool true)])) := by
  unfold compileSpendScript at h
  split_ifs at h
  simp only [bind_eq_ok, pure_eq_ok] at h
  obtain ⟨body, hbody, rfl⟩ := h
  have happ := (encodes_sequence hbody).append encodes_op1
  simpa [plainOpcodes, opcodes, pushOpcode] using happ

/-- What a spend script does on a stack. -/
theorem runScript_spendScript {instructions : List Instruction} {code : Bytes}
    (h : compileSpendScript instructions = .ok code) (env : ScriptEnv) (stack : Stack) :
    runScript env code stack =
      runOpcodes env ((kinds instructions).flatMap opcodes ++ [.push (boolBytes true)]) stack := by
  rw [(encodes_spendScript h).runScript_eq, plainOpcodes, runOps, Library.runBranching_plain]
  simp [runOpcodes, opcodes, pushOpcode]

end KaspaScript
