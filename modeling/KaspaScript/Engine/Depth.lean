import KaspaScript.Engine.Encoding
import KaspaScript.Ir.Effects

namespace KaspaScript

open Library (StackEffect)
open Library.ScriptNum (encode decode_encode isMinimal_encode length_encode)
open Library.StackEffect (Local Within leaves local_binary local_push local_run local_test
  local_unary within_append within_run)

/-- The stack effect of an opcode; that of a key check depends on the counts it reads. -/
def Opcode.effect : Opcode → StackEffect
  | .push _ | .pushNonMinimal _ => leaves 1
  | .drop | .verify | .checkLockTimeVerify => ⟨1, 0⟩
  | .dup => ⟨1, 2⟩
  | .equal | .numeric _ | .checkSig => ⟨2, 1⟩
  | .not | .sha256 | .blake2b => ⟨1, 1⟩
  | .checkMultiSig => 1
  | .txInputCount | .txOutputCount => leaves 1
  | .txInputAmount | .txInputSpk | .txOutputAmount | .txOutputSpk => ⟨1, 1⟩

section

variable {env : ScriptEnv} {s s' : Stack}

theorem pushNum_eq_some {n : Int} (h : pushNum n s = some s') : ∃ item, s' = item :: s := by
  unfold pushNum at h
  split_ifs at h
  exact ⟨_, (Option.some.inj h).symm⟩

/-- An opcode that does not fail takes and leaves what its effect says. -/
theorem within_execOpcode {op : Opcode} (hop : op ≠ .checkMultiSig)
    (h : execOpcode env op s = some s') : Within op.effect s s' := by
  cases op with
  | push data =>
    rw [execOpcode, Option.some.injEq] at h
    exact h ▸ within_append [] [data] s
  | pushNonMinimal data => cases h
  | drop =>
    cases s with
    | nil => cases h
    | cons a s =>
      rw [execOpcode, Option.some.injEq] at h
      exact h ▸ within_append [a] [] s
  | dup =>
    cases s with
    | nil => cases h
    | cons a s =>
      rw [execOpcode, Option.some.injEq] at h
      exact h ▸ within_append [a] [a, a] s
  | verify =>
    cases s with
    | nil => cases h
    | cons a s =>
      rw [execOpcode] at h
      split_ifs at h
      exact Option.some.inj h ▸ within_append [a] [] s
  | checkLockTimeVerify =>
    cases s with
    | nil => cases h
    | cons a s =>
      rw [execOpcode] at h
      split_ifs at h
      exact Option.some.inj h ▸ within_append [a] [] s
  | equal | checkSig =>
    match s with
    | [] => cases h
    | [_] => cases h
    | b :: a :: s =>
      rw [execOpcode, Option.some.injEq] at h
      exact h ▸ within_append [b, a] [_] s
  | numeric op =>
    match s with
    | [] => cases h
    | [_] => cases h
    | b :: a :: s =>
      obtain ⟨n, _, h⟩ := Option.bind_eq_some_iff.mp h
      obtain ⟨m, _, h⟩ := Option.bind_eq_some_iff.mp h
      obtain ⟨item, rfl⟩ := pushNum_eq_some h
      exact within_append [b, a] [item] s
  | not =>
    cases s with
    | nil => cases h
    | cons a s =>
      obtain ⟨n, _, h⟩ := Option.bind_eq_some_iff.mp h
      obtain ⟨item, rfl⟩ := pushNum_eq_some h
      exact within_append [a] [item] s
  | sha256 | blake2b =>
    cases s with
    | nil => cases h
    | cons a s =>
      rw [execOpcode, Option.some.injEq] at h
      exact h ▸ within_append [a] [_] s
  | checkMultiSig => exact absurd rfl hop
  | txInputCount | txOutputCount =>
    obtain ⟨item, rfl⟩ := pushNum_eq_some h
    exact within_append [] [item] s
  | txInputAmount | txOutputAmount =>
    cases s with
    | nil => cases h
    | cons a s =>
      obtain ⟨_, _, h⟩ := Option.bind_eq_some_iff.mp h
      obtain ⟨item, rfl⟩ := pushNum_eq_some h
      exact within_append [a] [item] s
  | txInputSpk | txOutputSpk =>
    cases s with
    | nil => cases h
    | cons a s =>
      obtain ⟨_, _, h⟩ := Option.map_eq_some_iff.mp h
      exact h ▸ within_append [a] [_] s

theorem pushNum_eq_map (n : Int) (s : Stack) :
    pushNum n s = (if NumFits n then some (encode n) else none).map (· :: s) := by
  unfold pushNum
  split_ifs <;> rfl

/-- An opcode other than a key check looks only at the elements that its effect takes. -/
theorem local_execOpcode {op : Opcode} (hop : op ≠ .checkMultiSig) :
    Local op.effect (execOpcode env op) := by
  cases op with
  | push data => exact local_push (some data) fun s => rfl
  | pushNonMinimal data => exact local_push none fun s => rfl
  | drop => exact local_test (fun _ => true) fun a s => rfl
  | dup =>
    intro top htop
    obtain ⟨a, rfl⟩ := List.length_eq_one_iff.mp htop
    exact ⟨some [a, a], by simp [Opcode.effect], fun rest => rfl⟩
  | verify => exact local_test isTrue fun a s => rfl
  | checkLockTimeVerify => exact local_test (lockSatisfied env) fun a s => rfl
  | equal => exact local_binary (fun b a => some (boolBytes (a == b))) fun b a s => rfl
  | checkSig =>
    exact local_binary (fun key signature => some (boolBytes (env.checkSig signature key)))
      fun b a s => rfl
  | numeric op =>
    apply local_binary fun b a => (readNum a).bind fun n => (readNum b).bind fun m =>
      if NumFits (op.eval n m) then some (encode (op.eval n m)) else none
    intro b a s
    simp only [execOpcode, pushNum_eq_map]
    cases readNum a <;> cases readNum b <;> rfl
  | not =>
    apply local_unary fun a => (readNum a).bind fun n =>
      if NumFits (truth (decide (n = 0))) then some (encode (truth (decide (n = 0)))) else none
    intro a s
    simp only [execOpcode, pushNum_eq_map, Option.map_bind]
    rfl
  | sha256 => exact local_unary (fun a => some (env.sha256 a)) fun a s => rfl
  | blake2b => exact local_unary (fun a => some (env.blake2b a)) fun a s => rfl
  | checkMultiSig => exact absurd rfl hop
  | txInputCount | txOutputCount => exact local_push _ fun s => pushNum_eq_map _ s
  | txInputAmount =>
    apply local_unary fun index => (readIndex env.populated.entries index).bind fun entry =>
      if NumFits entry.amount then some (encode entry.amount) else none
    intro a s
    simp only [execOpcode, pushNum_eq_map, Option.map_bind]
    rfl
  | txOutputAmount =>
    apply local_unary fun index => (readIndex env.populated.tx.outputs index).bind fun output =>
      if NumFits output.value then some (encode output.value) else none
    intro a s
    simp only [execOpcode, pushNum_eq_map, Option.map_bind]
    rfl
  | txInputSpk =>
    apply local_unary fun index => (readIndex env.populated.entries index).map fun entry =>
      spkBytes entry.scriptPublicKey
    intro a s
    simp only [execOpcode, Option.map_map]
    rfl
  | txOutputSpk =>
    apply local_unary fun index => (readIndex env.populated.tx.outputs index).map fun output =>
      spkBytes output.scriptPublicKey
    intro a s
    simp only [execOpcode, Option.map_map]
    rfl

def InstructionKind.isMultisig : InstructionKind → Bool
  | .checkMultiSig _ _ => true
  | _ => false

theorem effect_opcodes {kind : InstructionKind} (hsupported : isUnsupported kind = false)
    (hmultisig : kind.isMultisig = false) :
    ((opcodes kind).map Opcode.effect).prod = kind.effect ∧ .checkMultiSig ∉ opcodes kind := by
  cases kind with
  | push value =>
    constructor
    · cases value <;> simp [opcodes, pushOpcode, InstructionKind.effect, dataPush] <;>
        first | rfl | (split_ifs <;> rfl)
    · cases value <;> simp [opcodes, pushOpcode, dataPush] <;> split_ifs <;> simp
  | checkMultiSig required keyCount => cases hmultisig
  | covenantDepth | covenantId | zkVerifyGroth16 | zkVerifyRiscZero | sequencingCommitment
  | hash160 | checkHashPreimage | mul | div | mod => cases hsupported
  | _ => exact ⟨rfl, by simp [opcodes, lockOpcodes]⟩

/-- An instruction other than a key check does what its effect says. -/
theorem within_opcodes {kind : InstructionKind} (hsupported : isUnsupported kind = false)
    (hmultisig : kind.isMultisig = false) (h : runOpcodes env (opcodes kind) s = some s') :
    Within kind.effect s s' := by
  obtain ⟨heffect, hnone⟩ := effect_opcodes hsupported hmultisig
  rw [← heffect]
  apply within_run _ h
  intro op hop s s'
  exact within_execOpcode fun heq => hnone (heq ▸ hop)

theorem local_opcodes {kind : InstructionKind} (hsupported : isUnsupported kind = false)
    (hmultisig : kind.isMultisig = false) : Local kind.effect (runOpcodes env (opcodes kind)) := by
  obtain ⟨heffect, hnone⟩ := effect_opcodes hsupported hmultisig
  rw [← heffect]
  apply local_run
  intro op hop
  exact local_execOpcode fun heq => hnone (heq ▸ hop)

theorem popCounted_items {items : List Bytes} (h : items.length ≤ i64Max) :
    popCounted (encode items.length :: (items ++ s)) = some (items.reverse, s) := by
  have hfits : NumFits items.length := by
    unfold NumFits
    unfold i64Max at h
    omega
  rw [popCounted, readNum, if_pos ⟨length_encode hfits, isMinimal_encode _⟩, decode_encode]
  simp

/-- A key check over its own operands leaves one truth value in their place. -/
theorem within_checkMultiSig {keys signatures : List Bytes} (hkeys : keys.length ≤ i64Max)
    (hsignatures : signatures.length ≤ i64Max)
    (h : runOpcodes env (opcodes (.checkMultiSig signatures.length keys.length))
      (keys ++ encode signatures.length :: (signatures ++ s)) = some s') :
    Within (InstructionKind.checkMultiSig signatures.length keys.length).effect
      (keys ++ encode signatures.length :: (signatures ++ s)) s' := by
  rw [runOpcodes, opcodes, Library.run_cons, execOpcode, Option.bind_some,
    Library.run_singleton] at h
  have hexec : execCheckMultiSig env
      (encode keys.length :: (keys ++ encode signatures.length :: (signatures ++ s))) = some s' := h
  rw [execCheckMultiSig, popCounted_items hkeys] at hexec
  simp only [Option.bind_some, popCounted_items hsignatures] at hexec
  split_ifs at hexec
  have hwithin := within_append (keys ++ encode signatures.length :: signatures)
    [boolBytes (Library.matchInOrder env.checkSig signatures.reverse keys.reverse)] s
  rw [List.singleton_append, Option.some.inj hexec] at hwithin
  convert hwithin using 1
  · simp only [InstructionKind.effect, List.length_append, List.length_cons, List.length_nil]
    congr 1
    omega
  · simp

/-- What a key check makes of its own operands does not depend on the stack below. -/
theorem run_checkMultiSig {keys signatures : List Bytes} (hkeys : keys.length ≤ i64Max)
    (hsignatures : signatures.length ≤ i64Max) (s : Stack) :
    runOpcodes env (opcodes (.checkMultiSig signatures.length keys.length))
      (keys ++ encode signatures.length :: (signatures ++ s)) =
      if signatures.length ≤ keys.length then
        some (boolBytes (Library.matchInOrder env.checkSig signatures.reverse keys.reverse) :: s)
      else none := by
  rw [runOpcodes, opcodes, Library.run_cons, execOpcode, Option.bind_some, Library.run_singleton]
  change execCheckMultiSig env
    (encode keys.length :: (keys ++ encode signatures.length :: (signatures ++ s))) = _
  rw [execCheckMultiSig, popCounted_items hkeys]
  simp only [Option.bind_some, popCounted_items hsignatures, List.length_reverse]

end

end KaspaScript
