import KaspaScript.Engine.Transaction
import KaspaScript.Library.InOrder
import KaspaScript.Library.ScriptNum
import KaspaScript.Library.StackMachine

namespace KaspaScript

open Library (Branching matchInOrder run runBranching)
open Library.ScriptNum (decode encode isMinimal unsigned)

/-- Locks below it are DAA scores, locks from it on are timestamps. -/
def lockTimeThreshold : Nat := 500000000000

/-- The sequence of a final input. -/
def maxTxInSequenceNum : Nat := 2 ^ 64 - 1

/-- Binary operators on script numbers. -/
inductive NumOp where
  | add | sub | boolAnd | boolOr | numNotEqual
  | lessThan | greaterThan | lessThanOrEqual | greaterThanOrEqual
  deriving DecidableEq, Repr

def truth (b : Bool) : Int := if b then 1 else 0

def NumOp.eval : NumOp → Int → Int → Int
  | .add, a, b => a + b
  | .sub, a, b => a - b
  | .boolAnd, a, b => truth (decide (a ≠ 0 ∧ b ≠ 0))
  | .boolOr, a, b => truth (decide (a ≠ 0 ∨ b ≠ 0))
  | .numNotEqual, a, b => truth (decide (a ≠ b))
  | .lessThan, a, b => truth (decide (a < b))
  | .greaterThan, a, b => truth (decide (a > b))
  | .lessThanOrEqual, a, b => truth (decide (a ≤ b))
  | .greaterThanOrEqual, a, b => truth (decide (a ≥ b))

/-- The opcodes that the compiler and the escrow dispatcher emit, apart from conditionals. -/
inductive Opcode where
  | push (data : Bytes)
  | pushNonMinimal (data : Bytes)
  | drop | dup | equal | verify | not
  | numeric (op : NumOp)
  | sha256 | blake2b | checkSig | checkMultiSig | checkLockTimeVerify
  | txInputCount | txOutputCount | txInputAmount | txInputSpk | txOutputAmount | txOutputSpk
  deriving DecidableEq, Repr

/-- The stack, top first. -/
abbrev Stack := List Bytes

/-- What the script engine reads besides the stack; hashes and signature checks are oracles. -/
structure ScriptEnv where
  populated : PopulatedTransaction
  inputIndex : Nat
  checkSig : Bytes → Bytes → Bool
  sha256 : Bytes → Bytes
  blake2b : Bytes → Bytes

/-- A stack element is false when it is empty or a zero of either sign. -/
def isTrue : Bytes → Bool
  | [] => false
  | [last] => last.toNat % 128 ≠ 0
  | byte :: next :: rest => byte ≠ 0 || isTrue (next :: rest)

def boolBytes (b : Bool) : Bytes := if b then [1] else []

/-- Numbers are read minimally encoded and from at most eight bytes. -/
def readNum (bytes : Bytes) : Option Int :=
  if bytes.length ≤ 8 ∧ isMinimal bytes then some (decode bytes) else none

/-- A number the engine can write: its absolute value is below `2 ^ 63`. -/
def NumFits (n : Int) : Prop := n.natAbs < 2 ^ 63

instance (n : Int) : Decidable (NumFits n) := inferInstanceAs (Decidable (n.natAbs < 2 ^ 63))

def pushNum (n : Int) (stack : Stack) : Option Stack :=
  if NumFits n then some (encode n :: stack) else none

/-- The bytes an introspection opcode pushes for a script public key: version, big-endian, and
script. -/
def spkBytes (spk : ScriptPublicKey) : Bytes :=
  UInt8.ofNat (spk.version.toNat / 256) :: UInt8.ofNat spk.version.toNat :: spk.script

theorem spkBytes_injective : Function.Injective spkBytes := by
  intro a b h
  simp only [spkBytes, List.cons.injEq] at h
  obtain ⟨hhigh, hlow, hscript⟩ := h
  have ha : a.version.toNat < 65536 := a.version.toNat_lt
  have hb : b.version.toNat < 65536 := b.version.toNat_lt
  have hhigh' := congrArg UInt8.toNat hhigh
  rw [Library.ScriptNum.toNat_ofNat (by omega), Library.ScriptNum.toNat_ofNat (by omega)] at hhigh'
  have hlow' := congrArg UInt8.toNat hlow
  rw [UInt8.toNat_ofNat', UInt8.toNat_ofNat'] at hlow'
  have hversion : a.version = b.version := UInt16.toNat_inj.mp (by omega)
  cases a
  cases b
  simp_all

/-- `OP_CHECKLOCKTIMEVERIFY` on the bound's bytes: the bound is read without a sign, both locks
have to be of one kind, and the input must not be final. -/
def lockSatisfied (env : ScriptEnv) (bound : Bytes) : Bool :=
  let lock := unsigned bound
  let lockTime := env.populated.tx.lockTime
  bound.length ≤ 8 && (decide (lockTime < lockTimeThreshold) == decide (lock < lockTimeThreshold))
    && decide (lock ≤ lockTime)
    && (env.populated.tx.inputs[env.inputIndex]?).any (·.sequence ≠ maxTxInSequenceNum)

/-- Reads a list index from a stack element. -/
def readIndex {α : Type} (xs : List α) (bytes : Bytes) : Option α :=
  (readNum bytes).bind fun n => if 0 ≤ n then xs[n.toNat]? else none

/-- A count and that many elements below it, in the order they were pushed. -/
def popCounted (stack : Stack) : Option (List Bytes × Stack) :=
  match stack with
  | count :: rest =>
      (readNum count).bind fun n =>
        if 0 ≤ n ∧ n.toNat ≤ rest.length then
          some ((rest.take n.toNat).reverse, rest.drop n.toNat)
        else none
  | [] => none

/-- Pops the key count, the keys, the signature count and the signatures. -/
def execCheckMultiSig (env : ScriptEnv) (stack : Stack) : Option Stack :=
  (popCounted stack).bind fun (keys, rest) =>
    (popCounted rest).bind fun (signatures, rest) =>
      if signatures.length ≤ keys.length then
        some (boolBytes (matchInOrder env.checkSig signatures keys) :: rest)
      else none

/-- One opcode. Limits on script size, element size, operation count and stack depth are not
part of the model. -/
def execOpcode (env : ScriptEnv) : Opcode → Stack → Option Stack
  | .push data, s => some (data :: s)
  | .drop, _ :: s => some s
  | .dup, a :: s => some (a :: a :: s)
  | .equal, b :: a :: s => some (boolBytes (a == b) :: s)
  | .verify, a :: s => if isTrue a then some s else none
  | .not, a :: s => (readNum a).bind fun n => pushNum (truth (decide (n = 0))) s
  | .numeric op, b :: a :: s =>
      (readNum a).bind fun n => (readNum b).bind fun m => pushNum (op.eval n m) s
  | .sha256, a :: s => some (env.sha256 a :: s)
  | .blake2b, a :: s => some (env.blake2b a :: s)
  | .checkSig, key :: signature :: s => some (boolBytes (env.checkSig signature key) :: s)
  | .checkMultiSig, s => execCheckMultiSig env s
  | .checkLockTimeVerify, bound :: s => if lockSatisfied env bound then some s else none
  | .txInputCount, s => pushNum env.populated.tx.inputs.length s
  | .txOutputCount, s => pushNum env.populated.tx.outputs.length s
  | .txInputAmount, index :: s =>
      (readIndex env.populated.entries index).bind fun entry => pushNum entry.amount s
  | .txInputSpk, index :: s =>
      (readIndex env.populated.entries index).map fun entry => spkBytes entry.scriptPublicKey :: s
  | .txOutputAmount, index :: s =>
      (readIndex env.populated.tx.outputs index).bind fun output => pushNum output.value s
  | .txOutputSpk, index :: s =>
      (readIndex env.populated.tx.outputs index).map fun output =>
        spkBytes output.scriptPublicKey :: s
  | _, _ => none

/-- The condition of `OP_IF` is exactly true or exactly false. -/
def popCondition : Stack → Option (Bool × Stack)
  | [] :: s => some (false, s)
  | [byte] :: s => if byte = 1 then some (true, s) else none
  | _ => none

def runOpcodes (env : ScriptEnv) : List Opcode → Stack → Option Stack := run (execOpcode env)

def runOps (env : ScriptEnv) : List (Branching Opcode) → Stack → Option Stack :=
  runBranching (execOpcode env) popCondition

/-- The push that Kaspa takes as the minimal one for these bytes is not a data push. -/
def hasShorterPush (data : Bytes) : Bool :=
  match data with
  | [] => true
  | [byte] => (1 ≤ byte.toNat && byte.toNat ≤ 16) || byte == 0x81
  | _ => false

/-- A push whose opcode takes `size` bytes of length before the data. -/
def decodePushData (minimal : Bytes → Bool) (size : Nat) (rest : Bytes) :
    Option (Opcode × Bytes) :=
  let len := unsigned (rest.take size)
  let body := rest.drop size
  if size ≤ rest.length ∧ len ≤ body.length then
    let data := body.take len
    some (if minimal data then .push data else .pushNonMinimal data, body.drop len)
  else none

/-- Opcodes without data. -/
def opcodeOf : Nat → Option (Branching Opcode)
  | 0x63 => some .cond
  | 0x67 => some .otherwise
  | 0x68 => some .close
  | 0x69 => some (.plain .verify)
  | 0x75 => some (.plain .drop)
  | 0x76 => some (.plain .dup)
  | 0x87 => some (.plain .equal)
  | 0x91 => some (.plain .not)
  | 0x93 => some (.plain (.numeric .add))
  | 0x94 => some (.plain (.numeric .sub))
  | 0x9a => some (.plain (.numeric .boolAnd))
  | 0x9b => some (.plain (.numeric .boolOr))
  | 0x9e => some (.plain (.numeric .numNotEqual))
  | 0x9f => some (.plain (.numeric .lessThan))
  | 0xa0 => some (.plain (.numeric .greaterThan))
  | 0xa1 => some (.plain (.numeric .lessThanOrEqual))
  | 0xa2 => some (.plain (.numeric .greaterThanOrEqual))
  | 0xa8 => some (.plain .sha256)
  | 0xaa => some (.plain .blake2b)
  | 0xac => some (.plain .checkSig)
  | 0xae => some (.plain .checkMultiSig)
  | 0xb0 => some (.plain .checkLockTimeVerify)
  | 0xb3 => some (.plain .txInputCount)
  | 0xb4 => some (.plain .txOutputCount)
  | 0xbe => some (.plain .txInputAmount)
  | 0xbf => some (.plain .txInputSpk)
  | 0xc2 => some (.plain .txOutputAmount)
  | 0xc3 => some (.plain .txOutputSpk)
  | _ => none

/-- The first instruction of a script and what follows it. -/
def decodeOp : Bytes → Option (Branching Opcode × Bytes)
  | [] => none
  | byte :: rest =>
      let code := byte.toNat
      let data (minimal : Bytes → Bool) (size : Nat) (rest : Bytes) :=
        (decodePushData minimal size rest).map fun (op, rest) => (.plain op, rest)
      if code = 0 then some (.plain (.push []), rest)
      else if code ≤ 75 then data (fun d => !hasShorterPush d) 1 (byte :: rest)
      else if code = 0x4c then data (fun d => decide (75 < d.length)) 1 rest
      else if code = 0x4d then data (fun d => decide (255 < d.length)) 2 rest
      else if code = 0x4e then data (fun d => decide (65535 < d.length)) 4 rest
      else if code = 0x4f then some (.plain (.push [0x81]), rest)
      else if 0x51 ≤ code ∧ code ≤ 0x60 then some (.plain (.push [UInt8.ofNat (code - 0x50)]), rest)
      else (opcodeOf code).map fun op => (op, rest)

/-- The instructions of a script; every one takes at least a byte. -/
def decodeScript : Nat → Bytes → Option (List (Branching Opcode))
  | _, [] => some []
  | 0, _ :: _ => none
  | fuel + 1, script =>
      (decodeOp script).bind fun (op, rest) => (decodeScript fuel rest).map (op :: ·)

/-- Runs a script on a stack. A script that does not decode fails. -/
def runScript (env : ScriptEnv) (script : Bytes) (stack : Stack) : Option Stack :=
  (decodeScript script.length script).bind fun ops => runOps env ops stack

/-- Kaspa's clean stack rule: exactly one true element is left. -/
def accepts : Option Stack → Bool
  | some [top] => isTrue top
  | _ => false

end KaspaScript
