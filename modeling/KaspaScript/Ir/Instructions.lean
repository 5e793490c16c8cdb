import KaspaScript.Lexer.Token

namespace KaspaScript

abbrev Bytes := List UInt8

/-- IR literal or symbolic value. -/
inductive Value where
  | integer (value : Nat)
  | bool (value : Bool)
  | bytes (value : Bytes)
  | string (value : String)
  | symbol (name : String)
  | type (ty : TypeName)
  deriving DecidableEq, Repr

/-- KaspaScript IR instruction kinds. -/
inductive InstructionKind where
  | push (value : Value)
  | drop | dup
  | inputValue (index : Nat) | inputScript (index : Nat)
  | outputValue (index : Nat) | outputScript (index : Nat)
  | outputCount | inputCount
  | checkSig (keySlot : Nat)
  | checkMultiSig (required keyCount : Nat)
  | checkLockHeight (height : Nat) | checkLockTime (time : Nat)
  | checkLockHeightFromStack | checkLockTimeFromStack
  | covenantDepth | covenantId | zkVerifyGroth16 | zkVerifyRiscZero | sequencingCommitment
  | sha256 | blake2b | hash160 | checkHashPreimage
  | verify | equal | notEqual | lessThan | lessThanOrEqual | greaterThan | greaterThanOrEqual
  | and | or | not | add | sub | mul | div | mod
  deriving DecidableEq, Repr

/-- Opcode-agnostic IR instruction. -/
structure Instruction where
  span : Span
  kind : InstructionKind
  deriving DecidableEq, Repr

/-- The kinds of a lowered sequence. -/
def kinds (code : List Instruction) : List InstructionKind := code.map Instruction.kind

@[simp] theorem kinds_nil : kinds [] = [] := rfl

@[simp] theorem kinds_append (xs ys : List Instruction) : kinds (xs ++ ys) = kinds xs ++ kinds ys :=
  List.map_append

/-- Parameter metadata carried through the IR for artifact ABI generation. -/
structure IrParam where
  name : String
  ty : TypeName
  deriving DecidableEq, Repr

/-- Spend-level IR. -/
structure IrSpend where
  name : String
  params : List IrParam
  instructions : List Instruction
  deriving DecidableEq, Repr

/-- Contract-level IR. -/
structure IrContract where
  name : String
  params : List IrParam
  finalityDepth : Option Nat
  spends : List IrSpend
  deriving DecidableEq, Repr

end KaspaScript
