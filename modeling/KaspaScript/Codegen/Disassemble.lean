import KaspaScript.Codegen.Toccata
import KaspaScript.Library.ScriptNum

namespace KaspaScript

open Library.ScriptNum (unsigned)

def hexDigit (value : Nat) : Char := "0123456789abcdef".toList.getD value '0'

/-- Converts bytecode to lowercase hexadecimal. -/
def bytecodeHex (bytecode : Bytes) : String :=
  String.ofList (bytecode.flatMap fun byte =>
    [hexDigit (byte.toNat / 16), hexDigit (byte.toNat % 16)])

/-- The bytes of a push and the offset behind them. -/
def readPushData (bytecode : Bytes) (offset len : Nat) : Except CodegenError (Bytes × Nat) :=
  -- `checked_add` cannot fail: a vector ends below `isize::MAX`, and no length passes `u32::MAX`
  if offset + len > bytecode.length then
    .error (.invalidBytecode offset "push data exceeds bytecode length")
  else .ok ((bytecode.drop offset).take len, offset + len)

/-- A little-endian length of `width` bytes and the offset behind it. -/
def readLen (width : Nat) (message : String) (bytecode : Bytes) (offset : Nat) :
    Except CodegenError (Nat × Nat) :=
  if bytecode.length - offset < width then .error (.invalidBytecode offset message)
  else .ok (unsigned ((bytecode.drop offset).take width), offset + width)

def readLenU8 : Bytes → Nat → Except CodegenError (Nat × Nat) :=
  readLen 1 "missing OP_PUSHDATA1 length"

def readLenU16 : Bytes → Nat → Except CodegenError (Nat × Nat) :=
  readLen 2 "missing OP_PUSHDATA2 length"

def readLenU32 : Bytes → Nat → Except CodegenError (Nat × Nat) :=
  readLen 4 "missing OP_PUSHDATA4 length"

def opcodeName (opcode : Nat) : Option String :=
  [(0x69, "OP_VERIFY"), (0x75, "OP_DROP"), (0x76, "OP_DUP"), (0x87, "OP_EQUAL"),
    (0x91, "OP_NOT"), (0x93, "OP_ADD"), (0x94, "OP_SUB"), (0x9a, "OP_BOOLAND"),
    (0x9b, "OP_BOOLOR"), (0x9c, "OP_NUMEQUAL"), (0x9e, "OP_NUMNOTEQUAL"),
    (0x9f, "OP_LESSTHAN"), (0xa0, "OP_GREATERTHAN"), (0xa1, "OP_LESSTHANOREQUAL"),
    (0xa2, "OP_GREATERTHANOREQUAL"), (0xa8, "OP_SHA256"), (0xaa, "OP_BLAKE2B"),
    (0xac, "OP_CHECKSIG"), (0xae, "OP_CHECKMULTISIG"), (0xb0, "OP_CHECKLOCKTIMEVERIFY"),
    (0xb1, "OP_CHECKSEQUENCEVERIFY"), (0xb3, "OP_TXINPUTCOUNT"), (0xb4, "OP_TXOUTPUTCOUNT"),
    (0xb9, "OP_TXINPUTINDEX"), (0xbe, "OP_TXINPUTAMOUNT"), (0xbf, "OP_TXINPUTSPK"),
    (0xc2, "OP_TXOUTPUTAMOUNT"), (0xc3, "OP_TXOUTPUTSPK")].lookup opcode

/-- The text of one item whose opcode has been read, and the offset behind the item. -/
def disassembleItem (bytecode : Bytes) (opcode : UInt8) (offset : Nat) :
    Except CodegenError (String × Nat) :=
  let pushed (label : String) (read : Nat × Nat) : Except CodegenError (String × Nat) := do
    let (data, offset) ← readPushData bytecode read.2 read.1
    pure (label ++ " 0x" ++ bytecodeHex data, offset)
  let value := opcode.toNat
  if value = 0x00 then .ok ("OP_0", offset)
  else if value ≤ 0x4b then pushed ("OP_DATA_" ++ toString value) (value, offset)
  else if value = 0x4c then readLenU8 bytecode offset >>= pushed "OP_PUSHDATA1"
  else if value = 0x4d then readLenU16 bytecode offset >>= pushed "OP_PUSHDATA2"
  else if value = 0x4e then readLenU32 bytecode offset >>= pushed "OP_PUSHDATA4"
  else if value = 0x4f then .ok ("OP_1NEGATE", offset)
  else if 0x51 ≤ value ∧ value ≤ 0x60 then .ok ("OP_" ++ toString (value - 0x50), offset)
  else
    match opcodeName value with
    | some name => .ok (name, offset)
    | none => .error (.invalidBytecode (offset - 1) ("unknown opcode 0x" ++ bytecodeHex [opcode]))

/-- The loop of `disassemble`; each item takes at least one byte, so the fuel of one step a byte
that is left cannot run out before the bytes do. -/
def disassembleFrom (bytecode : Bytes) : Nat → Nat → Except CodegenError (List String)
  | 0, _ => .ok []
  | fuel + 1, offset =>
      match bytecode[offset]? with
      | none => .ok []
      | some opcode => do
          let (item, offset) ← disassembleItem bytecode opcode (offset + 1)
          let asm ← disassembleFrom bytecode fuel offset
          pure (item :: asm)

def disassemble (bytecode : Bytes) : Except CodegenError (List String) :=
  disassembleFrom bytecode bytecode.length 0

/-- Disassembles bytecode emitted by this backend into stable ASM. -/
def bytecodeAsm (bytecode : Bytes) : Except CodegenError String :=
  (" ".intercalate ·) <$> disassemble bytecode

/-- Validates a compiled artifact. -/
def verifyArtifact (artifact : CompiledArtifact) : Except CodegenError Unit := do
  if artifact.bytecode = [] then throw .emptyBytecode
  let _ ← disassemble artifact.bytecode
  pure ()

end KaspaScript
