import KaspaScript.Codegen.Grounding
import KaspaScript.Ir.Gen
import Mathlib.Data.List.DropRight

namespace KaspaScript

/-- Largest value of the source's `i64`. -/
def i64Max : Nat := 2 ^ 63 - 1

/-- Protocol target gate used for code generation. -/
inductive Target where
  | verifiedTn12 | tn10Toccata | toccataPreview | futureMainnet
  deriving DecidableEq, Repr

namespace Target

def asStr : Target → String
  | .verifiedTn12 => "verified-tn12"
  | .tn10Toccata => "tn10-toccata"
  | .toccataPreview => "toccata-preview"
  | .futureMainnet => "future-mainnet"

def allowsGatedWarnings : Target → Bool
  | .tn10Toccata | .toccataPreview => true
  | .verifiedTn12 | .futureMainnet => false

end Target

/-- Parameter ABI metadata. -/
structure ArtifactParam where
  name : String
  ty : TypeName
  deriving DecidableEq, Repr

/-- Spend-path artifact metadata. -/
structure ArtifactSpend where
  name : String
  params : List ArtifactParam
  instructions : List Instruction
  deriving DecidableEq, Repr

/-- Contract ABI and per-spend IR embedded in artifacts for transaction builders. -/
structure ArtifactContract where
  name : String
  params : List ArtifactParam
  finalityDepth : Option Nat
  spends : List ArtifactSpend
  deriving DecidableEq, Repr

/-- Deterministic compiler output. -/
structure CompiledArtifact where
  bytecode : Bytes
  sourceHash : Bytes
  compilerVersion : String
  backend : String
  target : String
  finalityDepth : Option Nat
  kipRequirements : List Nat
  warnings : List GroundingWarning
  application : ApplicationModel
  contracts : List ArtifactContract

/-- Code generation error. -/
inductive CodegenError where
  | ir (error : IrError)
  | valueTooLarge (span : Span) (message : String)
  | emptyBytecode
  | unsupportedGrounding (id : String) (citation : SourceCitation) (message : String)
  | gatedGrounding (id target : String) (citation : SourceCitation) (message : String)
  | invalidBytecode (offset : Nat) (message : String)
  deriving DecidableEq, Repr

def opFalse : UInt8 := 0x00
def opPushData1 : UInt8 := 0x4c
def opPushData2 : UInt8 := 0x4d
def opPushData4 : UInt8 := 0x4e
def op1 : UInt8 := 0x51
def opDrop : UInt8 := 0x75
def opDup : UInt8 := 0x76
def opEqual : UInt8 := 0x87
def opVerify : UInt8 := 0x69
def opNot : UInt8 := 0x91
def opAdd : UInt8 := 0x93
def opSub : UInt8 := 0x94
def opBoolAnd : UInt8 := 0x9a
def opBoolOr : UInt8 := 0x9b
def opNumNotEqual : UInt8 := 0x9e
def opLessThan : UInt8 := 0x9f
def opGreaterThan : UInt8 := 0xa0
def opLessThanOrEqual : UInt8 := 0xa1
def opGreaterThanOrEqual : UInt8 := 0xa2
def opSha256 : UInt8 := 0xa8
def opBlake2b : UInt8 := 0xaa
def opCheckSig : UInt8 := 0xac
def opCheckMultiSig : UInt8 := 0xae
def opCheckLockTimeVerify : UInt8 := 0xb0
def opTxInputCount : UInt8 := 0xb3
def opTxOutputCount : UInt8 := 0xb4
def opTxInputAmount : UInt8 := 0xbe
def opTxInputSpk : UInt8 := 0xbf
def opTxOutputAmount : UInt8 := 0xc2
def opTxOutputSpk : UInt8 := 0xc3

/-- `value` as `width` little-endian bytes. -/
def leBytes : Nat → Nat → Bytes
  | 0, _ => []
  | width + 1, value => UInt8.ofNat (value % 256) :: leBytes width (value / 256)

/-- The bytes of a string literal. -/
def utf8Bytes (text : String) : Bytes := text.toList.flatMap String.utf8EncodeChar

def encodeData (bytes : Bytes) (span : Span) : Except CodegenError Bytes :=
  let len := bytes.length
  if len ≤ 75 then .ok (UInt8.ofNat len :: bytes)
  else if len ≤ 255 then .ok (opPushData1 :: UInt8.ofNat len :: bytes)
  else if len ≤ 65535 then .ok (opPushData2 :: leBytes 2 len ++ bytes)
  else if len ≤ u32Max then .ok (opPushData4 :: leBytes 4 len ++ bytes)
  else .error (.valueTooLarge span "push value exceeds u32 length")

/-- The little-endian bytes without leading zeros, and a zero byte where the high bit would
read as the sign. -/
def scriptNumber (value : Nat) : Bytes :=
  let encoded := (leBytes 8 value).rdropWhile (· == 0)
  if encoded.getLast?.any (fun byte => 0x80 ≤ byte) then encoded ++ [0] else encoded

def encodeU64 (value : Nat) (span : Span) : Except CodegenError Bytes :=
  if value > i64Max then
    .error (.valueTooLarge span "positive script number exceeds the native signed 64-bit range")
  else if value = 0 then .ok [opFalse]
  else if value ≤ 16 then .ok [op1 + UInt8.ofNat value - 1]
  else encodeData (scriptNumber value) span

def encodePush (value : Value) (span : Span) : Except CodegenError Bytes :=
  match value with
  | .integer value => encodeU64 value span
  | .bool value => .ok [if value then op1 else opFalse]
  | .bytes value => encodeData value span
  | .string value => encodeData (utf8Bytes value) span
  | .symbol name => encodeData (utf8Bytes name) span
  | .type ty => encodeData (utf8Bytes ty.debug) span

def encodeIndexed (opcode : UInt8) (index : Nat) : Except CodegenError Bytes := do
  let code ← encodeU64 index ⟨0, 0⟩
  pure (code ++ [opcode])

def unsupportedInstruction (kind : InstructionKind) : Except CodegenError Bytes :=
  let record := recordForInstruction kind
  .error (.unsupportedGrounding record.id record.citation record.note)

def encodeInstruction (instruction : Instruction) : Except CodegenError Bytes :=
  match instruction.kind with
  | .push value => encodePush value instruction.span
  | .drop => .ok [opDrop]
  | .dup => .ok [opDup]
  | .inputValue index => encodeIndexed opTxInputAmount index
  | .inputScript index => encodeIndexed opTxInputSpk index
  | .outputValue index => encodeIndexed opTxOutputAmount index
  | .outputScript index => encodeIndexed opTxOutputSpk index
  | .outputCount => .ok [opTxOutputCount]
  | .inputCount => .ok [opTxInputCount]
  | .checkSig _ => .ok [opCheckSig]
  | .checkMultiSig _ keyCount => do
      let count ← encodeU64 keyCount instruction.span
      pure (count ++ [opCheckMultiSig])
  | .checkLockHeight height | .checkLockTime height => do
      let bound ← encodeU64 height instruction.span
      pure (bound ++ [opCheckLockTimeVerify, op1])
  | .checkLockHeightFromStack | .checkLockTimeFromStack => .ok [opCheckLockTimeVerify, op1]
  | .covenantDepth => unsupportedInstruction .covenantDepth
  | .covenantId => unsupportedInstruction .covenantId
  | .zkVerifyGroth16 => unsupportedInstruction .zkVerifyGroth16
  | .zkVerifyRiscZero => unsupportedInstruction .zkVerifyRiscZero
  | .sequencingCommitment => unsupportedInstruction .sequencingCommitment
  | .hash160 => unsupportedInstruction .hash160
  | .checkHashPreimage => unsupportedInstruction .checkHashPreimage
  | .mul => unsupportedInstruction .mul
  | .div => unsupportedInstruction .div
  | .mod => unsupportedInstruction .mod
  | .sha256 => .ok [opSha256]
  | .blake2b => .ok [opBlake2b]
  | .verify => .ok [opVerify]
  | .equal => .ok [opEqual]
  | .notEqual => .ok [opNumNotEqual]
  | .greaterThan => .ok [opGreaterThan]
  | .greaterThanOrEqual => .ok [opGreaterThanOrEqual]
  | .lessThan => .ok [opLessThan]
  | .lessThanOrEqual => .ok [opLessThanOrEqual]
  | .and => .ok [opBoolAnd]
  | .or => .ok [opBoolOr]
  | .not => .ok [opNot]
  | .add => .ok [opAdd]
  | .sub => .ok [opSub]

/-- Compiles an instruction sequence into Kaspa script bytes. -/
def compileInstructionSequence (instructions : List Instruction) : Except CodegenError Bytes :=
  Library.joinAll (instructions.map encodeInstruction)

/-- Instantiates a non-empty spend body as an executable script, closed by a true value. -/
def compileSpendScript (instructions : List Instruction) : Except CodegenError Bytes :=
  if instructions = [] then .error .emptyBytecode
  else do
    let bytecode ← compileInstructionSequence instructions
    pure (bytecode ++ [op1])

/-- Adds the warning of a gated record unless one of its id stands there already, or refuses. -/
def collectGrounding (target : Target) (warnings : List GroundingWarning)
    (record : GroundingRecord) : Except CodegenError (List GroundingWarning) :=
  match record.status with
  | .verified => .ok warnings
  | .gated =>
      if target.allowsGatedWarnings then
        .ok (if record.id ∈ warnings.map GroundingWarning.id then warnings
          else warnings ++ [record.warning])
      else .error (.gatedGrounding record.id target.asStr record.citation record.note)
  | .unsupported => .error (.unsupportedGrounding record.id record.citation record.note)

def collectInstructionGrounding (target : Target) (warnings : List GroundingWarning)
    (instructions : List Instruction) : Except CodegenError (List GroundingWarning) :=
  instructions.foldlM (fun warnings instruction =>
    collectGrounding target warnings (recordForInstruction instruction.kind)) warnings

/-- The spends of all contracts in order: grounding first, then the bytes of each. -/
def compileSpends (target : Target) (warnings : List GroundingWarning) (spends : List IrSpend) :
    Except CodegenError (Bytes × List GroundingWarning) :=
  spends.foldlM (fun (bytecode, warnings) spend => do
    let warnings ← collectInstructionGrounding target warnings spend.instructions
    let code ← compileInstructionSequence spend.instructions
    pure (bytecode ++ code, warnings)) ([], warnings)

def artifactParams (params : List IrParam) : List ArtifactParam :=
  params.map fun param => ⟨param.name, param.ty⟩

def artifactSpend (spend : IrSpend) : ArtifactSpend :=
  ⟨spend.name, artifactParams spend.params, spend.instructions⟩

def artifactContract (contract : IrContract) : ArtifactContract :=
  ⟨contract.name, artifactParams contract.params, contract.finalityDepth,
    contract.spends.map artifactSpend⟩

/-- Compiles IR into deterministic Kaspa transaction script bytecode. -/
def compileToccata (sha256 : Bytes → Bytes) (source : String) (ir : IrProgram)
    (compilerVersion : String) (target : Target) : Except CodegenError CompiledArtifact := do
  let warnings ← (ir.kipRequirements.filterMap recordForKip).foldlM (collectGrounding target) []
  let (bytecode, warnings) ← compileSpends target warnings (ir.contracts.flatMap IrContract.spends)
  pure
    { bytecode := bytecode
      sourceHash := sha256 (utf8Bytes source)
      compilerVersion := compilerVersion
      backend := "kaspa-txscript"
      target := target.asStr
      finalityDepth := (ir.contracts.filterMap IrContract.finalityDepth).max?
      kipRequirements := ir.kipRequirements
      warnings := warnings
      application := ir.application
      contracts := ir.contracts.map artifactContract }

end KaspaScript
