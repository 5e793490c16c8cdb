import KaspaScript.Ir.Application
import KaspaScript.Ir.Instructions
import KaspaScript.Library.Fallible
import KaspaScript.Semantic.Checker

namespace KaspaScript

open Library (joinAll)
open Checker (outputCallIndex)

/-- IR generation error. -/
inductive IrError where
  | semantic (failure : AnalyzeFailure)
  | unsupported (file : String) (line column : Nat) (message : String)
  deriving DecidableEq, Repr

/-- Instructions appended by one lowering call, or its error. -/
abbrev Lowered := Except IrError (List Instruction)

/-- The source reports every such error on line 1, at the byte offset. -/
def unsupported (file : String) (span : Span) (message : String) : Lowered :=
  .error (.unsupported file 1 (span.start + 1) message)

def emit (span : Span) (kind : InstructionKind) : List Instruction := [⟨span, kind⟩]

/-- A root that is neither a name nor a field adds nothing to the path. -/
def collectPath : Expr → List String
  | .ident id => [id.name]
  | .field object field _ => collectPath object ++ [field.name]
  | _ => []

def isPath (expr : Expr) (expected : List String) : Bool := collectPath expr == expected

/-- A lock comparison's two forms: the bound as a literal, or left on the stack. -/
def lowerLock (right : Expr) (span : Span) (literal : Nat → InstructionKind)
    (fromStack : InstructionKind) (loweredRight : Lowered) : Lowered :=
  match right with
  | .integer value _ => .ok (emit span (literal value))
  | _ => do
      let code ← loweredRight
      pure (code ++ emit span fromStack)

/-- `none` where the source returns `false` and the operator is lowered the usual way. -/
def lowerSpecialBinary (left : Expr) (op : BinaryOp) (right : Expr) (span : Span)
    (loweredRight : Lowered) : Option Lowered :=
  if op = .greaterEqual ∧ isPath left ["block", "height"] then
    some (lowerLock right span .checkLockHeight .checkLockHeightFromStack loweredRight)
  else if op = .greaterEqual ∧ isPath left ["block", "time"] then
    some (lowerLock right span .checkLockTime .checkLockTimeFromStack loweredRight)
  else none

def binaryKind : BinaryOp → InstructionKind
  | .or => .or
  | .and => .and
  | .equal => .equal
  | .notEqual => .notEqual
  | .greater => .greaterThan
  | .greaterEqual => .greaterThanOrEqual
  | .less => .lessThan
  | .lessEqual => .lessThanOrEqual
  | .add => .add
  | .sub => .sub
  | .mul => .mul
  | .div => .div
  | .mod => .mod

def lowerBinary (left : Expr) (op : BinaryOp) (right : Expr) (span : Span)
    (loweredLeft loweredRight : Lowered) : Lowered :=
  match lowerSpecialBinary left op right span loweredRight with
  | some code => code
  | none => do
      let l ← loweredLeft
      let r ← loweredRight
      pure (l ++ r ++ emit span (binaryKind op))

def lowerIndexCall (file : String) (args : List Expr) (span : Span) : Lowered :=
  match args with
  | .integer value _ :: _ =>
      if value ≤ u32Max then .ok (emit span (.push (.integer value)))
      else unsupported file span "index exceeds u32"
  | _ => unsupported file span "input/output index must be an integer literal"

def lowerContinuation (file : String) (args : List Expr) (span : Span) : Lowered :=
  match args[1]?.bind outputCallIndex with
  | some index =>
      .ok (emit span .outputCount ++ emit span (.push (.integer index)) ++ emit span .greaterThan)
  | none => unsupported file span "continuation requires output(index)"

/-- The length is cast to `u32`; keys that are no array count as none. -/
def multisigKeyCount (args : List Expr) : Nat :=
  match args with
  | _ :: .array elements _ :: _ => elements.length % 2 ^ 32
  | _ => 0

/-- Signatures stand below the threshold and the keys. -/
def lowerMultisig (file : String) (args : List Expr) (span : Span) (loweredArgs : List Lowered) :
    Lowered :=
  match args.head? with
  | some (.integer required _) =>
      if required ≤ u32Max then do
        let signatures ← joinAll loweredArgs[2]?.toList
        let keys ← joinAll loweredArgs[1]?.toList
        pure (signatures ++ emit span (.push (.integer required)) ++ keys ++
          emit span (.checkMultiSig required (multisigKeyCount args)))
      else unsupported file span "multisig k exceeds u32"
  | _ => unsupported file span "multisig k must be an integer literal"

/-- A builtin that lowers its first argument, if there is one, and appends one instruction. -/
def lowerFirst (loweredArgs : List Lowered) (span : Span) (kind : InstructionKind) : Lowered := do
  let code ← joinAll (loweredArgs.take 1)
  pure (code ++ emit span kind)

/-- `loweredObject` is the lowering of the receiver where the callee is a field. -/
def lowerCall (file : String) (callee : Expr) (args : List Expr) (span : Span)
    (loweredObject loweredCallee : Lowered) (loweredArgs : List Lowered) : Lowered :=
  let unrecognized : Lowered := do
    let code ← loweredCallee
    let rest ← joinAll loweredArgs
    pure (code ++ rest)
  match callee with
  | .field _ field _ =>
      if field.name = "verify" then do
        let object ← loweredObject
        let key ← joinAll (loweredArgs.take 1)
        pure (object ++ key ++ emit span (.checkSig 0))
      else unrecognized
  | .ident id =>
      match id.name with
      | "input" | "output" => lowerIndexCall file args span
      | "continuation" => lowerContinuation file args span
      | "multisig" => lowerMultisig file args span loweredArgs
      | "zk_verify" => lowerFirst loweredArgs span .zkVerifyGroth16
      | "sha256" => lowerFirst loweredArgs span .sha256
      | "blake2b" => lowerFirst loweredArgs span .blake2b
      | "hash160" => lowerFirst loweredArgs span .hash160
      | _ => unrecognized
  | _ => unrecognized

/-- `input(i)` or `output(i)` as the object of a field. -/
def indexedObject : Expr → Option (String × List Expr)
  | .call (.ident root) args _ =>
      if root.name = "input" ∨ root.name = "output" then some (root.name, args) else none
  | _ => none

def indexedKind (root field : String) (index : Nat) : Option InstructionKind :=
  match root, field with
  | "input", "value" => some (.inputValue index)
  | "input", "script" => some (.inputScript index)
  | "output", "value" => some (.outputValue index)
  | "output", "script" => some (.outputScript index)
  | "input", "covenant_id" | "output", "covenant_id" => some .covenantId
  | _, _ => none

def lowerField (file : String) (object : Expr) (field : String) (span : Span)
    (loweredObject : Lowered) : Lowered :=
  match indexedObject object with
  | some (root, .integer index _ :: _) =>
      if index ≤ u32Max then
        match indexedKind root field index with
        | some kind => .ok (emit span kind)
        | none => unsupported file span "unsupported input/output field"
      else unsupported file span "index exceeds u32"
  | some (_, _) => unsupported file span "input/output index must be integer"
  | none =>
      if isPath object ["covenant_id"] ∧ field = "depth" then .ok (emit span .covenantDepth)
      else if isPath object ["sequencing"] then .ok (emit span .sequencingCommitment)
      else do
        let code ← loweredObject
        pure (code ++ emit span (.push (.symbol field)))

mutual

def lowerExpr (file : String) : Expr → Lowered
  | .ident id =>
      match id.name with
      | "input_count" => .ok (emit id.span .inputCount)
      | "output_count" => .ok (emit id.span .outputCount)
      | name => .ok (emit id.span (.push (.symbol name)))
  | .integer value span => .ok (emit span (.push (.integer value)))
  | .string value span => .ok (emit span (.push (.string value)))
  | .bool value span => .ok (emit span (.push (.bool value)))
  | .array elements _ => joinAll (lowerEach file elements)
  | .unary op expr span => do
      let code ← lowerExpr file expr
      match op with
      | .not => pure (code ++ emit span .not)
      | .negate => unsupported file span "numeric negation is not supported in V1"
  | .binary left op right span =>
      lowerBinary left op right span (lowerExpr file left) (lowerExpr file right)
  | .call callee args span =>
      lowerCall file callee args span
        (match callee with
          | .field object _ _ => lowerExpr file object
          | _ => .ok [])
        (lowerExpr file callee) (lowerEach file args)
  | .field object field span => lowerField file object field.name span (lowerExpr file object)

def lowerEach (file : String) : List Expr → List Lowered
  | [] => []
  | expr :: rest => lowerExpr file expr :: lowerEach file rest

end

def lowerStmt (file : String) : Stmt → Lowered
  | .let name expr _ => do
      let code ← lowerExpr file expr
      pure (code ++ emit name.span (.push (.symbol name.name)))
  | .require expr span => do
      let code ← lowerExpr file expr
      pure (code ++ emit span .verify)
  | .return expr _ => lowerExpr file expr

def lowerParams (params : List Param) : List IrParam :=
  params.map fun param => ⟨param.name.name, param.ty⟩

def lowerSpend (file : String) (spend : Spend) : Except IrError IrSpend := do
  let instructions ← joinAll (spend.body.map (lowerStmt file))
  pure ⟨spend.name.name, lowerParams spend.params, instructions⟩

def lowerContract (file : String) (contract : Contract) : Except IrError IrContract := do
  let spends ← contract.spends.mapM (lowerSpend file)
  pure ⟨contract.name.name, lowerParams contract.params, contract.finalityDepth, spends⟩

/-- Complete lowered IR. -/
structure IrProgram where
  contracts : List IrContract
  kipRequirements : List Nat
  application : ApplicationModel

/-- Lowers a checked AST into IR. -/
def lowerProgram (program : Program) (kipRequirements : List Nat) (file : String) :
    Except IrError IrProgram := do
  let contracts ← program.contracts.mapM (lowerContract file)
  pure ⟨contracts, kipRequirements, buildApplicationModel program⟩

end KaspaScript
