import KaspaScript.Library.Collect
import KaspaScript.Parser.Parser
import KaspaScript.Semantic.Scope
import Mathlib.Data.List.Sort

namespace KaspaScript

open Library (Collect)

/-- Largest value of the source's `u32`. -/
def u32Max : Nat := 2 ^ 32 - 1

/-- A semantic error with source location. -/
structure SemanticError where
  file : String
  line : Nat
  column : Nat
  span : Span
  message : String
  deriving DecidableEq, Repr

/-- What every check reads; the collected errors are the `Collect` writer. -/
structure Checker where
  source : String
  file : String
  spendNames : List String

namespace Checker

def error (cx : Checker) (span : Span) (message : String) : Collect SemanticError Unit :=
  let location := locate cx.source cx.file span.start
  Collect.report ⟨location.file, location.line, location.column, span, message⟩

def inferIdentifier (cx : Checker) (id : Ident) (scope : Scope) :
    Collect SemanticError (Option TypeName) :=
  if id.name ∈ cx.spendNames then do
    cx.error id.span "spend functions cannot be referenced from require expressions"
    pure none
  else match id.name with
    | "block" => pure (some .blockHeight)
    | "covenant_id" => pure (some .covenantId)
    | "sequencing" => pure (some .hash)
    | "input_count" | "output_count" => pure (some .amount)
    | "input" | "output" | "multisig" | "zk_verify" | "sha256" | "blake2b" | "hash160" =>
        pure (some .bool)
    | name => do
        if (scope.get name).isNone then cx.error id.span s!"undefined identifier `{name}`"
        pure (scope.get name)

def checkIndexCall (cx : Checker) (args : List Expr) (span : Span) (ty : TypeName) :
    Collect SemanticError (Option TypeName) := do
  match args with
  | [.integer value argSpan] =>
      if value > u32Max then cx.error argSpan "input/output index exceeds u32 range"
  | [arg] => cx.error arg.span "input/output index must be a non-negative integer literal"
  | _ => cx.error span "input/output requires one integer index"
  pure (some ty)

/-- The index of a call `output(i)` whose literal fits `u32`. -/
def outputCallIndex : Expr → Option Nat
  | .call (.ident root) [.integer value _] _ =>
      if root.name = "output" ∧ value ≤ u32Max then some value else none
  | _ => none

def isValidContinuationName (value : String) : Bool :=
  match value.toList with
  | [] => false
  | first :: rest =>
      (first == '_' || first.isAlpha) && rest.all fun ch => ch == '_' || ch == '-' || ch.isAlphanum

def checkContinuation (cx : Checker) (args : List Expr) (span : Span) :
    Collect SemanticError Unit :=
  match args with
  | [name, output] => do
      match name with
      | .string value nameSpan =>
          -- a valid label has no blank, so the source's `trim` branch never reports
          if !isValidContinuationName value then
            cx.error nameSpan "`continuation` name must be a non-empty identifier label"
      | other => cx.error other.span "`continuation` name must be a string literal"
      if (outputCallIndex output).isNone then
        cx.error output.span "`continuation` second argument must be output(index)"
  | _ => cx.error span "`continuation` requires a name and output(index)"

/-- `inferred` is the inference of every argument, run last. -/
def checkMultisig (cx : Checker) (args : List Expr) (span : Span)
    (inferred : Collect SemanticError (List (Option TypeName))) : Collect SemanticError Unit :=
  match args with
  | [threshold, keys, _] => do
      match threshold with
      | .integer k kSpan =>
          match keys with
          | .array elements _ =>
              if k > elements.length then
                cx.error kSpan "`multisig` k cannot exceed number of keys"
          | _ => pure ()
      | other => cx.error other.span "`multisig` k must be an integer literal"
      let _ ← inferred
      pure ()
  | _ => cx.error span "`multisig` requires k, keys, and signatures"

/-- The call checks, over the results of inferring the `verify` receiver, the callee and the
arguments; each is run only where the source infers it. -/
def inferCall (cx : Checker) (callee : Expr) (args : List Expr)
    (receiver calleeType : Collect SemanticError (Option TypeName))
    (argTypes : Collect SemanticError (List (Option TypeName))) :
    Collect SemanticError (Option TypeName) :=
  let unrecognized : Collect SemanticError (Option TypeName) := do
    let _ ← calleeType
    let _ ← argTypes
    pure (some .bool)
  match callee with
  | .field object field _ =>
      if field.name = "verify" then do
        let ty ← receiver
        if ty ≠ some .signature then cx.error object.span "`verify` receiver must be Signature"
        match args with
        | [key] => do
            let tys ← argTypes
            if tys ≠ [some .publicKey] then cx.error key.span "`verify` argument must be PublicKey"
        | _ => cx.error field.span "`verify` requires one PublicKey argument"
        pure (some .bool)
      else unrecognized
  | .ident id =>
      match id.name with
      | "input" => cx.checkIndexCall args id.span .input
      | "output" => cx.checkIndexCall args id.span .output
      | "continuation" => do
          cx.checkContinuation args id.span
          pure (some .bool)
      | "zk_verify" => do
          match args with
          | [proof] => do
              let tys ← argTypes
              if tys ≠ [some .zkProof] then cx.error proof.span "`zk_verify` argument must be ZKProof"
          | _ => cx.error id.span "`zk_verify` requires one proof argument"
          pure (some .bool)
      | "multisig" => do
          cx.checkMultisig args id.span argTypes
          pure (some .bool)
      | "sha256" | "blake2b" | "hash160" => do
          match args with
          | [_] => do
              let _ ← argTypes
              pure ()
          | _ => cx.error id.span "hash functions require one argument"
          pure (some .hash)
      | _ => unrecognized
  | _ => unrecognized

/-- The field checks, over the result of inferring the object. -/
def inferField (cx : Checker) (object : Expr) (field : Ident)
    (objectType : Collect SemanticError (Option TypeName)) :
    Collect SemanticError (Option TypeName) :=
  let access : Collect SemanticError (Option TypeName) := do
    match ← objectType with
    | some .input | some .output =>
        match field.name with
        | "value" => pure (some .amount)
        | "script" => pure (some .bytes)
        | "covenant_id" => pure (some .covenantId)
        | _ => do
            cx.error field.span "unknown input/output field"
            pure none
    | other => pure other
  match object with
  | .ident root =>
      if root.name = "block" then
        match field.name with
        | "height" => pure (some .blockHeight)
        | "time" => pure (some .blockHeight)
        | _ => do
            cx.error field.span "`block` only supports `.height` and `.time`"
            pure none
      else if root.name = "covenant_id" ∧ field.name = "depth" then pure (some .blockHeight)
      else if root.name = "sequencing" then pure (some .blockHeight)
      else access
  | _ => access

mutual

def inferExpr (cx : Checker) (scope : Scope) : Expr → Collect SemanticError (Option TypeName)
  | .ident id => cx.inferIdentifier id scope
  | .integer _ _ => pure (some .amount)
  | .string _ _ => pure (some .bytes)
  | .bool _ _ => pure (some .bool)
  | .array elements _ => do
      let _ ← cx.inferAll scope elements
      pure (some .bytes)
  | .unary op expr _ => do
      let ty ← cx.inferExpr scope expr
      if op = .not ∧ ty ≠ some .bool then cx.error expr.span "`!` requires Bool"
      pure (some .bool)
  | .binary left op right span => do
      let leftTy ← cx.inferExpr scope left
      let rightTy ← cx.inferExpr scope right
      match op with
      | .and | .or =>
          if leftTy ≠ some .bool ∨ rightTy ≠ some .bool then
            cx.error span "logical operators require Bool operands"
          pure (some .bool)
      | .equal | .notEqual | .greater | .greaterEqual | .less | .lessEqual => pure (some .bool)
      | .add | .sub | .mul | .div | .mod => pure (some .amount)
  | .call callee args _ =>
      cx.inferCall callee args
        (match callee with
          | .field object _ _ => cx.inferExpr scope object
          | _ => pure none)
        (cx.inferExpr scope callee) (cx.inferAll scope args)
  | .field object field _ => cx.inferField object field (cx.inferExpr scope object)

def inferAll (cx : Checker) (scope : Scope) :
    List Expr → Collect SemanticError (List (Option TypeName))
  | [] => pure []
  | expr :: rest => do
      let ty ← cx.inferExpr scope expr
      let tys ← cx.inferAll scope rest
      pure (ty :: tys)

end

end Checker

/-- First exact count kept and highest index referenced so far, each with its span. -/
structure CountFacts where
  exact : Option (Nat × Span) := none
  maxIndex : Option (Nat × Span) := none
  deriving DecidableEq, Repr

structure ShapeFacts where
  inputs : CountFacts := {}
  outputs : CountFacts := {}
  deriving DecidableEq, Repr

inductive CountSubject where
  | input | output
  deriving DecidableEq, Repr

def ShapeFacts.get (facts : ShapeFacts) : CountSubject → CountFacts
  | .input => facts.inputs
  | .output => facts.outputs

def ShapeFacts.set (facts : ShapeFacts) : CountSubject → CountFacts → ShapeFacts
  | .input, counts => { facts with inputs := counts }
  | .output, counts => { facts with outputs := counts }

namespace Checker

def countSubject : Expr → Option CountSubject
  | .ident id =>
      match id.name with
      | "input_count" => some .input
      | "output_count" => some .output
      | _ => none
  | _ => none

/-- `input_count == n` or `n == input_count`, and the same for outputs. -/
def exactCountConstraint : Expr → Option (CountSubject × Nat × Span)
  | .binary left .equal right _ =>
      match countSubject left, right with
      | some subject, .integer value span => some (subject, value, span)
      | _, _ =>
          match left, countSubject right with
          | .integer value span, some subject => some (subject, value, span)
          | _, _ => none
  | _ => none

/-- The first count of a subject is kept; a later different one is an error. -/
def recordExactCount (cx : Checker) (facts : ShapeFacts) (subject : CountSubject) (value : Nat)
    (span : Span) : Collect SemanticError ShapeFacts := do
  if value > u32Max then cx.error span "exact transaction count exceeds u32 range"
  match (facts.get subject).exact with
  | some (existing, _) => do
      if existing ≠ value then cx.error span "conflicting exact transaction count constraints"
      pure facts
  | none => pure (facts.set subject { facts.get subject with exact := some (value, span) })

def collectExactCountsFromConjunction (cx : Checker) :
    Expr → ShapeFacts → Collect SemanticError ShapeFacts
  | .binary left .and right _, facts => do
      let facts ← cx.collectExactCountsFromConjunction left facts
      cx.collectExactCountsFromConjunction right facts
  | expr, facts =>
      match exactCountConstraint expr with
      | some (subject, value, span) => cx.recordExactCount facts subject value span
      | none => pure facts

/-- Keeps the larger index, the earlier one on a tie. -/
def recordIndex (facts : ShapeFacts) (subject : CountSubject) (value : Nat) (span : Span) :
    ShapeFacts :=
  match (facts.get subject).maxIndex with
  | some (current, _) =>
      if value ≤ current then facts
      else facts.set subject { facts.get subject with maxIndex := some (value, span) }
  | none => facts.set subject { facts.get subject with maxIndex := some (value, span) }

/-- The reference a call node itself makes, before its parts are visited. -/
def recordCallIndex (callee : Expr) (args : List Expr) (facts : ShapeFacts) : ShapeFacts :=
  match callee, args with
  | .ident id, .integer value span :: _ =>
      match id.name with
      | "input" => recordIndex facts .input value span
      | "output" => recordIndex facts .output value span
      | _ => facts
  | _, _ => facts

mutual

def collectIndexReferences : Expr → ShapeFacts → ShapeFacts
  | .array elements _, facts => collectAllIndexReferences elements facts
  | .unary _ expr _, facts => collectIndexReferences expr facts
  | .binary left _ right _, facts => collectIndexReferences right (collectIndexReferences left facts)
  | .call callee args _, facts =>
      collectAllIndexReferences args
        (collectIndexReferences callee (recordCallIndex callee args facts))
  | .field object _ _, facts => collectIndexReferences object facts
  | .ident _, facts | .integer _ _, facts | .string _ _, facts | .bool _ _, facts => facts

def collectAllIndexReferences : List Expr → ShapeFacts → ShapeFacts
  | [], facts => facts
  | expr :: rest, facts => collectAllIndexReferences rest (collectIndexReferences expr facts)

end

def checkCountFacts (cx : Checker) (label : String) (facts : CountFacts) :
    Collect SemanticError Unit :=
  match facts.exact, facts.maxIndex with
  | some (exact, _), some (maxIndex, maxSpan) =>
      if exact ≤ maxIndex then
        cx.error maxSpan s!"`{label}` must exceed the highest referenced index"
      else pure ()
  | _, _ => pure ()

def checkShapeFacts (cx : Checker) (facts : ShapeFacts) : Collect SemanticError Unit := do
  cx.checkCountFacts "input_count" facts.inputs
  cx.checkCountFacts "output_count" facts.outputs

def continuationName : Expr → Option (String × Span)
  | .call (.ident id) (.string value span :: _) _ =>
      if id.name = "continuation" then some (value, span) else none
  | _ => none

/-- Adds the name a node itself declares, if it is a continuation call. -/
def recordContinuationName (cx : Checker) (expr : Expr) (names : List String) :
    Collect SemanticError (List String) :=
  match continuationName expr with
  | some (name, span) => do
      if name ∈ names then cx.error span s!"duplicate continuation name `{name}`"
      pure (name :: names)
  | none => pure names

mutual

def collectContinuationNames (cx : Checker) :
    Expr → List String → Collect SemanticError (List String)
  | .array elements _, names => cx.collectAllContinuationNames elements names
  | .unary _ expr _, names => cx.collectContinuationNames expr names
  | .binary left _ right _, names => do
      let names ← cx.collectContinuationNames left names
      cx.collectContinuationNames right names
  | .call callee args span, names => do
      let names ← cx.recordContinuationName (.call callee args span) names
      let names ← cx.collectContinuationNames callee names
      cx.collectAllContinuationNames args names
  | .field object _ _, names => cx.collectContinuationNames object names
  | .ident _, names | .integer _ _, names | .string _ _, names | .bool _ _, names => pure names

def collectAllContinuationNames (cx : Checker) :
    List Expr → List String → Collect SemanticError (List String)
  | [], names => pure names
  | expr :: rest, names => do
      let names ← cx.collectContinuationNames expr names
      cx.collectAllContinuationNames rest names

end

mutual

def exprUsesName (name : String) : Expr → Bool
  | .ident id => id.name == name
  | .integer _ _ | .string _ _ | .bool _ _ => false
  | .array elements _ => anyUsesName name elements
  | .unary _ expr _ => exprUsesName name expr
  | .binary left _ right _ => exprUsesName name left || exprUsesName name right
  | .call callee args _ => exprUsesName name callee || anyUsesName name args
  | .field object field _ => field.name == name || exprUsesName name object

def anyUsesName (name : String) : List Expr → Bool
  | [] => false
  | expr :: rest => exprUsesName name expr || anyUsesName name rest

end

def spendUsesName (spend : Spend) (name : String) : Bool :=
  spend.body.any fun stmt => exprUsesName name stmt.expr

/-- What the loop over a spend's statements carries. -/
structure SpendState where
  scope : Scope
  localNames : List String
  shapeFacts : ShapeFacts
  continuationNames : List String
  hasRequire : Bool

/-- One spend parameter: shadowing and repetition are reported, then it is declared anyway. -/
def checkSpendParam (cx : Checker) (contractScope : Scope) (st : SpendState) (param : Param) :
    Collect SemanticError SpendState := do
  let name := param.name.name
  if contractScope.contains name then
    cx.error param.name.span s!"spend parameter `{name}` shadows a contract parameter"
  if name ∈ st.localNames then
    cx.error param.name.span s!"duplicate spend parameter `{name}`"
  pure { st with scope := (st.scope.insert name param.ty).2, localNames := name :: st.localNames }

def checkStmt (cx : Checker) (st : SpendState) : Stmt → Collect SemanticError SpendState
  | .let name expr _ => do
      let ty ← cx.inferExpr st.scope expr
      let st' := { st with localNames := name.name :: st.localNames }
      if name.name ∈ st.localNames ∨ st.scope.contains name.name then do
        cx.error name.span s!"duplicate let binding `{name.name}`"
        pure st'
      else match ty with
        | some ty => pure { st' with scope := (st.scope.insert name.name ty).2 }
        | none => pure st'
  | .require expr _ => do
      let ty ← cx.inferExpr st.scope expr
      if ty ≠ some .bool then cx.error expr.span "`require` expression must be Bool"
      let facts ← cx.collectExactCountsFromConjunction expr st.shapeFacts
      let names ← cx.collectContinuationNames expr st.continuationNames
      pure { st with
        shapeFacts := collectIndexReferences expr facts
        continuationNames := names
        hasRequire := true }
  | .return expr _ => do
      let _ ← cx.inferExpr st.scope expr
      pure st

def checkSpendParams (cx : Checker) (contractScope : Scope) :
    List Param → SpendState → Collect SemanticError SpendState
  | [], st => pure st
  | param :: rest, st => do
      let st ← cx.checkSpendParam contractScope st param
      cx.checkSpendParams contractScope rest st

def checkStmts (cx : Checker) : List Stmt → SpendState → Collect SemanticError SpendState
  | [], st => pure st
  | stmt :: rest, st => do
      let st ← cx.checkStmt st stmt
      cx.checkStmts rest st

def checkSpend (cx : Checker) (contract : Contract) (spend : Spend) (contractScope : Scope) :
    Collect SemanticError Unit := do
  let st ← cx.checkSpendParams contractScope spend.params ⟨contractScope, [], {}, [], false⟩
  let st ← cx.checkStmts spend.body st
  if !st.hasRequire then
    cx.error spend.name.span s!"spend `{spend.name.name}` must contain at least one require"
  if spendUsesName spend "covenant_id" ∧ contract.finalityDepth.getD 0 = 0 then
    cx.error spend.name.span "`covenant_id` requires `finality_depth` > 0"
  cx.checkShapeFacts st.shapeFacts

def checkContractParams (cx : Checker) : List Param → Scope → Collect SemanticError Scope
  | [], scope => pure scope
  | param :: rest, scope => do
      let (fresh, scope) := scope.insert param.name.name param.ty
      if !fresh then cx.error param.name.span s!"duplicate parameter `{param.name.name}`"
      cx.checkContractParams rest scope

def checkSpends (cx : Checker) (contract : Contract) (contractScope : Scope) :
    List Spend → List String → Collect SemanticError Unit
  | [], _ => pure ()
  | spend :: rest, seen => do
      if spend.name.name ∈ seen then
        cx.error spend.name.span s!"duplicate spend `{spend.name.name}`"
      cx.checkSpend contract spend contractScope
      cx.checkSpends contract contractScope rest (spend.name.name :: seen)

def checkContract (cx : Checker) (contract : Contract) : Collect SemanticError Unit := do
  if contract.finalityDepth = some 0 then
    cx.error contract.name.span "`finality_depth` must be > 0"
  let contractScope ← cx.checkContractParams contract.params Scope.new
  let cx := { cx with spendNames := contract.spends.map fun (spend : Spend) => spend.name.name }
  cx.checkSpends contract contractScope contract.spends []

def checkContracts (cx : Checker) : List Contract → List String → Collect SemanticError Unit
  | [], _ => pure ()
  | contract :: rest, seen => do
      if contract.name.name ∈ seen then
        cx.error contract.name.span s!"duplicate contract `{contract.name.name}`"
      cx.checkContract contract
      cx.checkContracts rest (contract.name.name :: seen)

def checkProgram (cx : Checker) (program : Program) : Collect SemanticError Unit :=
  cx.checkContracts program.contracts []

end Checker

mutual

/-- The KIPs an expression needs, in the order the source inserts them. -/
def collectExprKips : Expr → List Nat
  | .ident id =>
      match id.name with
      | "input" | "output" | "input_count" | "output_count" => [10]
      | "covenant_id" => [20]
      | "zk_verify" => [16]
      | "sequencing" => [15]
      | _ => []
  | .integer _ _ | .string _ _ | .bool _ _ => []
  | .array elements _ => collectAllKips elements
  | .unary _ expr _ => collectExprKips expr
  | .binary left _ right _ => collectExprKips left ++ collectExprKips right
  | .call callee args _ => collectExprKips callee ++ collectAllKips args
  | .field object field _ =>
      (if field.name = "covenant_id" then [20] else []) ++ collectExprKips object

def collectAllKips : List Expr → List Nat
  | [] => []
  | expr :: rest => collectExprKips expr ++ collectAllKips rest

end

/-- A set read in ascending order: the source's sorted `HashSet` and its `BTreeSet`. -/
def sortedSet (values : List Nat) : List Nat := values.dedup.insertionSort (· ≤ ·)

def collectKipRequirements (program : Program) : List Nat :=
  sortedSet <| program.contracts.flatMap fun contract =>
    contract.spends.flatMap fun spend =>
      spend.body.flatMap fun stmt => collectExprKips stmt.expr

/-- Full semantic analysis output. -/
structure Analysis where
  program : Program
  kipRequirements : List Nat
  finalityDepth : Option Nat

/-- Semantic analysis failure; the number is that of the collected errors. -/
inductive AnalyzeError where
  | parse (error : ParseFailure)
  | semantic (count : Nat)
  deriving DecidableEq, Repr

/-- Result that preserves all collected semantic errors. -/
structure AnalyzeFailure where
  error : AnalyzeError
  errors : List SemanticError
  deriving DecidableEq, Repr

/-- Semantically checks an already parsed program. -/
def analyzeProgram (program : Program) (source file : String) : Except AnalyzeFailure Analysis :=
  let checked := Checker.checkProgram ⟨source, file, []⟩ program
  if checked.errors.isEmpty then
    .ok ⟨program, collectKipRequirements program,
      (program.contracts.filterMap Contract.finalityDepth).max?⟩
  else .error ⟨.semantic checked.errors.length, checked.errors⟩

end KaspaScript
