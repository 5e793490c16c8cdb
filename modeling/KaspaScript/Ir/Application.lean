import KaspaScript.Model.Application
import KaspaScript.Semantic.Checker

namespace KaspaScript

open Checker (outputCallIndex countSubject)

def normalizeUnaryOperator : UnaryOp → UnaryOperator
  | .not => .not
  | .negate => .negate

def normalizeBinaryOperator : BinaryOp → BinaryOperator
  | .or => .or
  | .and => .and
  | .equal => .equal
  | .notEqual => .notEqual
  | .greater => .greater
  | .greaterEqual => .greaterEqual
  | .less => .less
  | .lessEqual => .lessEqual
  | .add => .add
  | .sub => .sub
  | .mul => .mul
  | .div => .div
  | .mod => .mod

/-- The path of a callee, whose other shapes are printed in normal form. -/
def expressionPath (normalized : NormalizedExpression) : Expr → String
  | .ident id => id.name
  | .field object field _ =>
      match normalized with
      | .field inner _ => expressionPath inner object ++ "." ++ field.name
      | other => other.display
  | _ => normalized.display

mutual

def normalizeExpression : Expr → NormalizedExpression
  | .ident id => .symbol id.name
  | .integer value _ => .integer value
  | .string value _ => .string value
  | .bool value _ => .bool value
  | .array elements _ => .array (normalizeAll elements)
  | .unary op expr _ => .unary (normalizeUnaryOperator op) (normalizeExpression expr)
  | .binary left op right _ =>
      .binary (normalizeBinaryOperator op) (normalizeExpression left) (normalizeExpression right)
  | .call callee args _ =>
      .call (expressionPath (normalizeExpression callee) callee) (normalizeAll args)
  | .field object field _ => .field (normalizeExpression object) field.name

def normalizeAll : List Expr → List NormalizedExpression
  | [] => []
  | expr :: rest => normalizeExpression expr :: normalizeAll rest

end

def expressionLabel (expr : Expr) : String := (normalizeExpression expr).display

def arrayLabels : Expr → List String
  | .array elements _ => elements.map expressionLabel
  | other => [expressionLabel other]

/-- The requirement that a call node itself states. -/
def callRequirement (callee : Expr) (args : List Expr) : Option SigningRequirement :=
  match callee with
  | .field object field _ =>
      if field.name = "verify" then
        some ⟨.singleSignature, 1, args.head?.toList.map expressionLabel, [expressionLabel object]⟩
      else none
  | .ident id =>
      if id.name = "multisig" then
        let threshold := match args.head? with
          | some (.integer value _) => if value ≤ u32Max then value else u32Max
          | _ => 0
        some ⟨.multisig, threshold, (args[1]?.map arrayLabels).getD [],
          (args[2]?.map arrayLabels).getD []⟩
      else none
  | _ => none

mutual

def collectSigningRequirements : Expr → List SigningRequirement
  | .call callee args _ =>
      (callRequirement callee args).toList ++ collectSigningRequirements callee ++
        collectAllSigningRequirements args
  | .array elements _ => collectAllSigningRequirements elements
  | .unary _ expr _ => collectSigningRequirements expr
  | .binary left _ right _ => collectSigningRequirements left ++ collectSigningRequirements right
  | .field object _ _ => collectSigningRequirements object
  | .ident _ | .integer _ _ | .string _ _ | .bool _ _ => []

def collectAllSigningRequirements : List Expr → List SigningRequirement
  | [] => []
  | expr :: rest => collectSigningRequirements expr ++ collectAllSigningRequirements rest

end

/-- The expressions of a spend's `require` statements, in order. -/
def requireExprs (spend : Spend) : List Expr :=
  spend.body.filterMap fun
    | .require expr _ => some expr
    | .let _ _ _ | .return _ _ => none

def signingRequirements (spend : Spend) : List SigningRequirement :=
  (requireExprs spend).flatMap collectSigningRequirements

mutual

def expressionContains (predicate : String → Bool) : Expr → Bool
  | .ident id => predicate id.name
  | .integer _ _ | .string _ _ | .bool _ _ => false
  | .array elements _ => anyContains predicate elements
  | .unary _ expr _ => expressionContains predicate expr
  | .binary left _ right _ =>
      expressionContains predicate left || expressionContains predicate right
  | .call callee args _ => expressionContains predicate callee || anyContains predicate args
  | .field object field _ => predicate field.name || expressionContains predicate object

def anyContains (predicate : String → Bool) : List Expr → Bool
  | [] => false
  | expr :: rest => expressionContains predicate expr || anyContains predicate rest

end

mutual

def expressionContainsField (expected : String) : Expr → Bool
  | .field object field _ => field.name == expected || expressionContainsField expected object
  | .array elements _ => anyContainsField expected elements
  | .unary _ expr _ => expressionContainsField expected expr
  | .binary left _ right _ =>
      expressionContainsField expected left || expressionContainsField expected right
  | .call callee args _ => expressionContainsField expected callee || anyContainsField expected args
  | .ident _ | .integer _ _ | .string _ _ | .bool _ _ => false

def anyContainsField (expected : String) : List Expr → Bool
  | [] => false
  | expr :: rest => expressionContainsField expected expr || anyContainsField expected rest

end

def classifyConstraint (expr : Expr) : ConstraintKind :=
  let names (words : List String) := expressionContains (fun name => words.contains name) expr
  if names ["zk_verify"] then .proof
  else if names ["covenant_id", "covenant"] then .covenant
  else if names ["sequencing"] then .sequencing
  else if names ["verify", "multisig"] then .authorization
  else if names ["block"] then .timelock
  else if names ["sha256", "blake2b", "hash160"] then .hashlock
  else if expressionContainsField "value" expr then .value
  else if expressionContainsField "script" expr then .script
  else if names ["input_count", "output_count", "continuation"] then .transactionShape
  else .generic

/-- The index a normalized call refers to, with the function it is given to. -/
def indexReference (function : String) (arguments : List NormalizedExpression) :
    Option (String × Nat) :=
  match arguments with
  | .integer value :: _ =>
      if value ≤ u32Max ∧ (function = "input" ∨ function = "output") then some (function, value)
      else none
  | _ => none

mutual

/-- Every `input(i)` and `output(i)` of a normalized expression. -/
def collectTransactionIndexes : NormalizedExpression → List (String × Nat)
  | .call function arguments =>
      (indexReference function arguments).toList ++ collectAllIndexes arguments
  | .array elements => collectAllIndexes elements
  | .unary _ operand => collectTransactionIndexes operand
  | .binary _ left right => collectTransactionIndexes left ++ collectTransactionIndexes right
  | .field object _ => collectTransactionIndexes object
  | .symbol _ | .integer _ | .string _ | .bool _ => []

def collectAllIndexes : List NormalizedExpression → List (String × Nat)
  | [] => []
  | expr :: rest => collectTransactionIndexes expr ++ collectAllIndexes rest

end

/-- The indexes given to one of the two functions, as the source's ordered set lists them. -/
def referencedIndexes (function : String) (references : List (String × Nat)) : List Nat :=
  sortedSet (references.filterMap fun (name, index) => if name = function then some index else none)

def reverseRelation : BinaryOperator → BinaryOperator
  | .greater => .less
  | .greaterEqual => .lessEqual
  | .less => .greater
  | .lessEqual => .greaterEqual
  | other => other

/-- `output(i).field` for the fields that can be bound. -/
def outputField : Expr → Option (Nat × OutputField)
  | .field object field _ =>
      match outputCallIndex object, field.name with
      | some index, "value" => some (index, .value)
      | some index, "script" => some (index, .script)
      | some index, "covenant_id" => some (index, .covenantId)
      | _, _ => none
  | _ => none

/-- The left side is tried first; a binding on the right reverses the relation. -/
def outputBinding : Expr → Option OutputBinding
  | .binary left op right _ =>
      match outputField left, outputField right with
      | some (index, field), _ =>
          some ⟨index, field, normalizeBinaryOperator op, normalizeExpression right⟩
      | none, some (index, field) =>
          some ⟨index, field, reverseRelation (normalizeBinaryOperator op),
            normalizeExpression left⟩
      | none, none => none
  | _ => none

/-- `input_count == n` or `n == input_count` with a count that fits `u32`. -/
def exactCountConstraint (expr : Expr) : Option (CountSubject × Nat) :=
  match Checker.exactCountConstraint expr with
  | some (subject, value, _) => if value ≤ u32Max then some (subject, value) else none
  | none => none

/-- Later counts of a subject replace earlier ones. -/
def collectExactTransactionCounts : Expr → Option Nat × Option Nat → Option Nat × Option Nat
  | .binary left .and right _, counts =>
      collectExactTransactionCounts right (collectExactTransactionCounts left counts)
  | expr, (inputs, outputs) =>
      match exactCountConstraint expr with
      | some (.input, count) => (some count, outputs)
      | some (.output, count) => (inputs, some count)
      | none => (inputs, outputs)

def exactTransactionCounts (spend : Spend) : Option Nat × Option Nat :=
  (requireExprs spend).foldl (fun counts expr => collectExactTransactionCounts expr counts)
    (none, none)

def namedSuccessorOutput : Expr → Option NamedContinuationOutput
  | .call (.ident id) (.string name _ :: rest) _ =>
      if id.name = "continuation" then
        (rest.head?.bind outputCallIndex).map fun index => ⟨name, index⟩
      else none
  | _ => none

mutual

def collectNamedSuccessorOutputs : Expr → List NamedContinuationOutput
  | .array elements _ => collectAllNamedSuccessorOutputs elements
  | .unary _ expr _ => collectNamedSuccessorOutputs expr
  | .binary left _ right _ =>
      collectNamedSuccessorOutputs left ++ collectNamedSuccessorOutputs right
  | .call callee args span =>
      (namedSuccessorOutput (.call callee args span)).toList ++
        collectNamedSuccessorOutputs callee ++ collectAllNamedSuccessorOutputs args
  | .field object _ _ => collectNamedSuccessorOutputs object
  | .ident _ | .integer _ _ | .string _ _ | .bool _ _ => []

def collectAllNamedSuccessorOutputs : List Expr → List NamedContinuationOutput
  | [] => []
  | expr :: rest => collectNamedSuccessorOutputs expr ++ collectAllNamedSuccessorOutputs rest

end

/-- Covenant bindings come before script bindings, and these before bare names. -/
def continuationModel (bindings : List OutputBinding) (named : List NamedContinuationOutput) :
    ContinuationModel :=
  let bound (field : OutputField) := (bindings.filter (·.field = field)).map OutputBinding.outputIndex
  let indexes := named.map NamedContinuationOutput.outputIndex
  if bound .covenantId ≠ [] then
    ⟨.covenantLineageBound, sortedSet (bound .covenantId ++ indexes), named,
      "Source binds successor output covenant lineage."⟩
  else if bound .script ≠ [] then
    ⟨.outputScriptBound, sortedSet (bound .script ++ indexes), named,
      "Source binds successor output ownership/script, but does not prove covenant lineage."⟩
  else if named ≠ [] then
    ⟨.namedOutput, sortedSet indexes, named,
      "Source names successor output(s), but does not bind ownership/script or covenant lineage."⟩
  else
    ⟨.unspecified, [], [],
      "Source does not identify a successor state output; wallets and applications must not infer continuation."⟩

def buildTransitionModel (spend : Spend) : TransitionModel :=
  let constraints := (requireExprs spend).map fun expr =>
    (⟨classifyConstraint expr, normalizeExpression expr, expr.span⟩ : Constraint)
  let references := constraints.flatMap fun constraint =>
    collectTransactionIndexes constraint.expression
  let bindings := (requireExprs spend).filterMap outputBinding
  let named := (requireExprs spend).flatMap collectNamedSuccessorOutputs
  let (inputCount, outputCount) := exactTransactionCounts spend
  { name := spend.name.name
    arguments := spend.params.map fun param => ⟨param.name.name, param.ty⟩
    signingRequirements := signingRequirements spend
    constraints := constraints
    transactionShape :=
      { referencedInputs := referencedIndexes "input" references
        referencedOutputs := referencedIndexes "output" references
        exactInputCount := inputCount
        exactOutputCount := outputCount
        additionalInputsPermitted := inputCount.isNone
        additionalOutputsPermitted := outputCount.isNone }
    monetaryPolicy :=
      { valueConstraintCount := (constraints.filter (·.kind = .value)).length
        feeHandling := .externalExplicit
        changeHandling := .externalExplicit
        compilerInjectsOutputs := false
        compilerInjectsRecipients := false }
    outputBindings := bindings
    continuation := continuationModel bindings named }

def buildApplicationModel (program : Program) : ApplicationModel :=
  ⟨program.contracts.map fun contract =>
    { name := contract.name.name
      state := contract.params.map fun param => ⟨param.name.name, param.ty⟩
      finalityDepth := contract.finalityDepth
      transitions := contract.spends.map buildTransitionModel }⟩

end KaspaScript
