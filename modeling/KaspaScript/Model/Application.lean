import KaspaScript.Lexer.Token

namespace KaspaScript

/-- Unary operator in a normalized constraint. -/
inductive UnaryOperator where
  | not | negate
  deriving DecidableEq, Repr

def UnaryOperator.display : UnaryOperator → String
  | .not => "!"
  | .negate => "-"

/-- Binary operator in a normalized constraint. -/
inductive BinaryOperator where
  | or | and | equal | notEqual | greater | greaterEqual | less | lessEqual
  | add | sub | mul | div | mod
  deriving DecidableEq, Repr

def BinaryOperator.display : BinaryOperator → String
  | .or => "||"
  | .and => "&&"
  | .equal => "=="
  | .notEqual => "!="
  | .greater => ">"
  | .greaterEqual => ">="
  | .less => "<"
  | .lessEqual => "<="
  | .add => "+"
  | .sub => "-"
  | .mul => "*"
  | .div => "/"
  | .mod => "%"

/-- Normalized source expression that does not expose parser internals. -/
inductive NormalizedExpression where
  | symbol (name : String)
  | integer (value : Nat)
  | string (value : String)
  | bool (value : Bool)
  | array (elements : List NormalizedExpression)
  | unary (op : UnaryOperator) (operand : NormalizedExpression)
  | binary (op : BinaryOperator) (left right : NormalizedExpression)
  | call (function : String) (arguments : List NormalizedExpression)
  | field (object : NormalizedExpression) (field : String)
  deriving Repr

/-- One character as the source's `Debug` prints it inside a string; only the escapes of
printable text and the usual controls are modelled. -/
def debugChar (ch : Char) : List Char :=
  match ch with
  | '"' => ['\\', '"']
  | '\\' => ['\\', '\\']
  | '\n' => ['\\', 'n']
  | '\r' => ['\\', 'r']
  | '\t' => ['\\', 't']
  | other => [other]

def debugString (value : String) : String :=
  String.ofList ('"' :: value.toList.flatMap debugChar ++ ['"'])

mutual

def NormalizedExpression.display : NormalizedExpression → String
  | .symbol name => name
  | .integer value => toString value
  | .string value => debugString value
  | .bool value => toString value
  | .array elements => "[" ++ displayList elements ++ "]"
  | .unary op operand => op.display ++ display operand
  | .binary op left right => display left ++ " " ++ op.display ++ " " ++ display right
  | .call function arguments => function ++ "(" ++ displayList arguments ++ ")"
  | .field object name => display object ++ "." ++ name

/-- Elements separated by commas. -/
def NormalizedExpression.displayList : List NormalizedExpression → String
  | [] => ""
  | [element] => display element
  | element :: rest => display element ++ ", " ++ displayList rest

end

/-- Signature policy recognized by source analysis. -/
inductive SigningScheme where
  | singleSignature | multisig
  deriving DecidableEq, Repr

/-- Signatures a wallet must collect before instantiating a transition. -/
structure SigningRequirement where
  scheme : SigningScheme
  threshold : Nat
  authorizedKeys : List String
  signatureArguments : List String
  deriving DecidableEq, Repr

/-- Constraint category used by wallets, indexers, and inspection tools. -/
inductive ConstraintKind where
  | authorization | value | script | timelock | hashlock | covenant | sequencing | proof
  | transactionShape | generic
  deriving DecidableEq, Repr

/-- A source `require` preserved as a normalized transition constraint. -/
structure Constraint where
  kind : ConstraintKind
  expression : NormalizedExpression
  sourceSpan : Span
  deriving Repr

/-- Transaction indexes referenced by a transition. -/
structure TransactionShape where
  referencedInputs : List Nat
  referencedOutputs : List Nat
  exactInputCount : Option Nat
  exactOutputCount : Option Nat
  additionalInputsPermitted : Bool
  additionalOutputsPermitted : Bool
  deriving DecidableEq, Repr

/-- Responsibility for transaction-level monetary construction. -/
inductive MonetaryResponsibility where
  | externalExplicit
  deriving DecidableEq, Repr

/-- Explicit statement of who owns fee and change decisions. -/
structure MonetaryPolicy where
  valueConstraintCount : Nat
  feeHandling : MonetaryResponsibility
  changeHandling : MonetaryResponsibility
  compilerInjectsOutputs : Bool
  compilerInjectsRecipients : Bool
  deriving DecidableEq, Repr

/-- Output fields that can be bound by a transition. -/
inductive OutputField where
  | value | script | covenantId
  deriving DecidableEq, Repr

def OutputField.display : OutputField → String
  | .value => "value"
  | .script => "script"
  | .covenantId => "covenant_id"

/-- An output field constrained by source. -/
structure OutputBinding where
  outputIndex : Nat
  field : OutputField
  relation : BinaryOperator
  expected : NormalizedExpression
  deriving Repr

/-- Continuation strength inferred from source constraints. -/
inductive ContinuationKind where
  | unspecified | namedOutput | outputScriptBound | covenantLineageBound
  deriving DecidableEq, Repr

/-- A source-declared successor output name. -/
structure NamedContinuationOutput where
  name : String
  outputIndex : Nat
  deriving DecidableEq, Repr

/-- How source constrains successor state or output ownership. -/
structure ContinuationModel where
  kind : ContinuationKind
  successorOutputs : List Nat
  namedSuccessorOutputs : List NamedContinuationOutput
  note : String
  deriving DecidableEq, Repr

/-- Named typed value supplied to a contract or transition. -/
structure Parameter where
  name : String
  ty : TypeName
  deriving DecidableEq, Repr

/-- One spend path interpreted as a UTXO transition contract. -/
structure TransitionModel where
  name : String
  arguments : List Parameter
  signingRequirements : List SigningRequirement
  constraints : List Constraint
  transactionShape : TransactionShape
  monetaryPolicy : MonetaryPolicy
  outputBindings : List OutputBinding
  continuation : ContinuationModel
  deriving Repr

/-- Contract state and transition model. -/
structure ContractModel where
  name : String
  state : List Parameter
  finalityDepth : Option Nat
  transitions : List TransitionModel
  deriving Repr

/-- The compiler's part of the application model; its schema version, execution model and
assurance texts are constants and are left out. -/
structure ApplicationModel where
  contracts : List ContractModel
  deriving Repr

def ApplicationModel.transition (model : ApplicationModel) (contract transition : String) :
    Option TransitionModel :=
  (model.contracts.find? fun candidate => candidate.name == contract).bind fun contract =>
    contract.transitions.find? fun candidate => candidate.name == transition

end KaspaScript
