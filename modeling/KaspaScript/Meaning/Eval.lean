import KaspaScript.Codegen.Toccata
import KaspaScript.Engine.Script

namespace KaspaScript

open Library (InOrder)
open Library.ScriptNum (encode)

/-- A value of the source language. -/
inductive Val where
  | num (n : Int)
  | bool (b : Bool)
  | bytes (data : Bytes)
  | list (items : List Bytes)
  deriving DecidableEq, Repr

/-- Leaves a value on the stack; the items of a list in order, the last on top. -/
def Val.push : Val → Stack → Stack
  | .num n, stack => encode n :: stack
  | .bool b, stack => boolBytes b :: stack
  | .bytes data, stack => data :: stack
  | .list items, stack => items.reverse ++ stack

@[simp] theorem Val.push_num (n : Int) (stack : Stack) :
    (Val.num n).push stack = encode n :: stack := rfl

@[simp] theorem Val.push_bool (b : Bool) (stack : Stack) :
    (Val.bool b).push stack = boolBytes b :: stack := rfl

@[simp] theorem Val.push_bytes (data : Bytes) (stack : Stack) :
    (Val.bytes data).push stack = data :: stack := rfl

@[simp] theorem Val.push_list (items : List Bytes) (stack : Stack) :
    (Val.list items).push stack = items.reverse ++ stack := rfl

/-- What the operators tell apart. -/
inductive Ty where
  | num | bool | bytes
  deriving DecidableEq, Repr

def TypeName.ty : TypeName → Ty
  | .amount | .blockHeight => .num
  | .bool => .bool
  | .publicKey | .signature | .hash | .bytes | .covenantId | .zkProof | .utxo | .output | .input =>
      .bytes

/-- Numbers have to fit a script number. -/
def Val.HasTy : Val → Ty → Prop
  | .num n, .num => NumFits n
  | .bool _, .bool => True
  | .bytes _, .bytes => True
  | _, _ => False

/-- A transaction to be spent under, values for the parameters, and the reading of locks. -/
structure Context where
  env : ScriptEnv
  value : String → Val
  lock : Int → Bool

/-- The transaction's lock is of the bound's kind and at least the bound, and the input is not
final. -/
def lockReached (env : ScriptEnv) (bound : Int) : Bool :=
  let lockTime := env.populated.tx.lockTime
  (decide (lockTime < lockTimeThreshold) == decide (bound < lockTimeThreshold))
    && decide (bound ≤ lockTime)
    && (env.populated.tx.inputs[env.inputIndex]?).any (·.sequence ≠ maxTxInSequenceNum)

/-- `block.height` or `block.time`. -/
def isLockRead : Expr → Bool
  | .field (.ident root) field _ =>
      root.name == "block" && (field.name == "height" || field.name == "time")
  | _ => false

/-- Arithmetic that leaves the range of script numbers aborts. -/
def checked (n : Int) : Option Val := if NumFits n then some (.num n) else none

def evalUnary : UnaryOp → Val → Option Val
  | .not, .bool b => some (.bool !b)
  | _, _ => none

def evalBinary : BinaryOp → Val → Val → Option Val
  | .add, .num a, .num b => checked (a + b)
  | .sub, .num a, .num b => checked (a - b)
  | .greater, .num a, .num b => some (.bool (decide (a > b)))
  | .greaterEqual, .num a, .num b => some (.bool (decide (a ≥ b)))
  | .less, .num a, .num b => some (.bool (decide (a < b)))
  | .lessEqual, .num a, .num b => some (.bool (decide (a ≤ b)))
  | .equal, .num a, .num b => some (.bool (decide (a = b)))
  | .equal, .bool a, .bool b => some (.bool (decide (a = b)))
  | .equal, .bytes a, .bytes b => some (.bool (decide (a = b)))
  | .notEqual, .num a, .num b => some (.bool (decide (a ≠ b)))
  | .notEqual, .bool a, .bool b => some (.bool (decide (a ≠ b)))
  | .and, .bool a, .bool b => some (.bool (a && b))
  | .or, .bool a, .bool b => some (.bool (a || b))
  | _, _, _ => none

namespace Context

variable (cx : Context)

def evalIdent (name : String) : Val :=
  if name = "input_count" then .num cx.env.populated.tx.inputs.length
  else if name = "output_count" then .num cx.env.populated.tx.outputs.length
  else cx.value name

/-- A field of an input or an output; without such an input or output the spend aborts. -/
def evalIndexed (root field : String) (index : Nat) : Option Val :=
  match root, field with
  | "input", "value" => cx.env.populated.entries[index]?.map fun entry => .num entry.amount
  | "input", "script" =>
      cx.env.populated.entries[index]?.map fun entry => .bytes (spkBytes entry.scriptPublicKey)
  | "output", "value" => cx.env.populated.tx.outputs[index]?.map fun output => .num output.value
  | "output", "script" =>
      cx.env.populated.tx.outputs[index]?.map fun output => .bytes (spkBytes output.scriptPublicKey)
  | _, _ => none

def evalField (object : Expr) (field : String) : Option Val :=
  match object with
  | .call (.ident root) [.integer index _] _ => cx.evalIndexed root.name field index
  | _ => none

def evalVerify (signature key : Val) : Option Val :=
  match signature, key with
  | .bytes signature, .bytes key => some (.bool (cx.env.checkSig signature key))
  | _, _ => none

/-- Every signature verifies under an authorized key of its own, in the order of the keys. -/
def evalMultisig (threshold : Nat) (keys signatures : Val) : Option Val :=
  match keys, signatures with
  | .list keys, .list signatures =>
      if threshold = signatures.length then
        some (.bool (decide (InOrder cx.env.checkSig signatures keys)))
      else none
  | _, _ => none

/-- A lock that is not reached aborts. -/
def evalLock : Val → Option Val
  | .num bound => if cx.lock bound then some (.bool true) else none
  | _ => none

/-- A hash of the stack element that holds the value. -/
def evalHash (hash : Bytes → Bytes) (v : Val) : Option Val :=
  match v.push [] with
  | [data] => some (.bytes (hash data))
  | _ => none

def evalContinuation (args : List Expr) : Option Val :=
  match args with
  | [_, output] =>
      (Checker.outputCallIndex output).map fun index =>
        .bool (decide (index < cx.env.populated.tx.outputs.length))
  | _ => none

/-- `receiver` is the value of the callee's object, `values` those of the arguments. -/
def evalCall (callee : Expr) (args : List Expr) (receiver : Option Val)
    (values : List (Option Val)) : Option Val :=
  match callee, args, values with
  | .field _ field _, _, [key] =>
      if field.name = "verify" then do cx.evalVerify (← receiver) (← key) else none
  | .ident id, args, values =>
      match id.name, args, values with
      | "multisig", [.integer threshold _, _, _], [_, keys, signatures] => do
          let signatures ← signatures
          cx.evalMultisig threshold (← keys) signatures
      | "sha256", _, [v] => v.bind (evalHash cx.env.sha256)
      | "blake2b", _, [v] => v.bind (evalHash cx.env.blake2b)
      | "continuation", args, _ => cx.evalContinuation args
      | _, _, _ => none
  | _, _, _ => none

/-- The items of an array. -/
def evalArray : List (Option Val) → Option (List Bytes)
  | [] => some []
  | some (.bytes data) :: rest => (evalArray rest).map (data :: ·)
  | _ :: _ => none

mutual

/-- The meaning of an expression; `none` aborts the spend. -/
def eval (cx : Context) : Expr → Option Val
  | .ident id => some (cx.evalIdent id.name)
  | .integer value _ => some (.num value)
  | .string value _ => some (.bytes (utf8Bytes value))
  | .bool value _ => some (.bool value)
  | .array elements _ => (evalArray (evalEach cx elements)).map .list
  | .unary op e _ => (eval cx e).bind (evalUnary op)
  | .binary left op right _ =>
      if op = .greaterEqual ∧ isLockRead left then (eval cx right).bind cx.evalLock
      else (eval cx left).bind fun l => (eval cx right).bind fun r => evalBinary op l r
  | .call callee args _ =>
      cx.evalCall callee args
        (match callee with
          | .field object _ _ => eval cx object
          | _ => none)
        (evalEach cx args)
  | .field object field _ => cx.evalField object field.name

def evalEach (cx : Context) : List Expr → List (Option Val)
  | [] => []
  | e :: rest => eval cx e :: evalEach cx rest

end

end Context

end KaspaScript
