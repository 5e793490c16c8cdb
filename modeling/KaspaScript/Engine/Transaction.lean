import KaspaScript.Ir.Instructions

namespace KaspaScript

/-- A locking script and its version. -/
structure ScriptPublicKey where
  version : UInt16
  script : Bytes
  deriving DecidableEq, Repr

structure TransactionOutpoint where
  transactionId : Bytes
  index : Nat
  deriving DecidableEq, Repr

structure TransactionInput where
  previousOutpoint : TransactionOutpoint
  signatureScript : Bytes
  sequence : Nat
  computeBudget : Nat
  deriving DecidableEq, Repr

structure TransactionOutput where
  value : Nat
  scriptPublicKey : ScriptPublicKey
  covenant : Option Bytes
  deriving DecidableEq, Repr

/-- A native transaction; only the subnetwork, gas and payload, which are constants of the plan
that builds it, are left out. -/
structure Transaction where
  version : Nat
  inputs : List TransactionInput
  outputs : List TransactionOutput
  lockTime : Nat
  storageMass : Nat
  deriving DecidableEq, Repr

structure UtxoEntry where
  amount : Nat
  scriptPublicKey : ScriptPublicKey
  blockDaaScore : Nat
  isCoinbase : Bool
  covenantId : Option Bytes
  deriving DecidableEq, Repr

/-- A transaction with the outputs its inputs spend. -/
structure PopulatedTransaction where
  tx : Transaction
  entries : List UtxoEntry
  deriving DecidableEq, Repr

end KaspaScript
