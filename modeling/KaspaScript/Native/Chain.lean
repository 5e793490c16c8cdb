import KaspaScript.Engine.Encoding

namespace KaspaScript

inductive AddressPrefix where
  | mainnet | testnet
  deriving DecidableEq, Repr

inductive AddressVersion where
  | pubKey | scriptHash
  deriving DecidableEq, Repr

structure Address where
  network : AddressPrefix
  version : AddressVersion
  payload : Bytes
  deriving DecidableEq, Repr

/-- The crates the native side calls: hex text, keys, addresses, standard scripts, the script
builder, covenant data and masses. `Group` is the type of genesis covenant groups. -/
structure NativeLib (Group : Type) where
  sha256 : Bytes → Bytes
  hexDecode : String → Option Bytes
  hexEncode : Bytes → String
  isXOnlyPublicKey : Bytes → Bool
  addressText : Address → String
  payToAddressScript : Address → ScriptPublicKey
  payToScriptHashScript : Bytes → ScriptPublicKey
  extractScriptPubKeyAddress : ScriptPublicKey → AddressPrefix → Except String Address
  addOp : Bytes → UInt8 → Except String Bytes
  addOps : Bytes → Bytes → Except String Bytes
  addData : Bytes → Bytes → Except String Bytes
  addI64 : Bytes → Int → Except String Bytes
  populateGenesisCovenants : List Group → Transaction → Except String Transaction
  covenantsContext : PopulatedTransaction → Except String Unit
  contextualStorageMass : PopulatedTransaction → Option Nat
  signedMass : Transaction → Nat → Nat

/-- What a transaction is apart from its covenant data. -/
structure SameButCovenants (tx tx' : Transaction) : Prop where
  version : tx'.version = tx.version
  inputs : tx'.inputs = tx.inputs
  lockTime : tx'.lockTime = tx.lockTime
  storageMass : tx'.storageMass = tx.storageMass
  outputs : tx'.outputs.map (fun output => (output.value, output.scriptPublicKey)) =
    tx.outputs.map fun output => (output.value, output.scriptPublicKey)

/-- The script builder appends opcodes as they are and data as minimal pushes, and populating the
genesis covenants touches covenant data only. -/
structure NativeLib.Lawful {Group : Type} (lib : NativeLib Group) : Prop where
  addOp : ∀ {script op out}, lib.addOp script op = .ok out → out = script ++ [op]
  addOps : ∀ {script ops out}, lib.addOps script ops = .ok out → out = script ++ ops
  addData : ∀ {script data out}, lib.addData script data = .ok out →
    ∃ code, out = script ++ code ∧ Encodes code [.plain (.push data)]
  addI64 : ∀ {script n out}, lib.addI64 script n = .ok out →
    ∃ code, out = script ++ code ∧ Encodes code [.plain (.push (Library.ScriptNum.encode n))]
  populate : ∀ {groups tx tx'}, lib.populateGenesisCovenants groups tx = .ok tx' →
    SameButCovenants tx tx'

end KaspaScript
