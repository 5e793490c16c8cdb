import KaspaScript.Codegen.Compile
import KaspaScript.Native.Plan

namespace KaspaScript

def escrowFile : String := "contracts/buyer_seller_escrow.ks"

/-- The text of the contract's file. -/
def escrowSource : String :=
"contract BuyerSellerEscrow \x7b
  params \x7b
    buyer: PublicKey,
    seller: PublicKey,
    refund_daa_score: BlockHeight,
    max_fee: Amount,
  \x7d

  spend release(buyer_sig: Signature, seller_sig: Signature) \x7b
    require multisig(2, [buyer, seller], [buyer_sig, seller_sig]);
    require input_count == 1;
    require output_count == 1;
    require input(0).value > max_fee;
    require output(0).value >= input(0).value - max_fee;
    require output(0).script == seller;
  \x7d

  spend refund(buyer_sig: Signature) \x7b
    require buyer_sig.verify(buyer);
    require block.height >= refund_daa_score;
    require input_count == 1;
    require output_count == 1;
    require input(0).value > max_fee;
    require output(0).value >= input(0).value - max_fee;
    require output(0).script == buyer;
  \x7d
\x7d
"

structure EscrowTerms where
  buyerPublicKey : String
  sellerPublicKey : String
  refundDaaScore : Nat
  maxFeeSompi : Nat
  deriving DecidableEq, Repr

inductive EscrowPath where
  | release | refund
  deriving DecidableEq, Repr

/-- Why a script could not be made: a compiler error, whose text the source keeps, or a text. -/
inductive ScriptReason where
  | codegen (error : CodegenError)
  | text (message : String)
  deriving DecidableEq, Repr

inductive EscrowError where
  | invalidKeys | invalidDeadline | invalidFee | wrongUtxo
  | script (reason : ScriptReason)
  | invalidSignatures | wrongNode | missingUtxo | refundNotDue | mass
  | plan (error : PlanError)
  deriving DecidableEq, Repr

structure BuyerSellerEscrow where
  terms : EscrowTerms
  buyer : Bytes
  seller : Bytes
  redeemScript : Bytes
  scriptPublicKey : ScriptPublicKey
  address : Address
  sourceHash : String
  deriving DecidableEq, Repr

def scriptError {α : Type} : Except String α → Except EscrowError α
  | .ok a => .ok a
  | .error message => .error (.script (.text message))

def codegenError {α : Type} : Except CodegenError α → Except EscrowError α
  | .ok a => .ok a
  | .error error => .error (.script (.codegen error))

def signerCount : EscrowPath → Nat
  | .release => 2
  | .refund => 1

def sigHashAll : UInt8 := 1

def opIf : UInt8 := 0x63
def opElse : UInt8 := 0x67
def opEndIf : UInt8 := 0x68

section

variable {Group : Type} (lib : NativeLib Group)

/-- The 32 bytes of a hex-encoded x-only key. -/
def parseKey (value : String) : Except EscrowError Bytes :=
  match lib.hexDecode value with
  | some bytes =>
      if bytes.length = 32 ∧ lib.isXOnlyPublicKey bytes then .ok bytes else .error .invalidKeys
  | none => .error .invalidKeys

/-- An address that pays to a key. -/
def keyAddress (key : Bytes) : Address := ⟨.testnet, .pubKey, key⟩

namespace BuyerSellerEscrow

def payout (escrow : BuyerSellerEscrow) : EscrowPath → Address
  | .release => keyAddress escrow.seller
  | .refund => keyAddress escrow.buyer

/-- A key as the script of its address right after an output's script, else its bytes. -/
def keyValue (previous : Option InstructionKind) (key : Bytes) : Value :=
  match previous with
  | some (.outputScript _) => .bytes (spkBytes (lib.payToAddressScript (keyAddress key)))
  | _ => .bytes key

/-- What stands for an instruction, given the one before it: a parameter's value, nothing for a
signature. -/
def bindKind (escrow : BuyerSellerEscrow) (previous : Option InstructionKind)
    (kind : InstructionKind) : Except EscrowError (List InstructionKind) :=
  match kind with
  | .push (.symbol name) =>
      match name with
      | "buyer_sig" | "seller_sig" => .ok []
      | "max_fee" => .ok [.push (.integer escrow.terms.maxFeeSompi)]
      | "refund_daa_score" => .ok [.push (.integer escrow.terms.refundDaaScore)]
      | "buyer" => .ok [.push (keyValue lib previous escrow.buyer)]
      | "seller" => .ok [.push (keyValue lib previous escrow.seller)]
      | _ => .error (.script (.text "unexpected escrow source parameter"))
  | kind => .ok [kind]

def bindFrom (escrow : BuyerSellerEscrow) :
    Option InstructionKind → List Instruction → Except EscrowError (List Instruction)
  | _, [] => .ok []
  | previous, instruction :: rest => do
      let bound ← escrow.bindKind lib previous instruction.kind
      let others ← escrow.bindFrom (some instruction.kind) rest
      pure (bound.map (Instruction.mk instruction.span) ++ others)

/-- Puts the terms in the place of the parameters; signatures come from the stack. -/
def bind (escrow : BuyerSellerEscrow) (instructions : List Instruction) :
    Except EscrowError (List Instruction) := escrow.bindFrom lib none instructions

/-- One path of the redeem script. -/
def branch (escrow : BuyerSellerEscrow) (spends : List ArtifactSpend) (name : String) :
    Except EscrowError Bytes :=
  match spends.find? fun spend => spend.name = name with
  | some spend => do
      let instructions ← escrow.bind lib spend.instructions
      codegenError (compileSpendScript instructions)
  | none => .error (.script (.text "escrow source is missing a spend"))

/-- Both paths behind one condition, so that they share an address. -/
def dispatch (release refund : Bytes) : Except EscrowError Bytes := scriptError do
  let script ← lib.addOp [] opIf
  let script ← lib.addOps script release
  let script ← lib.addOp script opElse
  let script ← lib.addOps script refund
  lib.addOp script opEndIf

def new (terms : EscrowTerms) : Except EscrowError BuyerSellerEscrow := do
  let buyer ← parseKey lib terms.buyerPublicKey
  let seller ← parseKey lib terms.sellerPublicKey
  if buyer = seller then .error .invalidKeys
  else if terms.refundDaaScore = 0 ∨ terms.refundDaaScore ≥ lockTimeThreshold then
    .error .invalidDeadline
  else if terms.maxFeeSompi = 0 ∨ terms.maxFeeSompi > i64Max then .error .invalidFee
  else do
    let artifact ← codegenError (compileFileForTarget lib.sha256 escrowSource escrowFile .tn10Toccata)
    let escrow : BuyerSellerEscrow :=
      ⟨terms, buyer, seller, [], ⟨0, []⟩, keyAddress buyer, lib.hexEncode artifact.sourceHash⟩
    -- the compiled source has one contract, so the source's index never panics
    let spends := artifact.contracts.head?.elim [] ArtifactContract.spends
    let release ← escrow.branch lib spends "release"
    let refund ← escrow.branch lib spends "refund"
    let redeemScript ← dispatch lib release refund
    let scriptPublicKey := lib.payToScriptHashScript redeemScript
    let address ← scriptError (lib.extractScriptPubKeyAddress scriptPublicKey .testnet)
    pure { escrow with
      redeemScript := redeemScript, scriptPublicKey := scriptPublicKey, address := address }

/-- Encodes the signatures of a path, the path's flag and the redeem script. -/
def signatureScript (escrow : BuyerSellerEscrow) (path : EscrowPath) (signatures : List Bytes) :
    Except EscrowError Bytes :=
  if signatures.length ≠ signerCount path ∨
      signatures.any (fun sig => sig.length ≠ 65 || sig[64]? ≠ some sigHashAll) then
    .error .invalidSignatures
  else scriptError do
    let script ← signatures.foldlM lib.addData []
    let script ← lib.addI64 script (if path = .release then 1 else 0)
    lib.addData script escrow.redeemScript

end BuyerSellerEscrow

end

end KaspaScript
