import KaspaScript.Meaning.Require
import KaspaScript.Native.EscrowIr

namespace KaspaScript

open Library (Branching bind_eq_ok pure_eq_ok run_append runBranching_cond)
open Library.ScriptNum (encode encode_injective)

/-- The opcodes pass exactly under the condition, and leave the stack as it was. -/
def Checks (env : ScriptEnv) (ops : List Opcode) (condition : Prop) : Prop :=
  ∀ stack stack', runOpcodes env ops stack = some stack' ↔ condition ∧ stack' = stack

theorem Checks.append {env : ScriptEnv} {ops ops' : List Opcode} {condition condition' : Prop}
    (h : Checks env ops condition) (h' : Checks env ops' condition') :
    Checks env (ops ++ ops') (condition ∧ condition') := by
  intro stack stack'
  rw [runOpcodes, run_append, Option.bind_eq_some_iff]
  constructor
  · intro hrun
    obtain ⟨mid, hmid, hrest⟩ := hrun
    obtain ⟨hc, heq⟩ := (h stack mid).mp hmid
    rw [heq] at hrest
    obtain ⟨hc', heq'⟩ := (h' stack stack').mp hrest
    exact ⟨⟨hc, hc'⟩, heq'⟩
  · intro hboth
    obtain ⟨⟨hc, hc'⟩, heq⟩ := hboth
    exact ⟨stack, (h stack stack).mpr ⟨hc, rfl⟩, (h' stack stack').mpr ⟨hc', heq⟩⟩

/-- A body that checks a condition and the closing true value leave one true element exactly
where nothing was below them. -/
theorem Checks.accepts {env : ScriptEnv} {ops : List Opcode} {condition : Prop}
    (h : Checks env ops condition) :
    accepts (runOpcodes env (ops ++ [.push (boolBytes true)]) []) = true ↔ condition := by
  have hpush (stack : Stack) :
      Library.run (execOpcode env) [.push (boolBytes true)] stack = some (boolBytes true :: stack) :=
    rfl
  rw [runOpcodes, run_append]
  cases hrun : Library.run (execOpcode env) ops [] with
  | none =>
    constructor
    · intro hfalse
      cases hfalse
    · intro hc
      have hsome := (h [] []).mpr ⟨hc, rfl⟩
      rw [runOpcodes, hrun] at hsome
      cases hsome
  | some stack =>
    obtain ⟨hc, heq⟩ := (h [] stack).mp hrun
    rw [Option.bind_some, hpush, heq]
    exact ⟨fun _ => hc, fun _ => rfl⟩

def oneInputOps : List Opcode := [.txInputCount, .push (encode 1), .equal, .verify]

def oneOutputOps : List Opcode := [.txOutputCount, .push (encode 1), .equal, .verify]

def inputAmountOps : List Opcode := [.push (encode 0), .txInputAmount]

def outputAmountOps : List Opcode := [.push (encode 0), .txOutputAmount]

def aboveFeeOps (maxFee : Nat) : List Opcode :=
  inputAmountOps ++ [.push (encode maxFee), .numeric .greaterThan, .verify]

def payoutOps (maxFee : Nat) : List Opcode :=
  outputAmountOps ++ (inputAmountOps ++
    [.push (encode maxFee), .numeric .sub, .numeric .greaterThanOrEqual, .verify])

def payeeOps (payee : ScriptPublicKey) : List Opcode :=
  [.push (encode 0), .txOutputSpk, .push (spkBytes payee), .equal, .verify]

/-- What a path's script demands of the transaction. -/
def settlementOps (maxFee : Nat) (payee : ScriptPublicKey) : List Opcode :=
  oneInputOps ++ (oneOutputOps ++ (aboveFeeOps maxFee ++ (payoutOps maxFee ++ payeeOps payee)))

section

variable {env : ScriptEnv}

/-- The transaction moves one entry to one output that pays `payee` all but the fee. -/
def Settles (populated : PopulatedTransaction) (maxFee : Nat) (payee : ScriptPublicKey) : Prop :=
  ∃ input entry output, populated.tx.inputs = [input] ∧ populated.entries = [entry] ∧
    populated.tx.outputs = [output] ∧ maxFee < entry.amount ∧
    entry.amount - maxFee ≤ output.value ∧ output.scriptPublicKey = payee

theorem runOpcodes_verify_iff (b : Bool) (stack stack' : Stack) :
    runOpcodes env [.verify] (boolBytes b :: stack) = some stack' ↔ b = true ∧ stack' = stack := by
  rw [runOpcodes_verify]
  cases b
  · simp
  · simp [eq_comm]

theorem checks_inputCount (htx : Admissible env.populated) :
    Checks env oneInputOps (env.populated.tx.inputs.length = 1) := by
  intro stack stack'
  have hfits := numFits_of_le htx.inputCount
  have hrun : runOpcodes env oneInputOps stack =
      runOpcodes env [.verify]
        (boolBytes (decide (env.populated.tx.inputs.length = 1)) :: stack) := by
    simp [oneInputOps, runOpcodes, Library.run_cons, execOpcode, pushNum, hfits,
      encode_injective.eq_iff, Bool.beq_eq_decide_eq]
  rw [hrun, runOpcodes_verify_iff, decide_eq_true_iff]

theorem checks_outputCount (htx : Admissible env.populated) :
    Checks env oneOutputOps (env.populated.tx.outputs.length = 1) := by
  intro stack stack'
  have hfits := numFits_of_le htx.outputCount
  have hrun : runOpcodes env oneOutputOps stack =
      runOpcodes env [.verify]
        (boolBytes (decide (env.populated.tx.outputs.length = 1)) :: stack) := by
    simp [oneOutputOps, runOpcodes, Library.run_cons, execOpcode, pushNum, hfits,
      encode_injective.eq_iff, Bool.beq_eq_decide_eq]
  rw [hrun, runOpcodes_verify_iff, decide_eq_true_iff]

/-- The amount of the first entry, left on the stack. -/
theorem runOpcodes_inputAmount (htx : Admissible env.populated) (stack : Stack) :
    runOpcodes env inputAmountOps stack =
      env.populated.entries[0]?.map fun entry => encode entry.amount :: stack := by
  have hindex : readIndex env.populated.entries (encode (0 : Nat)) = env.populated.entries[0]? :=
    readIndex_encode env.populated.entries (by decide)
  simp only [inputAmountOps, runOpcodes, Library.run_cons, Library.run_nil, execOpcode,
    Option.bind_some]
  rw [show encode 0 = encode ((0 : Nat) : Int) from rfl, hindex]
  cases hentry : env.populated.entries[0]? with
  | none => rfl
  | some entry =>
    have hfits := numFits_of_le (htx.entries entry (List.mem_of_getElem? hentry))
    simp [pushNum, hfits]

theorem runOpcodes_outputAmount (htx : Admissible env.populated) (stack : Stack) :
    runOpcodes env outputAmountOps stack =
      env.populated.tx.outputs[0]?.map fun output => encode output.value :: stack := by
  have hindex : readIndex env.populated.tx.outputs (encode (0 : Nat)) =
      env.populated.tx.outputs[0]? := readIndex_encode env.populated.tx.outputs (by decide)
  simp only [outputAmountOps, runOpcodes, Library.run_cons, Library.run_nil, execOpcode,
    Option.bind_some]
  rw [show encode 0 = encode ((0 : Nat) : Int) from rfl, hindex]
  cases houtput : env.populated.tx.outputs[0]? with
  | none => rfl
  | some output =>
    have hfits := numFits_of_le (htx.outputs output (List.mem_of_getElem? houtput))
    simp [pushNum, hfits]

theorem checks_aboveFee (htx : Admissible env.populated) {maxFee : Nat} (hfee : maxFee ≤ i64Max) :
    Checks env (aboveFeeOps maxFee)
      (∃ entry, env.populated.entries[0]? = some entry ∧ maxFee < entry.amount) := by
  intro stack stack'
  rw [aboveFeeOps, runOpcodes, run_append]
  change (runOpcodes env _ stack).bind (runOpcodes env _) = _ ↔ _
  rw [runOpcodes_inputAmount htx]
  cases hentry : env.populated.entries[0]? with
  | none => simp
  | some entry =>
    have hfits := numFits_of_le (htx.entries entry (List.mem_of_getElem? hentry))
    have hrun : runOpcodes env [.push (encode maxFee), .numeric .greaterThan, .verify]
        (encode entry.amount :: stack) =
        runOpcodes env [.verify] (boolBytes (decide (maxFee < entry.amount)) :: stack) := by
      simp [runOpcodes, Library.run_cons, execOpcode, hfits, numFits_of_le hfee, NumOp.eval,
        pushNum_truth]
    rw [Option.map_some, Option.bind_some, hrun, runOpcodes_verify_iff]
    simp

theorem checks_payout (htx : Admissible env.populated) {maxFee : Nat} (hfee : maxFee ≤ i64Max) :
    Checks env (payoutOps maxFee)
      (∃ output entry, env.populated.tx.outputs[0]? = some output ∧
        env.populated.entries[0]? = some entry ∧ entry.amount ≤ output.value + maxFee) := by
  intro stack stack'
  rw [payoutOps, runOpcodes, run_append]
  change (runOpcodes env _ stack).bind (runOpcodes env _) = _ ↔ _
  rw [runOpcodes_outputAmount htx]
  cases houtput : env.populated.tx.outputs[0]? with
  | none => simp
  | some output =>
    rw [Option.map_some, Option.bind_some, runOpcodes, run_append]
    change (runOpcodes env _ _).bind (runOpcodes env _) = _ ↔ _
    rw [runOpcodes_inputAmount htx]
    cases hentry : env.populated.entries[0]? with
    | none => simp
    | some entry =>
      have hvalue := htx.outputs output (List.mem_of_getElem? houtput)
      have hamount := htx.entries entry (List.mem_of_getElem? hentry)
      have hdiff : NumFits ((entry.amount : Int) - maxFee) := by
        unfold NumFits
        unfold i64Max at hfee hamount
        omega
      have hrun : runOpcodes env [.push (encode maxFee), .numeric .sub,
          .numeric .greaterThanOrEqual, .verify] (encode entry.amount :: encode output.value :: stack) =
          runOpcodes env [.verify]
            (boolBytes (decide ((entry.amount : Int) - maxFee ≤ output.value)) :: stack) := by
        simp [runOpcodes, Library.run_cons, execOpcode, numFits_of_le hamount, numFits_of_le hfee,
          numFits_of_le hvalue, NumOp.eval, pushNum, hdiff, numFits_truth, boolBytes_eq]
      rw [Option.map_some, Option.bind_some, hrun, runOpcodes_verify_iff]
      simp
      omega

theorem checks_payee (payee : ScriptPublicKey) :
    Checks env (payeeOps payee)
      (∃ output, env.populated.tx.outputs[0]? = some output ∧ output.scriptPublicKey = payee) := by
  intro stack stack'
  have hindex : readIndex env.populated.tx.outputs (encode (0 : Nat)) =
      env.populated.tx.outputs[0]? := readIndex_encode env.populated.tx.outputs (by decide)
  have hrun : runOpcodes env (payeeOps payee) stack =
      env.populated.tx.outputs[0]?.bind fun output =>
        runOpcodes env [.verify]
          (boolBytes (decide (output.scriptPublicKey = payee)) :: stack) := by
    simp only [payeeOps, runOpcodes, Library.run_cons, Library.run_nil, execOpcode,
      Option.bind_some]
    rw [show encode 0 = encode ((0 : Nat) : Int) from rfl, hindex]
    cases env.populated.tx.outputs[0]? with
    | none => rfl
    | some output =>
      have hbeq : (spkBytes output.scriptPublicKey == spkBytes payee) =
          decide (output.scriptPublicKey = payee) := by
        rw [Bool.beq_eq_decide_eq, decide_eq_decide]
        exact spkBytes_injective.eq_iff
      change runOpcodes env [.verify] (boolBytes (_ == _) :: stack) = _
      rw [hbeq]
      rfl
  rw [hrun]
  cases env.populated.tx.outputs[0]? with
  | none => simp
  | some output => simp [runOpcodes_verify_iff]

theorem checks_settlement (htx : Admissible env.populated)
    (hpaired : env.populated.entries.length = env.populated.tx.inputs.length) {maxFee : Nat}
    (hfee : maxFee ≤ i64Max) (payee : ScriptPublicKey) :
    Checks env (settlementOps maxFee payee) (Settles env.populated maxFee payee) := by
  have hall := (checks_inputCount htx).append ((checks_outputCount htx).append
    ((checks_aboveFee htx hfee).append ((checks_payout htx hfee).append (checks_payee payee))))
  intro stack stack'
  rw [settlementOps, hall stack stack']
  apply and_congr_left'
  constructor
  · intro h
    obtain ⟨hin, hout, ⟨entry, hentry, hlt⟩, ⟨output, entry', houtput, hentry', hle⟩,
      ⟨output', houtput', hpayee⟩⟩ := h
    obtain ⟨input, hinput⟩ := List.length_eq_one_iff.mp hin
    obtain ⟨entry₀, hentries⟩ := List.length_eq_one_iff.mp (hpaired.trans hin)
    obtain ⟨output₀, houtputs⟩ := List.length_eq_one_iff.mp hout
    rw [hentries] at hentry hentry'
    rw [houtputs] at houtput houtput'
    simp only [List.getElem?_cons_zero, Option.some.injEq] at hentry hentry' houtput houtput'
    subst hentry hentry' houtput houtput'
    exact ⟨input, entry₀, output₀, hinput, hentries, houtputs, hlt, by omega, hpayee⟩
  · intro h
    obtain ⟨input, entry, output, hinput, hentries, houtputs, hlt, hle, hpayee⟩ := h
    have hentry : env.populated.entries[0]? = some entry := by rw [hentries]; rfl
    have houtput : env.populated.tx.outputs[0]? = some output := by rw [houtputs]; rfl
    refine ⟨by rw [hinput]; rfl, by rw [houtputs]; rfl, ⟨entry, hentry, hlt⟩,
      ⟨output, entry, houtput, hentry, by omega⟩, ⟨output, houtput, hpayee⟩⟩

/-- Both signatures and both keys, the second of each on top. -/
theorem run_bothSigned {buyer seller : Bytes} (s1 s2 : Bytes) (stack stack' : Stack) :
    runOpcodes env [.push (encode 2), .push buyer, .push seller, .push (encode 2), .checkMultiSig,
        .verify] (s2 :: s1 :: stack) = some stack' ↔
      (env.checkSig s1 buyer = true ∧ env.checkSig s2 seller = true) ∧ stack' = stack := by
  have hmatch : Library.matchInOrder env.checkSig [s1, s2] [buyer, seller] =
      (env.checkSig s1 buyer && env.checkSig s2 seller) := by
    simp only [Library.matchInOrder]
    cases env.checkSig s1 buyer <;> cases env.checkSig s2 seller <;> simp
  have hexec : execCheckMultiSig env (encode 2 :: seller :: buyer :: encode 2 :: s2 :: s1 :: stack) =
      some (boolBytes (Library.matchInOrder env.checkSig [s1, s2] [buyer, seller]) :: stack) :=
    @execCheckMultiSig_append env [buyer, seller] [s1, s2] (by simp [i64Max]) (by simp) stack
  have hrun : runOpcodes env [.push (encode 2), .push buyer, .push seller, .push (encode 2),
      .checkMultiSig, .verify] (s2 :: s1 :: stack) =
      runOpcodes env [.verify]
        (boolBytes (env.checkSig s1 buyer && env.checkSig s2 seller) :: stack) := by
    change (execCheckMultiSig env
      (encode 2 :: seller :: buyer :: encode 2 :: s2 :: s1 :: stack)).bind
        (runOpcodes env [.verify]) = _
    rw [hexec, Option.bind_some, hmatch]
  rw [hrun, runOpcodes_verify_iff, Bool.and_eq_true]

theorem run_buyerSigned {buyer : Bytes} (s : Bytes) (stack stack' : Stack) :
    runOpcodes env [.push buyer, .checkSig, .verify] (s :: stack) = some stack' ↔
      env.checkSig s buyer = true ∧ stack' = stack := by
  have hrun : runOpcodes env [.push buyer, .checkSig, .verify] (s :: stack) =
      runOpcodes env [.verify] (boolBytes (env.checkSig s buyer) :: stack) := rfl
  rw [hrun, runOpcodes_verify_iff]

/-- The transaction's lock is a DAA score from the deadline on, and its input is not final. -/
def RefundDue (env : ScriptEnv) (deadline : Nat) : Prop :=
  env.populated.tx.lockTime < lockTimeThreshold ∧ deadline ≤ env.populated.tx.lockTime ∧
    ∃ input, env.populated.tx.inputs[env.inputIndex]? = some input ∧
      input.sequence ≠ maxTxInSequenceNum

theorem lockReached_iff {deadline : Nat} (hdeadline : deadline < lockTimeThreshold) :
    lockReached env deadline = true ↔ RefundDue env deadline := by
  have hbound : (deadline : Int) < (lockTimeThreshold : Int) := by exact_mod_cast hdeadline
  simp only [lockReached, RefundDue, Bool.and_eq_true, beq_iff_eq, decide_eq_decide,
    decide_eq_true_eq, hbound, iff_true, Nat.cast_le, and_assoc, Option.any_eq_true]

theorem checks_deadline {deadline : Nat} (hdeadline : deadline < lockTimeThreshold) :
    Checks env [.push (encode deadline), .checkLockTimeVerify, .push (boolBytes true), .verify]
      (RefundDue env deadline) := by
  intro stack stack'
  have hfits : NumFits deadline := by
    unfold NumFits
    unfold lockTimeThreshold at hdeadline
    omega
  have hreading : lockReading (deadline : Int) = deadline := if_pos (Int.natCast_nonneg deadline)
  have hlock : runOpcodes env [.checkLockTimeVerify, .push (boolBytes true)]
      (encode deadline :: stack) =
        if lockReached env (lockReading deadline) then some (boolBytes true :: stack) else none :=
    runOpcodes_lock hfits stack
  rw [hreading] at hlock
  have hrun : runOpcodes env [.push (encode deadline), .checkLockTimeVerify,
      .push (boolBytes true), .verify] stack =
      (runOpcodes env [.checkLockTimeVerify, .push (boolBytes true)]
        (encode deadline :: stack)).bind (runOpcodes env [.verify]) := by
    change runOpcodes env ([.checkLockTimeVerify, .push (boolBytes true)] ++ [.verify])
      (encode deadline :: stack) = _
    rw [runOpcodes, run_append]
  rw [hrun, hlock, ← lockReached_iff hdeadline]
  cases lockReached env deadline with
  | false => simp
  | true =>
    rw [if_pos rfl, Option.bind_some, runOpcodes_verify_iff]

end

section

variable {Group : Type} {lib : NativeLib Group}

/-- The binder on kinds; spans play no part in it. -/
def bindKindsFrom (lib : NativeLib Group) (escrow : BuyerSellerEscrow) :
    Option InstructionKind → List InstructionKind → Except EscrowError (List InstructionKind)
  | _, [] => .ok []
  | previous, kind :: rest => do
      let bound ← escrow.bindKind lib previous kind
      let others ← bindKindsFrom lib escrow (some kind) rest
      pure (bound ++ others)

theorem kinds_bindFrom {escrow : BuyerSellerEscrow} {previous : Option InstructionKind}
    {code out : List Instruction} (h : escrow.bindFrom lib previous code = .ok out) :
    bindKindsFrom lib escrow previous (kinds code) = .ok (kinds out) := by
  induction code generalizing previous out with
  | nil =>
    simp only [BuyerSellerEscrow.bindFrom, Except.ok.injEq] at h
    rw [← h]
    rfl
  | cons instruction rest ih =>
    obtain ⟨bound, hbound, h⟩ := bind_eq_ok.mp h
    obtain ⟨others, hothers, h⟩ := bind_eq_ok.mp h
    rw [pure_eq_ok] at h
    have hkinds : kinds (bound.map (Instruction.mk instruction.span)) = bound := by
      simp [kinds, Function.comp_def]
    change (do
      let bound ← escrow.bindKind lib previous instruction.kind
      let others ← bindKindsFrom lib escrow (some instruction.kind) (kinds rest)
      pure (bound ++ others)) = _
    rw [hbound, ih hothers, ← h, kinds_append, hkinds]
    rfl

/-- The script of the address that pays to a key. -/
def p2pk (lib : NativeLib Group) (key : Bytes) : ScriptPublicKey :=
  lib.payToAddressScript (keyAddress key)

def releaseOps (terms : EscrowTerms) (buyer seller : Bytes) (payee : ScriptPublicKey) :
    List Opcode :=
  [.push (encode 2), .push buyer, .push seller, .push (encode 2), .checkMultiSig, .verify] ++
    settlementOps terms.maxFeeSompi payee

def refundOps (terms : EscrowTerms) (buyer : Bytes) (payee : ScriptPublicKey) : List Opcode :=
  [.push buyer, .checkSig, .verify] ++
    ([.push (encode terms.refundDaaScore), .checkLockTimeVerify, .push (boolBytes true), .verify] ++
      settlementOps terms.maxFeeSompi payee)

/-- The opcodes of a path. -/
def BuyerSellerEscrow.pathOps (lib : NativeLib Group) (escrow : BuyerSellerEscrow) :
    EscrowPath → List Opcode
  | .release => releaseOps escrow.terms escrow.buyer escrow.seller (p2pk lib escrow.seller)
  | .refund => refundOps escrow.terms escrow.buyer (p2pk lib escrow.buyer)

theorem opcodes_release {escrow : BuyerSellerEscrow} (hbuyer : escrow.buyer.length = 32)
    (hseller : escrow.seller.length = 32) {out : List InstructionKind}
    (h : bindKindsFrom lib escrow none releaseKinds = .ok out) :
    out.flatMap opcodes =
      releaseOps escrow.terms escrow.buyer escrow.seller (p2pk lib escrow.seller) := by
  have hb : dataPush escrow.buyer = .push escrow.buyer := dataPush_of_length (by omega)
  have hs : dataPush escrow.seller = .push escrow.seller := dataPush_of_length (by omega)
  have hspk : dataPush (spkBytes (p2pk lib escrow.seller)) =
      .push (spkBytes (p2pk lib escrow.seller)) := dataPush_of_length (by simp [spkBytes])
  simp only [releaseKinds, settlementKinds, List.cons_append, List.nil_append, bindKindsFrom,
    BuyerSellerEscrow.bindKind, BuyerSellerEscrow.keyValue, Library.ok_bind, pure, Except.pure,
    Except.ok.injEq] at h
  rw [← h]
  simp [opcodes, pushOpcode, releaseOps, settlementOps, oneInputOps, oneOutputOps, aboveFeeOps,
    payoutOps, payeeOps, inputAmountOps, outputAmountOps, hb, hs]
  exact hspk

theorem opcodes_refund {escrow : BuyerSellerEscrow} (hbuyer : escrow.buyer.length = 32)
    {out : List InstructionKind}
    (h : bindKindsFrom lib escrow none refundKinds = .ok out) :
    out.flatMap opcodes = refundOps escrow.terms escrow.buyer (p2pk lib escrow.buyer) := by
  have hb : dataPush escrow.buyer = .push escrow.buyer := dataPush_of_length (by omega)
  have hspk : dataPush (spkBytes (p2pk lib escrow.buyer)) =
      .push (spkBytes (p2pk lib escrow.buyer)) := dataPush_of_length (by simp [spkBytes])
  simp only [refundKinds, settlementKinds, List.cons_append, List.nil_append, bindKindsFrom,
    BuyerSellerEscrow.bindKind, BuyerSellerEscrow.keyValue, Library.ok_bind, pure, Except.pure,
    Except.ok.injEq] at h
  rw [← h]
  simp [opcodes, pushOpcode, refundOps, settlementOps, oneInputOps, oneOutputOps, aboveFeeOps,
    payoutOps, payeeOps, inputAmountOps, outputAmountOps, hb]
  exact hspk

theorem codegenError_ok {α : Type} {x : Except CodegenError α} {a : α}
    (h : codegenError x = .ok a) : x = .ok a := by
  cases x with
  | ok b => exact congrArg Except.ok (Except.ok.inj h)
  | error error => cases h

theorem scriptError_ok {α : Type} {x : Except String α} {a : α}
    (h : scriptError x = .ok a) : x = .ok a := by
  cases x with
  | ok b => exact congrArg Except.ok (Except.ok.inj h)
  | error error => cases h

theorem parseKey_length {value : String} {key : Bytes} (h : parseKey lib value = .ok key) :
    key.length = 32 := by
  unfold parseKey at h
  split at h
  · split_ifs at h with hvalid
    rw [← Except.ok.inj h]
    exact hvalid.1
  · cases h

theorem dispatch_eq (hlib : lib.Lawful) {release refund script : Bytes}
    (h : BuyerSellerEscrow.dispatch lib release refund = .ok script) :
    script = [opIf] ++ release ++ [opElse] ++ refund ++ [opEndIf] := by
  have hbuilt := scriptError_ok h
  obtain ⟨s1, h1, hbuilt⟩ := bind_eq_ok.mp hbuilt
  obtain ⟨s2, h2, hbuilt⟩ := bind_eq_ok.mp hbuilt
  obtain ⟨s3, h3, hbuilt⟩ := bind_eq_ok.mp hbuilt
  obtain ⟨s4, h4, hbuilt⟩ := bind_eq_ok.mp hbuilt
  rw [hlib.addOp hbuilt, hlib.addOps h4, hlib.addOp h3, hlib.addOps h2, hlib.addOp h1]
  rfl

/-- The body of a path and the closing true value. -/
def closedOps (ops : List Opcode) : List (Branching Opcode) :=
  (ops ++ [Opcode.push (boolBytes true)]).map .plain

theorem branch_encodes {escrow : BuyerSellerEscrow} {spends : List ArtifactSpend} {name : String}
    {spend : ArtifactSpend} {ops : List Opcode} {code : Bytes}
    (hfind : spends.find? (fun spend => spend.name = name) = some spend)
    (hops : ∀ out, bindKindsFrom lib escrow none (kinds spend.instructions) = .ok out →
      out.flatMap opcodes = ops)
    (h : escrow.branch lib spends name = .ok code) :
    Encodes code (closedOps ops) := by
  unfold BuyerSellerEscrow.branch at h
  rw [hfind] at h
  obtain ⟨bound, hbound, hcompile⟩ := bind_eq_ok.mp h
  have hencodes := encodes_spendScript (codegenError_ok hcompile)
  rw [plainOpcodes, List.flatMap_append, hops _ (kinds_bindFrom hbound)] at hencodes
  simpa [closedOps, opcodes, pushOpcode] using hencodes

/-- What an accepted escrow is made of. -/
structure Accepted (lib : NativeLib Group) (escrow : BuyerSellerEscrow) : Prop where
  buyerLength : escrow.buyer.length = 32
  sellerLength : escrow.seller.length = 32
  buyerParsed : parseKey lib escrow.terms.buyerPublicKey = .ok escrow.buyer
  sellerParsed : parseKey lib escrow.terms.sellerPublicKey = .ok escrow.seller
  deadline : 0 < escrow.terms.refundDaaScore ∧ escrow.terms.refundDaaScore < lockTimeThreshold
  maxFee : 0 < escrow.terms.maxFeeSompi ∧ escrow.terms.maxFeeSompi ≤ i64Max
  scriptPublicKey : escrow.scriptPublicKey = lib.payToScriptHashScript escrow.redeemScript
  redeemScript : ∃ release refund,
    escrow.redeemScript = [opIf] ++ release ++ [opElse] ++ refund ++ [opEndIf] ∧
    Encodes release (closedOps (escrow.pathOps lib .release)) ∧
    Encodes refund (closedOps (escrow.pathOps lib .refund))

/-- The spends the compiled file offers to the binder. -/
theorem escrow_spends {artifact : CompiledArtifact}
    (h : compileFileForTarget lib.sha256 escrowSource escrowFile .tn10Toccata = .ok artifact) :
    ∃ release refund, artifact.contracts.head?.elim [] ArtifactContract.spends =
        [release, refund] ∧
      release.name = "release" ∧ kinds release.instructions = releaseKinds ∧
      refund.name = "refund" ∧ kinds refund.instructions = refundKinds := by
  obtain ⟨ir, hlower, hkinds⟩ := lower_escrow
  obtain ⟨ir', hlower', hcompile⟩ := lowerFile_of_compile h
  rw [hlower, Except.ok.injEq] at hlower'
  rw [← hlower'] at hcompile
  rw [contracts_of_compileToccata hcompile]
  obtain ⟨contract, hcontracts, hspends⟩ := List.map_eq_singleton_iff.mp hkinds
  obtain ⟨release, rest, hsplit, hrelease, hrest⟩ := List.map_eq_cons_iff.mp hspends
  obtain ⟨refund, hrefunds, hrefund⟩ := List.map_eq_singleton_iff.mp hrest
  rw [Prod.mk.injEq] at hrelease hrefund
  refine ⟨artifactSpend release, artifactSpend refund, ?_, hrelease.1, hrelease.2, hrefund.1,
    hrefund.2⟩
  rw [hcontracts]
  change contract.spends.map artifactSpend = _
  rw [hsplit, hrefunds]
  rfl

theorem accepted_of_new (hlib : lib.Lawful) {terms : EscrowTerms} {escrow : BuyerSellerEscrow}
    (h : BuyerSellerEscrow.new lib terms = .ok escrow) :
    escrow.terms = terms ∧ Accepted lib escrow := by
  obtain ⟨buyer, hbuyer, h⟩ := bind_eq_ok.mp h
  obtain ⟨seller, hseller, h⟩ := bind_eq_ok.mp h
  split_ifs at h with hsame hdeadline hfee
  obtain ⟨artifact, hartifact, h⟩ := bind_eq_ok.mp h
  obtain ⟨release, hrelease, h⟩ := bind_eq_ok.mp h
  obtain ⟨refund, hrefund, h⟩ := bind_eq_ok.mp h
  obtain ⟨redeem, hredeem, h⟩ := bind_eq_ok.mp h
  obtain ⟨address, haddress, h⟩ := bind_eq_ok.mp h
  rw [pure_eq_ok] at h
  obtain ⟨first, second, hspends, hname, hkinds, hname', hkinds'⟩ :=
    escrow_spends (codegenError_ok hartifact)
  rw [hspends] at hrelease hrefund
  have hbuyer' := parseKey_length hbuyer
  have hseller' := parseKey_length hseller
  have hreleaseCode : Encodes release
      (closedOps (releaseOps terms buyer seller (p2pk lib seller))) := branch_encodes
    (by simp [hname]) (fun out hout => opcodes_release hbuyer' hseller' (hkinds ▸ hout)) hrelease
  have hrefundCode : Encodes refund (closedOps (refundOps terms buyer (p2pk lib buyer))) :=
    branch_encodes (by simp [hname, hname']) (fun out hout => opcodes_refund hbuyer' (hkinds' ▸ hout)) hrefund
  have hscript := dispatch_eq hlib hredeem
  obtain ⟨hpos, hbelow⟩ := not_or.mp hdeadline
  obtain ⟨hfeePos, hfeeMax⟩ := not_or.mp hfee
  have hfields : escrow.terms = terms ∧ escrow.buyer = buyer ∧ escrow.seller = seller ∧
      escrow.redeemScript = redeem ∧
      escrow.scriptPublicKey = lib.payToScriptHashScript redeem := by
    rw [← h]
    exact ⟨rfl, rfl, rfl, rfl, rfl⟩
  clear h
  obtain ⟨hterms, hbuyerKey, hsellerKey, hredeemScript, hspk⟩ := hfields
  refine ⟨hterms, ?_⟩
  constructor
  · rw [hbuyerKey]
    exact hbuyer'
  · rw [hsellerKey]
    exact hseller'
  · rw [hterms, hbuyerKey]
    exact hbuyer
  · rw [hterms, hsellerKey]
    exact hseller
  · rw [hterms]
    exact ⟨Nat.pos_of_ne_zero hpos, Nat.lt_of_not_le hbelow⟩
  · rw [hterms]
    exact ⟨Nat.pos_of_ne_zero hfeePos, Nat.le_of_not_lt hfeeMax⟩
  · rw [hspk, hredeemScript]
  · refine ⟨release, refund, ?_, ?_, ?_⟩
    · rw [hredeemScript]
      exact hscript
    · rw [BuyerSellerEscrow.pathOps, hterms, hbuyerKey, hsellerKey]
      exact hreleaseCode
    · rw [BuyerSellerEscrow.pathOps, hterms, hbuyerKey]
      exact hrefundCode

theorem encodes_dispatch {release refund : Bytes} {yes no : List Opcode}
    (hrelease : Encodes release (closedOps yes)) (hrefund : Encodes refund (closedOps no)) :
    Encodes ([opIf] ++ release ++ [opElse] ++ refund ++ [opEndIf])
      ([.cond] ++ closedOps yes ++ [.otherwise] ++ closedOps no ++ [.close]) := by
  have hif : Encodes [opIf] [.cond] := Encodes.single fun _ => rfl
  have helse : Encodes [opElse] [.otherwise] := Encodes.single fun _ => rfl
  have hend : Encodes [opEndIf] [.close] := Encodes.single fun _ => rfl
  exact (((hif.append hrelease).append helse).append hrefund).append hend

/-- A dispatcher over two bodies runs the one its flag chooses. -/
theorem runScript_dispatch {release refund : Bytes} {yes no : List Opcode}
    (hrelease : Encodes release (closedOps yes)) (hrefund : Encodes refund (closedOps no))
    (env : ScriptEnv) (flag : Bool) (stack : Stack) :
    runScript env ([opIf] ++ release ++ [opElse] ++ refund ++ [opEndIf])
        (boolBytes flag :: stack) =
      runOpcodes env ((if flag then yes else no) ++ [.push (boolBytes true)]) stack := by
  have hall := encodes_dispatch hrelease hrefund
  have hshape : [Branching.cond] ++ closedOps yes ++ [.otherwise] ++ closedOps no ++ [.close] =
      .cond :: ((yes ++ [Opcode.push (boolBytes true)]).map .plain ++
        .otherwise :: ((no ++ [Opcode.push (boolBytes true)]).map .plain ++ [.close])) := by
    simp [closedOps]
  have htest : popCondition (boolBytes flag :: stack) = some (flag, stack) := by
    cases flag <;> rfl
  rw [hall.runScript_eq, runOps, hshape, runBranching_cond, htest]
  cases flag <;> rfl

/-- The flag that chooses a path. -/
def pathFlag : EscrowPath → Bool
  | .release => true
  | .refund => false

/-- The redeem script runs the path its flag chooses. -/
theorem runScript_redeem {escrow : BuyerSellerEscrow} (h : Accepted lib escrow) (env : ScriptEnv)
    (path : EscrowPath) (stack : Stack) :
    runScript env escrow.redeemScript (boolBytes (pathFlag path) :: stack) =
      runOpcodes env (escrow.pathOps lib path ++ [.push (boolBytes true)]) stack := by
  obtain ⟨release, refund, hscript, hrelease, hrefund⟩ := h.redeemScript
  have hpath : escrow.pathOps lib path =
      if pathFlag path then escrow.pathOps lib .release else escrow.pathOps lib .refund := by
    cases path
    · exact (if_pos rfl).symm
    · exact (if_neg Bool.false_ne_true).symm
  rw [hscript, hpath]
  exact runScript_dispatch hrelease hrefund env (pathFlag path) stack

/-- Acceptance of a path whose first opcodes check the signatures on the stack. -/
theorem accepts_signed {env : ScriptEnv} {auth ops : List Opcode} {signed condition : Prop}
    {signatures : Stack}
    (hauth : ∀ stack', runOpcodes env auth signatures = some stack' ↔ signed ∧ stack' = [])
    (hchecks : Checks env ops condition) :
    accepts (runOpcodes env (auth ++ ops ++ [.push (boolBytes true)]) signatures) = true ↔
      signed ∧ condition := by
  rw [List.append_assoc, runOpcodes, run_append]
  change accepts ((runOpcodes env auth signatures).bind
    (runOpcodes env (ops ++ [.push (boolBytes true)]))) = true ↔ _
  cases hrun : runOpcodes env auth signatures with
  | none =>
    have hunsigned : ¬ signed := by
      intro hsigned
      have hsome := (hauth []).mpr ⟨hsigned, rfl⟩
      rw [hrun] at hsome
      cases hsome
    simp [accepts, hunsigned]
  | some stack =>
    obtain ⟨hsigned, hstack⟩ := (hauth stack).mp hrun
    rw [Option.bind_some, hstack, hchecks.accepts, and_iff_right hsigned]

theorem release_accepts_iff {escrow : BuyerSellerEscrow} (h : Accepted lib escrow)
    {env : ScriptEnv} (htx : Admissible env.populated)
    (hpaired : env.populated.entries.length = env.populated.tx.inputs.length) (s1 s2 : Bytes) :
    accepts (runScript env escrow.redeemScript [[1], s2, s1]) = true ↔
      (env.checkSig s1 escrow.buyer = true ∧ env.checkSig s2 escrow.seller = true) ∧
        Settles env.populated escrow.terms.maxFeeSompi (p2pk lib escrow.seller) := by
  have hflag : boolBytes (pathFlag .release) = [1] := rfl
  rw [← hflag, runScript_redeem h, BuyerSellerEscrow.pathOps, releaseOps]
  exact accepts_signed (run_bothSigned s1 s2 []) (checks_settlement htx hpaired h.maxFee.2 _)

theorem refund_accepts_iff {escrow : BuyerSellerEscrow} (h : Accepted lib escrow)
    {env : ScriptEnv} (htx : Admissible env.populated)
    (hpaired : env.populated.entries.length = env.populated.tx.inputs.length) (s : Bytes) :
    accepts (runScript env escrow.redeemScript [[], s]) = true ↔
      env.checkSig s escrow.buyer = true ∧ RefundDue env escrow.terms.refundDaaScore ∧
        Settles env.populated escrow.terms.maxFeeSompi (p2pk lib escrow.buyer) := by
  have hflag : boolBytes (pathFlag .refund) = [] := rfl
  rw [← hflag, runScript_redeem h, BuyerSellerEscrow.pathOps, refundOps]
  have hchecks := (checks_deadline h.deadline.2).append
    (checks_settlement htx hpaired h.maxFee.2 (p2pk lib escrow.buyer))
  exact accepts_signed (run_buyerSigned s []) hchecks

/-- The compiled escrow enforces its terms: a release needs both signatures and pays the seller,
a refund needs the buyer's, the deadline, and pays the buyer. -/
theorem escrow_enforces_agreement (hlib : lib.Lawful) {terms : EscrowTerms}
    {escrow : BuyerSellerEscrow} (hnew : BuyerSellerEscrow.new lib terms = .ok escrow)
    (env : ScriptEnv) (htx : Admissible env.populated)
    (hpaired : env.populated.entries.length = env.populated.tx.inputs.length)
    (s1 s2 s : Bytes) :
    (accepts (runScript env escrow.redeemScript [[1], s2, s1]) = true ↔
      (env.checkSig s1 escrow.buyer = true ∧ env.checkSig s2 escrow.seller = true) ∧
        Settles env.populated terms.maxFeeSompi (p2pk lib escrow.seller)) ∧
    (accepts (runScript env escrow.redeemScript [[], s]) = true ↔
      env.checkSig s escrow.buyer = true ∧ RefundDue env terms.refundDaaScore ∧
        Settles env.populated terms.maxFeeSompi (p2pk lib escrow.buyer)) := by
  obtain ⟨hterms, haccepted⟩ := accepted_of_new hlib hnew
  rw [← hterms]
  exact ⟨release_accepts_iff haccepted htx hpaired s1 s2,
    refund_accepts_iff haccepted htx hpaired s⟩

end

def buyerKey : Bytes :=
  [152, 156, 11, 118, 203, 86, 57, 113, 253, 201, 190, 243, 30, 192, 108, 53, 96, 243, 36, 157, 110,
    233, 229, 216, 60, 87, 98, 85, 150, 224, 95, 111]

def sellerKey : Bytes :=
  [249, 145, 249, 68, 209, 225, 149, 74, 127, 200, 185, 191, 98, 224, 215, 143, 1, 95, 76, 7, 118,
    45, 80, 94, 32, 230, 196, 82, 96, 163, 102, 27]

/-- The hash of the redeem script for the deadline 128, and of the one for 129. -/
def redeemHash : Bytes :=
  [104, 83, 42, 151, 38, 101, 42, 55, 236, 84, 122, 58, 81, 249, 236, 167, 7, 129, 205, 10, 133,
    214, 88, 129, 52, 178, 28, 60, 58, 97, 42, 50]

def laterRedeemHash : Bytes :=
  [79, 3, 222, 127, 251, 204, 61, 246, 105, 154, 156, 98, 27, 203, 222, 25, 91, 211, 216, 208, 67,
    60, 220, 50, 199, 81, 3, 230, 130, 135, 1, 246]

/-- The minimal push of some data. -/
def canonicalPush (data : Bytes) : Except String Bytes :=
  match data with
  | [byte] =>
      if byte = 0x81 then .ok [0x4f]
      else if 1 ≤ byte.toNat ∧ byte.toNat ≤ 16 then .ok [UInt8.ofNat (0x50 + byte.toNat)]
      else .ok [1, byte]
  | data =>
      if data.length ≤ 75 then .ok (UInt8.ofNat data.length :: data)
      else if data.length ≤ 255 then .ok (opPushData1 :: UInt8.ofNat data.length :: data)
      else .error "element exceeds the size limit"

def smallNumberPush (n : Int) : Except String Bytes :=
  if n = 0 then .ok [opFalse] else if n = 1 then .ok [op1] else .error "not a flag"

/-- What the crates answer for the keys and the script below. -/
def testnetLib : NativeLib Unit where
  sha256 := fun _ => [134, 140, 115, 13, 81, 221, 3, 35, 146, 108, 65, 70, 109, 40, 185, 122, 20, 81,
    133, 83, 218, 203, 252, 192, 39, 134, 22, 51, 89, 242, 60, 112]
  hexDecode := fun text =>
    if text = "989c0b76cb563971fdc9bef31ec06c3560f3249d6ee9e5d83c57625596e05f6f" then some buyerKey
    else if text = "f991f944d1e1954a7fc8b9bf62e0d78f015f4c07762d505e20e6c45260a3661b" then
      some sellerKey
    else none
  hexEncode := fun bytes => String.join (bytes.map fun byte =>
    String.ofList [Nat.digitChar (byte.toNat / 16), Nat.digitChar (byte.toNat % 16)])
  isXOnlyPublicKey := fun key => key = buyerKey || key = sellerKey
  addressText := fun address => toString (repr address)
  payToAddressScript := fun address => ⟨0, [32] ++ address.payload ++ [opCheckSig]⟩
  payToScriptHashScript := fun redeem =>
    -- the two scripts differ in the byte of the deadline
    ⟨0, [opBlake2b, 32] ++ (if redeem[175]? = some 0x81 then laterRedeemHash else redeemHash) ++
      [opEqual]⟩
  extractScriptPubKeyAddress := fun spk network =>
    .ok ⟨network, .scriptHash, (spk.script.drop 2).take 32⟩
  addOp := fun script op => .ok (script ++ [op])
  addOps := fun script ops => .ok (script ++ ops)
  addData := fun script data => (script ++ ·) <$> canonicalPush data
  addI64 := fun script n => (script ++ ·) <$> smallNumberPush n
  populateGenesisCovenants := fun _ tx => .ok tx
  covenantsContext := fun _ => .ok ()
  contextualStorageMass := fun _ => some 0
  signedMass := fun tx _ => tx.outputs.length

theorem encodes_smallNumber {n : Int} {code : Bytes} (h : smallNumberPush n = .ok code) :
    Encodes code [.plain (.push (encode n))] := by
  unfold smallNumberPush at h
  split_ifs at h with hzero hone
  · rw [Except.ok.injEq] at h
    rw [← h, hzero]
    exact Encodes.single fun _ => rfl
  · rw [Except.ok.injEq] at h
    rw [← h, hone]
    exact Encodes.single fun _ => rfl

theorem encodes_byteOpcode {byte : UInt8} (h : 1 ≤ byte.toNat ∧ byte.toNat ≤ 16) :
    Encodes [UInt8.ofNat (0x50 + byte.toNat)] [.plain (.push [byte])] := by
  have hbyte : byte = UInt8.ofNat byte.toNat := UInt8.ofNat_toNat.symm
  obtain ⟨hlow, hhigh⟩ := h
  rw [hbyte]
  generalize byte.toNat = n at hlow hhigh
  apply Encodes.single
  intro rest
  interval_cases n <;> rfl

theorem encodes_canonicalPush {data code : Bytes} (h : canonicalPush data = .ok code) :
    Encodes code [.plain (.push data)] := by
  have long (hdata : data.length ≠ 1) (hcode : encodeData data ⟨0, 0⟩ = .ok code) :
      Encodes code [.plain (.push data)] := by
    have hpush : dataPush data = .push data := by
      cases data with
      | nil => rfl
      | cons first rest =>
        cases rest with
        | nil => exact absurd rfl hdata
        | cons second rest => exact dataPush_of_length (by simp)
    rw [← hpush]
    exact encodes_data hcode
  unfold canonicalPush at h
  split at h
  · rename_i byte
    split_ifs at h with hneg hsmall
    · rw [← Except.ok.inj h, hneg]
      exact Encodes.single fun _ => rfl
    · rw [← Except.ok.inj h]
      exact encodes_byteOpcode hsmall
    · have hpush : dataPush [byte] = .push [byte] := by
        rw [dataPush, if_neg]
        simp only [hasShorterPush, Bool.or_eq_true, Bool.and_eq_true, decide_eq_true_eq, beq_iff_eq]
        tauto
      have hcode : encodeData [byte] ⟨0, 0⟩ = .ok code := by
        rw [← Except.ok.inj h]
        rfl
      rw [← hpush]
      exact encodes_data hcode
  · rename_i data' hdata
    split_ifs at h with hshort hone
    · apply long
      · intro hlen
        obtain ⟨byte, hbyte⟩ := List.length_eq_one_iff.mp hlen
        exact hdata byte hbyte
      · rw [encodeData, if_pos hshort]
        exact congrArg Except.ok (Except.ok.inj h)
    · apply long (by omega)
      rw [encodeData, if_neg hshort, if_pos hone]
      exact congrArg Except.ok (Except.ok.inj h)

theorem testnetLib_lawful : testnetLib.Lawful := by
  constructor
  · intro script op out h
    exact (Except.ok.inj h).symm
  · intro script ops out h
    exact (Except.ok.inj h).symm
  · intro script data out h
    obtain ⟨code, hcode, hout⟩ := Library.map_eq_ok.mp h
    exact ⟨code, hout.symm, encodes_canonicalPush hcode⟩
  · intro script n out h
    obtain ⟨code, hcode, hout⟩ := Library.map_eq_ok.mp h
    exact ⟨code, hout.symm, encodes_smallNumber hcode⟩
  · intro groups tx tx' h
    rw [← Except.ok.inj h]
    exact ⟨rfl, rfl, rfl, rfl, rfl⟩

def sampleTerms (refundDaaScore : Nat) : EscrowTerms where
  buyerPublicKey := "989c0b76cb563971fdc9bef31ec06c3560f3249d6ee9e5d83c57625596e05f6f"
  sellerPublicKey := "f991f944d1e1954a7fc8b9bf62e0d78f015f4c07762d505e20e6c45260a3661b"
  refundDaaScore := refundDaaScore
  maxFeeSompi := 128

theorem new_sampleTerms : ∃ escrow, BuyerSellerEscrow.new testnetLib (sampleTerms 128) = .ok escrow ∧
    (escrow.buyer, escrow.seller) = (buyerKey, sellerKey) := by
  apply Library.toOption_map_eq_some
  rw [BuyerSellerEscrow.new, compileFileForTarget, lowerFile_of_lex lex_escrow]
  decide +kernel

/-- One input of 1000 and one output of 900 to `payee`, long after the deadline; a signature is
valid under the key it repeats. -/
def settlingEnv (payee : ScriptPublicKey) : ScriptEnv where
  populated := ⟨⟨1, [⟨⟨[], 0⟩, [], 0, 1⟩], [⟨900, payee, none⟩], 1000, 0⟩,
    [⟨1000, testnetLib.payToScriptHashScript [], 1, false, none⟩]⟩
  inputIndex := 0
  checkSig := fun signature key => signature = key
  sha256 := id
  blake2b := id

theorem settles_settlingEnv (payee : ScriptPublicKey) :
    Settles (settlingEnv payee).populated 128 payee :=
  ⟨_, _, _, rfl, rfl, rfl, by simp, by simp, rfl⟩

theorem escrow_enforces_agreement_settling :
    ∃ escrow, BuyerSellerEscrow.new testnetLib (sampleTerms 128) = .ok escrow ∧
      accepts (runScript (settlingEnv (p2pk testnetLib sellerKey)) escrow.redeemScript
        [[1], sellerKey, buyerKey]) = true ∧
      accepts (runScript (settlingEnv (p2pk testnetLib sellerKey)) escrow.redeemScript
        [[], sellerKey]) = false := by
  obtain ⟨escrow, hnew, hkeys⟩ := new_sampleTerms
  rw [Prod.mk.injEq] at hkeys
  have htx : Admissible (settlingEnv (p2pk testnetLib sellerKey)).populated := by
    constructor <;> simp [settlingEnv, i64Max]
  obtain ⟨hrelease, hrefund⟩ := escrow_enforces_agreement testnetLib_lawful hnew
    (settlingEnv (p2pk testnetLib sellerKey)) htx rfl buyerKey sellerKey sellerKey
  rw [hkeys.1, hkeys.2] at hrelease
  rw [hkeys.1] at hrefund
  refine ⟨escrow, hnew, hrelease.mpr ⟨by decide, settles_settlingEnv _⟩, ?_⟩
  rw [Bool.eq_false_iff]
  intro haccepts
  have hsigned := (hrefund.mp haccepts).1
  exact absurd hsigned (by decide)

section

variable {Group : Type} {lib : NativeLib Group}

/-- The instructions of an accepted escrow's redeem script. -/
theorem encodes_redeem {escrow : BuyerSellerEscrow} (h : Accepted lib escrow) :
    Encodes escrow.redeemScript ([.cond] ++ closedOps (escrow.pathOps lib .release) ++
      [.otherwise] ++ closedOps (escrow.pathOps lib .refund) ++ [.close]) := by
  obtain ⟨release, refund, hscript, hrelease, hrefund⟩ := h.redeemScript
  rw [hscript]
  exact encodes_dispatch hrelease hrefund

/-- The script that locks an escrow fixes every term of it. -/
theorem redeemScript_commits (hlib : lib.Lawful) {terms terms' : EscrowTerms}
    {escrow escrow' : BuyerSellerEscrow}
    (hnew : BuyerSellerEscrow.new lib terms = .ok escrow)
    (hnew' : BuyerSellerEscrow.new lib terms' = .ok escrow')
    (hdiffer : parseKey lib terms.buyerPublicKey ≠ parseKey lib terms'.buyerPublicKey ∨
      parseKey lib terms.sellerPublicKey ≠ parseKey lib terms'.sellerPublicKey ∨
      terms.refundDaaScore ≠ terms'.refundDaaScore ∨ terms.maxFeeSompi ≠ terms'.maxFeeSompi) :
    escrow.redeemScript ≠ escrow'.redeemScript := by
  obtain ⟨hterms, h⟩ := accepted_of_new hlib hnew
  obtain ⟨hterms', h'⟩ := accepted_of_new hlib hnew'
  intro hsame
  have hops := (encodes_redeem h).decodeAll_eq
  rw [hsame, (encodes_redeem h').decodeAll_eq, Option.some.injEq] at hops
  simp only [closedOps, BuyerSellerEscrow.pathOps, releaseOps, refundOps, settlementOps,
    oneInputOps, oneOutputOps, aboveFeeOps, payoutOps, payeeOps, inputAmountOps, outputAmountOps,
    List.cons_append, List.nil_append, List.map_cons, List.map_nil, List.cons.injEq,
    Branching.plain.injEq, Opcode.push.injEq, encode_injective.eq_iff, Nat.cast_inj, true_and,
    and_true] at hops
  obtain ⟨hbuyer, hseller, hfee, _, _, _, hdeadline, _⟩ := hops
  have hbuyerKey : parseKey lib terms.buyerPublicKey = parseKey lib terms'.buyerPublicKey := by
    rw [← hterms, ← hterms', h.buyerParsed, h'.buyerParsed, hbuyer]
  have hsellerKey : parseKey lib terms.sellerPublicKey = parseKey lib terms'.sellerPublicKey := by
    rw [← hterms, ← hterms', h.sellerParsed, h'.sellerParsed, hseller]
  rw [hterms, hterms'] at hfee hdeadline
  rcases hdiffer with hne | hne | hne | hne
  · exact hne hbuyerKey
  · exact hne hsellerKey
  · exact hne hdeadline.symm
  · exact hne hfee.symm

end

theorem new_later : ∃ escrow, BuyerSellerEscrow.new testnetLib (sampleTerms 129) = .ok escrow := by
  obtain ⟨escrow, hnew, _⟩ : ∃ escrow,
      BuyerSellerEscrow.new testnetLib (sampleTerms 129) = .ok escrow ∧
        (escrow.buyer, escrow.seller) = (buyerKey, sellerKey) := by
    apply Library.toOption_map_eq_some
    rw [BuyerSellerEscrow.new, compileFileForTarget, lowerFile_of_lex lex_escrow]
    decide +kernel
  exact ⟨escrow, hnew⟩

theorem redeemScript_commits_deadline : ∃ escrow escrow',
    BuyerSellerEscrow.new testnetLib (sampleTerms 128) = .ok escrow ∧
    BuyerSellerEscrow.new testnetLib (sampleTerms 129) = .ok escrow' ∧
    escrow.redeemScript ≠ escrow'.redeemScript := by
  obtain ⟨escrow, hnew, _⟩ := new_sampleTerms
  obtain ⟨escrow', hnew'⟩ := new_later
  refine ⟨escrow, escrow', hnew, hnew', redeemScript_commits testnetLib_lawful hnew hnew' ?_⟩
  exact Or.inr (Or.inr (Or.inl (by decide)))

end KaspaScript
