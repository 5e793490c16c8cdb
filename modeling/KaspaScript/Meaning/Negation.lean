import KaspaScript.Meaning.Require
import KaspaScript.Semantic.Accepted

namespace KaspaScript

open Library (joinAll joinAll_append run_append run_singleton runBranching_plain)
open Library.ScriptNum (decode decode_inj isMinimal)

/-- The engine reads these bytes as a number: at most eight, and minimally encoded. -/
def IsScriptNumber (bytes : Bytes) : Prop := bytes.length ≤ 8 ∧ isMinimal bytes = true

instance (bytes : Bytes) : Decidable (IsScriptNumber bytes) :=
  inferInstanceAs (Decidable (_ ∧ _))

theorem readNum_eq_some {bytes : Bytes} {n : Int} :
    readNum bytes = some n ↔ IsScriptNumber bytes ∧ decode bytes = n := by
  simp [readNum, IsScriptNumber]

/-- A parameter's symbol becomes a push of its value. -/
def assignParam (value : String → Value) : InstructionKind → InstructionKind
  | .push (.symbol name) => .push (value name)
  | kind => kind

def assignParams (value : String → Value) (code : List Instruction) : List Instruction :=
  code.map fun instruction => ⟨instruction.span, assignParam value instruction.kind⟩

/-- The bytes lowered for an expression under an assignment of the parameters. -/
def Bytecode (file : String) (value : String → Value) (e : Expr) (code : Bytes) : Prop :=
  ∃ instructions, lowerExpr file e = .ok instructions ∧
    compileInstructionSequence (assignParams value instructions) = .ok code

/-- Both comparisons evaluate, and one leaves true exactly when the other leaves false. -/
def NotEqualNegates (file : String) (value : String → Value) (env : ScriptEnv) (a b : Expr)
    (span : Span) (stack rest : Stack) : Prop :=
  ∃ equalCode notEqualCode equal notEqual,
    Bytecode file value (.binary a .equal b span) equalCode ∧
    Bytecode file value (.binary a .notEqual b span) notEqualCode ∧
    runScript env equalCode stack = some (equal :: rest) ∧
    runScript env notEqualCode stack = some (notEqual :: rest) ∧
    (isTrue notEqual = true ↔ isTrue equal = false)

section

variable {file : String} {value : String → Value} {env : ScriptEnv} {a b : Expr}
  {codeA codeB code : Bytes} {stack rest : Stack} {x y : Bytes}

/-- The operators share their operands' bytes; only the last byte is their own. -/
theorem bytecode_binary {op : BinaryOp} {byte : UInt8} (span : Span) (hop : op ≠ .greaterEqual)
    (hkind : assignParam value (binaryKind op) = binaryKind op)
    (hbyte : ∀ span, encodeInstruction ⟨span, binaryKind op⟩ = .ok [byte])
    (ha : Bytecode file value a codeA) (hb : Bytecode file value b codeB) :
    Bytecode file value (.binary a op b span) code ↔ code = codeA ++ codeB ++ [byte] := by
  obtain ⟨la, hla, hcodeA⟩ := ha
  obtain ⟨lb, hlb, hcodeB⟩ := hb
  have hlower : lowerExpr file (.binary a op b span) =
      .ok (la ++ lb ++ emit span (binaryKind op)) := by
    simp only [lowerExpr, lowerBinary, lowerSpecialBinary, hop, false_and, if_false, hla, hlb]
    rfl
  have hlast : compileInstructionSequence (assignParams value (emit span (binaryKind op))) =
      .ok [byte] := by
    simp only [compileInstructionSequence, assignParams, emit, List.map_cons, List.map_nil, hkind,
      joinAll, hbyte]
    rfl
  have hcode : compileInstructionSequence
      (assignParams value (la ++ lb ++ emit span (binaryKind op))) =
      .ok (codeA ++ codeB ++ [byte]) := by
    simp only [compileInstructionSequence, assignParams, List.map_append] at hcodeA hcodeB hlast ⊢
    apply joinAll_append.mpr
    exact ⟨_, _, joinAll_append.mpr ⟨_, _, hcodeA, hcodeB, rfl⟩, hlast, rfl⟩
  constructor
  · intro h
    obtain ⟨instructions, hinstructions, h⟩ := h
    rw [hlower, Except.ok.injEq] at hinstructions
    rw [← hinstructions, hcode, Except.ok.injEq] at h
    exact h.symm
  · intro h
    exact ⟨_, hlower, h ▸ hcode⟩

theorem Bytecode.encodes {e : Expr} (h : Bytecode file value e code) :
    ∃ ops : List Opcode, Encodes code (ops.map .plain) := by
  obtain ⟨instructions, _, hcode⟩ := h
  exact ⟨_, encodes_sequence hcode⟩

/-- One more opcode after two operands. -/
theorem runScript_operator {byte : UInt8} {op : Opcode} (ha : Bytecode file value a codeA)
    (hb : Bytecode file value b codeB) (hop : Encodes [byte] [.plain op])
    (hrun : runScript env (codeA ++ codeB) stack = some (y :: x :: rest)) :
    runScript env (codeA ++ codeB ++ [byte]) stack = execOpcode env op (y :: x :: rest) := by
  obtain ⟨opsA, hopsA⟩ := ha.encodes
  obtain ⟨opsB, hopsB⟩ := hb.encodes
  have hoperands := hopsA.append hopsB
  rw [← List.map_append] at hoperands
  rw [hoperands.runScript_eq, runOps, runBranching_plain] at hrun
  have hall : Encodes (codeA ++ codeB ++ [byte]) (((opsA ++ opsB) ++ [op]).map .plain) := by
    rw [List.map_append]
    exact hoperands.append hop
  rw [hall.runScript_eq, runOps, runBranching_plain, run_append, hrun, Option.bind_some,
    run_singleton]

/-- The inequality reads both operands as numbers, and fails where one is none. -/
theorem exec_numNotEqual {after : Stack} :
    execOpcode env (.numeric .numNotEqual) (y :: x :: rest) = some after ↔
      IsScriptNumber x ∧ IsScriptNumber y ∧ after = boolBytes (decide (x ≠ y)) :: rest := by
  simp only [execOpcode, Option.bind_eq_some_iff, readNum_eq_some]
  constructor
  · intro h
    obtain ⟨n, ⟨hx, hn⟩, m, ⟨hy, hm⟩, hpush⟩ := h
    have hiff : n ≠ m ↔ x ≠ y := by
      rw [← hn, ← hm]
      exact not_congr ⟨decode_inj hx.2 hy.2, congrArg decode⟩
    simp only [NumOp.eval, hiff, pushNum_truth, Option.some.injEq] at hpush
    exact ⟨hx, hy, hpush.symm⟩
  · intro h
    obtain ⟨hx, hy, rfl⟩ := h
    refine ⟨_, ⟨hx, rfl⟩, _, ⟨hy, rfl⟩, ?_⟩
    have hiff : decode x ≠ decode y ↔ x ≠ y := not_congr ⟨decode_inj hx.2 hy.2, congrArg decode⟩
    simp only [NumOp.eval, hiff, pushNum_truth]

theorem bytecode_notEqual (span : Span) (ha : Bytecode file value a codeA)
    (hb : Bytecode file value b codeB) :
    Bytecode file value (.binary a .notEqual b span) code ↔
      code = codeA ++ codeB ++ [opNumNotEqual] :=
  bytecode_binary span (by decide) rfl (fun _ => rfl) ha hb

theorem runScript_notEqual (ha : Bytecode file value a codeA) (hb : Bytecode file value b codeB)
    (hrun : runScript env (codeA ++ codeB) stack = some (y :: x :: rest)) :
    runScript env (codeA ++ codeB ++ [opNumNotEqual]) stack =
      execOpcode env (.numeric .numNotEqual) (y :: x :: rest) :=
  runScript_operator ha hb (Encodes.single fun _ => rfl) hrun

/-- An inequality that evaluates has read two numbers. -/
theorem NotEqualNegates.numbers {span : Span} (h : NotEqualNegates file value env a b span stack rest)
    (ha : Bytecode file value a codeA) (hb : Bytecode file value b codeB)
    (hrun : runScript env (codeA ++ codeB) stack = some (y :: x :: rest)) :
    IsScriptNumber x ∧ IsScriptNumber y := by
  obtain ⟨_, notEqualCode, _, notEqual, _, hcode, _, hresult, _⟩ := h
  rw [(bytecode_notEqual span ha hb).mp hcode, runScript_notEqual ha hb hrun] at hresult
  obtain ⟨hx, hy, _⟩ := exec_numNotEqual.mp hresult
  exact ⟨hx, hy⟩

/-- `a != b` evaluates and negates `a == b` exactly where both operands are numbers to the engine,
whatever their types are. -/
theorem notEqual_negates_iff (file : String) (value : String → Value) (env : ScriptEnv)
    (a b : Expr) (span : Span) (codeA codeB : Bytes) (stack rest : Stack) (x y : Bytes)
    (ha : Bytecode file value a codeA) (hb : Bytecode file value b codeB)
    (hrun : runScript env (codeA ++ codeB) stack = some (y :: x :: rest)) :
    NotEqualNegates file value env a b span stack rest ↔ IsScriptNumber x ∧ IsScriptNumber y := by
  constructor
  · intro h
    exact h.numbers ha hb hrun
  · intro h
    have hequal : Bytecode file value (.binary a .equal b span) (codeA ++ codeB ++ [opEqual]) :=
      (bytecode_binary span (by decide) rfl (fun _ => rfl) ha hb).mpr rfl
    have hrunEqual : runScript env (codeA ++ codeB ++ [opEqual]) stack =
        execOpcode env .equal (y :: x :: rest) :=
      runScript_operator ha hb (Encodes.single fun _ => rfl) hrun
    have hrunNotEqual : runScript env (codeA ++ codeB ++ [opNumNotEqual]) stack =
        some (boolBytes (decide (x ≠ y)) :: rest) := by
      rw [runScript_notEqual ha hb hrun]
      exact exec_numNotEqual.mpr ⟨h.1, h.2, rfl⟩
    refine ⟨_, _, _, _, hequal, (bytecode_notEqual span ha hb).mpr rfl, hrunEqual, hrunNotEqual, ?_⟩
    simp only [isTrue_boolBytes, ne_eq, decide_not, Bool.not_eq_true', decide_eq_false_iff_not,
      beq_eq_false_iff_ne]

end

/-- The operands of `5 != 7`. -/
theorem notEqual_negates_iff_amounts :
    NotEqualNegates "keys.ks" (fun _ => .bool true) (oneInputEnv 0 0) (.integer 5 ⟨0, 1⟩)
      (.integer 7 ⟨5, 6⟩) ⟨0, 6⟩ [] [] :=
  (notEqual_negates_iff "keys.ks" (fun _ => .bool true) (oneInputEnv 0 0) (.integer 5 ⟨0, 1⟩)
    (.integer 7 ⟨5, 6⟩) ⟨0, 6⟩ [0x55] [0x57] [] [] [5] [7] ⟨_, rfl, rfl⟩ ⟨_, rfl, rfl⟩
    (by decide +kernel)).mpr ⟨by decide, by decide⟩

/-- The body `require owner != heir; require sig.verify(owner);` -/
def keysBody : List Stmt :=
  [.require (.binary (.ident (nameAt "owner")) .notEqual (.ident (nameAt "heir")) ⟨0, 0⟩) ⟨0, 0⟩,
    .require (.call (.field (.ident (nameAt "sig")) (nameAt "verify") ⟨0, 0⟩)
      [.ident (nameAt "owner")] ⟨0, 0⟩) ⟨0, 0⟩]

/-- `spend claim(sig: Signature) { .. }` -/
def keysSpend : Spend := ⟨nameAt "claim", [⟨nameAt "sig", .signature, ⟨0, 0⟩⟩], keysBody, ⟨0, 0⟩⟩

/-- `contract Keys { params { owner: PublicKey, heir: PublicKey } spend claim .. }` -/
def keysContract : Contract :=
  ⟨nameAt "Keys", [⟨nameAt "owner", .publicKey, ⟨0, 0⟩⟩, ⟨nameAt "heir", .publicKey, ⟨0, 0⟩⟩],
    none, [keysSpend], ⟨0, 0⟩⟩

/-- One key of 32 bytes for `owner`, another for everything else. -/
def keysValue (name : String) : Value :=
  .bytes (List.replicate 32 (if name = "owner" then 2 else 3))

/-- Two keys compare with `==`, and abort the script with `!=`. -/
theorem notEqual_keys :
    let owner := Expr.ident (nameAt "owner")
    let heir := Expr.ident (nameAt "heir")
    let cx := checkerAt "" "keys.ks" keysContract
    let scope := (cx.spendStart keysContract keysSpend).scope
    (∃ analysis, analyzeProgram ⟨[keysContract]⟩ "" "keys.ks" = .ok analysis) ∧
    cx.typeOf scope owner = some .publicKey ∧ cx.typeOf scope heir = some .publicKey ∧
    ∃ codeA codeB x y, Bytecode "keys.ks" keysValue owner codeA ∧
      Bytecode "keys.ks" keysValue heir codeB ∧
      runScript (oneInputEnv 0 0) (codeA ++ codeB) [] = some [y, x] ∧
      ¬ NotEqualNegates "keys.ks" keysValue (oneInputEnv 0 0) owner heir ⟨0, 0⟩ [] [] := by
  intro owner heir cx scope
  refine ⟨?_, by decide +kernel, by decide +kernel, ?_⟩
  · exact ⟨_, rfl⟩
  · let keyA : Bytes := List.replicate 32 2
    let keyB : Bytes := List.replicate 32 3
    have hownerCode : Bytecode "keys.ks" keysValue owner (32 :: keyA) := ⟨_, rfl, rfl⟩
    have hheirCode : Bytecode "keys.ks" keysValue heir (32 :: keyB) := ⟨_, rfl, rfl⟩
    have hrun : runScript (oneInputEnv 0 0) (32 :: keyA ++ 32 :: keyB) [] = some [keyB, keyA] := by
      decide +kernel
    refine ⟨_, _, keyA, keyB, hownerCode, hheirCode, hrun, ?_⟩
    intro h
    exact absurd (h.numbers hownerCode hheirCode hrun).1 (by decide +kernel)

end KaspaScript
