import KaspaScript.Engine.Encoding
import KaspaScript.Ir.Kips
import Mathlib.Data.List.Dedup

namespace KaspaScript

open Library (Branching bind_eq_ok pure_eq_ok joinAll)

/-- A set read in order is strictly ascending. -/
theorem pairwise_sortedSet (values : List Nat) : (sortedSet values).Pairwise (· < ·) := by
  have hsorted : (sortedSet values).Pairwise (· ≤ ·) := List.pairwise_insertionSort (· ≤ ·) _
  have hnodup : (sortedSet values).Nodup :=
    (List.perm_insertionSort (· ≤ ·) values.dedup).nodup_iff.mpr (List.nodup_dedup values)
  apply (hsorted.and hnodup).imp
  intro a b h
  exact Nat.lt_of_le_of_ne h.1 h.2

@[simp] theorem mem_sortedSet {values : List Nat} {n : Nat} : n ∈ sortedSet values ↔ n ∈ values := by
  simp [sortedSet]

theorem kipsDeclared_stmt {file : String} {stmt : Stmt} {code : List Instruction}
    (h : lowerStmt file stmt = .ok code) : KipsDeclared (collectExprKips stmt.expr) (kinds code) := by
  have hexpr {e : Expr} {code : List Instruction} (h : lowerExpr file e = .ok code) :
      KipsDeclared (collectExprKips e) (kinds code) := by
    have hlowers := kipsDeclared_of_lowers (lowers_of_lowerExpr e code h)
    simpa [collectAllKips] using hlowers
  cases stmt with
  | «let» name e span =>
    obtain ⟨c, hc, h⟩ := bind_eq_ok.mp h
    rw [pure_eq_ok] at h
    subst h
    rw [kinds_append]
    exact (hexpr hc).append (kipsDeclared_free rfl)
  | require e span =>
    obtain ⟨c, hc, h⟩ := bind_eq_ok.mp h
    rw [pure_eq_ok] at h
    subst h
    rw [kinds_append]
    exact (hexpr hc).append (kipsDeclared_free rfl)
  | «return» e span => exact hexpr h

theorem mem_instructions {ir : IrProgram} {instruction : Instruction} :
    instruction ∈ ir.instructions ↔
      ∃ contract ∈ ir.contracts, ∃ spend ∈ contract.spends, instruction ∈ spend.instructions := by
  simp only [IrProgram.instructions, spendInstructions, List.mem_flatMap]
  constructor
  · intro h
    obtain ⟨spend, ⟨contract, hcontract, hspend⟩, hmem⟩ := h
    exact ⟨contract, hcontract, spend, hspend, hmem⟩
  · intro h
    obtain ⟨contract, hcontract, spend, hspend, hmem⟩ := h
    exact ⟨spend, ⟨contract, hcontract, hspend⟩, hmem⟩

/-- The KIP of every instruction of a lowered program is among those collected from its source. -/
theorem kip_of_instruction {program : Program} {kips : List Nat} {file : String} {ir : IrProgram}
    (h : lowerProgram program kips file = .ok ir) {instruction : Instruction}
    (hmem : instruction ∈ ir.instructions) {kip : Nat}
    (hkip : instructionKip instruction.kind = some kip) :
    kip ∈ collectKipRequirements program := by
  obtain ⟨loweredContract, hcontract, loweredSpend, hspend, hmem⟩ := mem_instructions.mp hmem
  obtain ⟨contract, hcontract', spend, hspend', _, hlower⟩ := spend_of_lowerProgram h hcontract hspend
  obtain ⟨stmt, hstmt, code, hcode, hmem⟩ := stmt_of_instruction hlower hmem
  have hdeclared := kipsDeclared_stmt hcode instruction.kind (List.mem_map_of_mem hmem) kip hkip
  rw [collectKipRequirements, mem_sortedSet]
  simp only [List.mem_flatMap]
  exact ⟨contract, hcontract', spend, hspend', stmt, hstmt, hdeclared⟩

/-- The opcodes that read the transaction. -/
def isIntrospection : Branching Opcode → Bool
  | .plain .txInputCount | .plain .txOutputCount | .plain .txInputAmount | .plain .txInputSpk
  | .plain .txOutputAmount | .plain .txOutputSpk => true
  | _ => false

theorem kip_of_introspection {kinds : List InstructionKind} {op : Branching Opcode}
    (hmem : op ∈ plainOpcodes kinds) (h : isIntrospection op = true) :
    ∃ kind ∈ kinds, instructionKip kind = some 10 := by
  obtain ⟨opcode, hopcode, rfl⟩ := List.mem_map.mp hmem
  obtain ⟨kind, hkind, hopcode⟩ := List.mem_flatMap.mp hopcode
  refine ⟨kind, hkind, ?_⟩
  have hpush (data : Bytes) : isIntrospection (.plain (dataPush data)) = false := by
    unfold dataPush
    split_ifs <;> rfl
  cases kind with
  | push value =>
    rw [opcodes, List.mem_singleton] at hopcode
    subst hopcode
    cases value with
    | integer n => cases h
    | bool b => cases h
    | _ =>
      simp only [pushOpcode, hpush] at h
      cases h
  | inputValue _ | inputScript _ | outputValue _ | outputScript _ | inputCount | outputCount => rfl
  | covenantDepth | covenantId | zkVerifyGroth16 | zkVerifyRiscZero | sequencingCommitment
  | hash160 | checkHashPreimage | mul | div | mod => cases hopcode
  | checkLockHeight _ | checkLockTime _ =>
    simp only [opcodes, lockOpcodes, List.mem_cons, List.not_mem_nil, or_false] at hopcode
    rcases hopcode with rfl | rfl | rfl <;> cases h
  | checkMultiSig _ _ | checkLockHeightFromStack | checkLockTimeFromStack =>
    simp only [opcodes, List.mem_cons, List.not_mem_nil, or_false] at hopcode
    rcases hopcode with rfl | rfl <;> cases h
  | _ =>
    simp only [opcodes, List.mem_singleton] at hopcode
    subst hopcode
    cases h

/-- Introspection, covenant and proof instructions appear only under their declared KIPs, and an
artifact of the strict target without KIP 10 reads nothing of the transaction. -/
theorem kips_declared (program : Program) (source file : String) (analysis : Analysis)
    (ir : IrProgram) (h : analyzeProgram program source file = .ok analysis)
    (hlower : lowerProgram analysis.program analysis.kipRequirements file = .ok ir) :
    ir.kipRequirements.Pairwise (· < ·) ∧
    (∀ instruction ∈ ir.instructions, ∀ kip, instructionKip instruction.kind = some kip →
      kip ∈ ir.kipRequirements) ∧
    ∀ sha256 version artifact,
      compileToccata sha256 source ir version .verifiedTn12 = .ok artifact →
      10 ∉ artifact.kipRequirements →
      ∃ ops, decodeAll artifact.bytecode = some ops ∧ ∀ op ∈ ops, isIntrospection op = false := by
  obtain ⟨_, hprogram, hkips⟩ := accepted_of_analyzeProgram h
  rw [hprogram, hkips] at hlower
  obtain ⟨hrequirements, _, _⟩ := lowerProgram_eq_ok hlower
  have hdeclared : ∀ instruction ∈ ir.instructions, ∀ kip,
      instructionKip instruction.kind = some kip → kip ∈ ir.kipRequirements := by
    intro instruction hmem kip hkip
    rw [hrequirements]
    exact kip_of_instruction hlower hmem hkip
  refine ⟨?_, hdeclared, ?_⟩
  · rw [hrequirements]
    exact pairwise_sortedSet _
  · intro sha256 version artifact hcompile hten
    obtain ⟨_, _, hcode, _⟩ := compileToccata_eq_ok hcompile
    refine ⟨_, (encodes_sequence hcode).decodeAll_eq, ?_⟩
    intro op hop
    by_contra hintrospection
    rw [Bool.not_eq_false] at hintrospection
    obtain ⟨kind, hkind, hkip⟩ := kip_of_introspection hop hintrospection
    obtain ⟨instruction, hmem, rfl⟩ := List.mem_map.mp hkind
    apply hten
    rw [kipRequirements_of_compileToccata hcompile]
    exact hdeclared instruction hmem 10 hkip

/-- `contract Key { params { owner: PublicKey } spend claim(sig: Signature) {
require sig.verify(owner); } }` -/
def keyProgram : Program :=
  ⟨[{ name := nameAt "Key"
      params := [⟨nameAt "owner", .publicKey, ⟨0, 0⟩⟩]
      finalityDepth := none
      spends := [{ name := nameAt "claim"
                   params := [⟨nameAt "sig", .signature, ⟨0, 0⟩⟩]
                   body := [.require (.call (.field (.ident (nameAt "sig")) (nameAt "verify") ⟨0, 0⟩)
                     [.ident (nameAt "owner")] ⟨0, 0⟩) ⟨0, 0⟩]
                   span := ⟨0, 0⟩ }]
      span := ⟨0, 0⟩ }]⟩

theorem kips_declared_keyProgram :
    ∃ ir artifact, lowerProgram keyProgram [] "key.ks" = .ok ir ∧
      compileToccata id "" ir "0.1.0" .verifiedTn12 = .ok artifact ∧
      ∃ ops, decodeAll artifact.bytecode = some ops ∧ ∀ op ∈ ops, isIntrospection op = false := by
  obtain ⟨ir, hir, hkips, artifact, hartifact⟩ :
      ∃ ir, lowerProgram keyProgram [] "key.ks" = .ok ir ∧ ir.kipRequirements = [] ∧
        ∃ artifact, compileToccata id "" ir "0.1.0" .verifiedTn12 = .ok artifact :=
    ⟨_, rfl, rfl, _, rfl⟩
  have hdeclared := kips_declared keyProgram "" "key.ks" ⟨keyProgram, [], none⟩ ir rfl hir
  refine ⟨ir, artifact, hir, hartifact, hdeclared.2.2 id "0.1.0" artifact hartifact ?_⟩
  rw [kipRequirements_of_compileToccata hartifact, hkips]
  simp

end KaspaScript
