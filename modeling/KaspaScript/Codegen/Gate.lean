import KaspaScript.Codegen.Toccata

namespace KaspaScript

open Library (bind_eq_ok pure_eq_ok joinAll joinAll_append joinAll_isOk)

/-- The operands that the source keeps in a `u32` fit one. -/
def InstructionKind.MachineSized : InstructionKind → Prop
  | .inputValue index | .inputScript index | .outputValue index | .outputScript index =>
      index ≤ u32Max
  | .checkMultiSig required keyCount => required ≤ u32Max ∧ keyCount ≤ u32Max
  | _ => True

/-- Pushed integers and lock values fit `i64`, pushed byte strings a `u32` length. -/
def InstructionKind.OperandFits : InstructionKind → Prop
  | .push (.integer value) | .checkLockHeight value | .checkLockTime value => value ≤ i64Max
  | .push (.bytes bytes) => bytes.length ≤ u32Max
  | .push (.string text) | .push (.symbol text) => (utf8Bytes text).length ≤ u32Max
  | _ => True

theorem leBytes_length (width n : Nat) : (leBytes width n).length = width := by
  induction width generalizing n with
  | zero => rfl
  | succ width ih => simp [leBytes, ih]

theorem encodeData_ok {data : Bytes} (span : Span) (h : data.length ≤ u32Max) :
    ∃ part, encodeData data span = .ok part := by
  simp only [encodeData]
  split_ifs <;> exact ⟨_, rfl⟩

theorem encodeU64_ok {n : Nat} (span : Span) (h : n ≤ i64Max) :
    ∃ part, encodeU64 n span = .ok part := by
  unfold encodeU64
  rw [if_neg (by omega)]
  split_ifs
  · exact ⟨_, rfl⟩
  · exact ⟨_, rfl⟩
  · apply encodeData_ok
    have hlen : (scriptNumber n).length ≤ 9 := by
      have htrim := (List.rdropWhile_prefix (· == 0) (l := leBytes 8 n)).length_le
      rw [leBytes_length] at htrim
      simp only [scriptNumber]
      split_ifs <;> simp <;> omega
    unfold u32Max
    omega

/-- A number and the opcodes after it. -/
theorem encodeU64_then_ok {n : Nat} {span : Span} (tail : Bytes) (h : n ≤ i64Max) :
    ∃ part, (do let code ← encodeU64 n span; pure (code ++ tail) : Except CodegenError Bytes) =
      .ok part := by
  obtain ⟨part, hpart⟩ := encodeU64_ok span h
  exact ⟨part ++ tail, by rw [hpart]; rfl⟩

theorem encodeData_isOk {data : Bytes} {span : Span} :
    (∃ part, encodeData data span = .ok part) ↔ data.length ≤ u32Max := by
  constructor
  · intro ⟨part, hpart⟩
    by_contra hlong
    have hlarge : ¬ data.length ≤ 65535 ∧ ¬ data.length ≤ 255 ∧ ¬ data.length ≤ 75 := by
      unfold u32Max at hlong
      omega
    simp only [encodeData, if_neg hlong, if_neg hlarge.1, if_neg hlarge.2.1, if_neg hlarge.2.2,
      reduceCtorEq] at hpart
  · exact encodeData_ok span

theorem encodeU64_isOk {n : Nat} {span : Span} :
    (∃ part, encodeU64 n span = .ok part) ↔ n ≤ i64Max := by
  constructor
  · intro ⟨part, hpart⟩
    by_contra hlarge
    simp [encodeU64, Nat.lt_of_not_le hlarge] at hpart
  · exact encodeU64_ok span

theorem encodeU64_then_isOk {n : Nat} {span : Span} {tail : Bytes} :
    (∃ part, (do let code ← encodeU64 n span; pure (code ++ tail) : Except CodegenError Bytes) =
      .ok part) ↔ n ≤ i64Max := by
  constructor
  · intro ⟨part, hpart⟩
    obtain ⟨code, hcode, _⟩ := bind_eq_ok.mp hpart
    exact encodeU64_isOk.mp ⟨code, hcode⟩
  · exact encodeU64_then_ok tail

theorem le_i64Max_of_le_u32Max {n : Nat} (h : n ≤ u32Max) : n ≤ i64Max := by
  unfold u32Max at h
  unfold i64Max
  omega

/-- The encoder refuses exactly what has no verified record, and the operands that do not fit. -/
theorem encodeInstruction_isOk {instruction : Instruction} (h : instruction.kind.MachineSized) :
    (∃ code, encodeInstruction instruction = .ok code) ↔
      isUnsupported instruction.kind = false ∧ instruction.kind.OperandFits := by
  obtain ⟨span, kind⟩ := instruction
  cases kind with
  | push value =>
    cases value with
    | integer n => exact encodeU64_isOk.trans (by simp [isUnsupported, InstructionKind.OperandFits])
    | bool b => exact ⟨fun _ => ⟨rfl, trivial⟩, fun _ => ⟨_, rfl⟩⟩
    | type ty =>
      have hshort : (utf8Bytes ty.debug).length ≤ u32Max := by cases ty <;> decide +kernel
      exact ⟨fun _ => ⟨rfl, trivial⟩, fun _ => encodeData_ok span hshort⟩
    | _ => exact encodeData_isOk.trans (by simp [isUnsupported, InstructionKind.OperandFits])
  | inputValue index | inputScript index | outputValue index | outputScript index =>
    exact ⟨fun _ => ⟨rfl, trivial⟩, fun _ => encodeU64_then_ok _ (le_i64Max_of_le_u32Max h)⟩
  | checkMultiSig required keyCount =>
    exact ⟨fun _ => ⟨rfl, trivial⟩, fun _ => encodeU64_then_ok _ (le_i64Max_of_le_u32Max h.2)⟩
  | checkLockHeight n | checkLockTime n =>
    exact encodeU64_then_isOk.trans (by simp [isUnsupported, InstructionKind.OperandFits])
  | covenantDepth | covenantId | zkVerifyGroth16 | zkVerifyRiscZero | sequencingCommitment
  | hash160 | checkHashPreimage | mul | div | mod =>
    constructor
    · intro ⟨code, hcode⟩
      cases hcode
    · intro ⟨hsupported, _⟩
      cases hsupported
  | _ => exact ⟨fun _ => ⟨rfl, trivial⟩, fun _ => ⟨_, rfl⟩⟩

/-- What one record lets through. -/
def GroundingRecord.Passes (target : Target) (record : GroundingRecord) : Prop :=
  record.status = .verified ∨ record.status = .gated ∧ target.allowsGatedWarnings = true

/-- The warnings of the gated records, each once, in order of first occurrence. -/
def gatedWarnings (records : List GroundingRecord) : List GroundingWarning :=
  ((records.filter fun record => record.status = .gated).eraseDups).map GroundingRecord.warning

theorem gatedWarnings_append_verified {records : List GroundingRecord} {record : GroundingRecord}
    (h : record.status ≠ .gated) : gatedWarnings (records ++ [record]) = gatedWarnings records := by
  simp [gatedWarnings, h]

theorem gatedWarnings_append_gated {records : List GroundingRecord} {record : GroundingRecord}
    (h : record.status = .gated) :
    gatedWarnings (records ++ [record]) =
      if record ∈ records then gatedWarnings records
      else gatedWarnings records ++ [record.warning] := by
  have hmem : record ∈ records.filter (fun record => record.status = .gated) ↔ record ∈ records := by
    simp [h]
  unfold gatedWarnings
  rw [List.filter_append, List.eraseDups_append, List.map_append]
  by_cases hrecord : record ∈ records
  · simp [hrecord, h, List.removeAll]
  · simp [hrecord, h, List.removeAll, List.eraseDups_cons]

theorem mem_kipRecords {kip : Nat} {record : GroundingRecord} (h : recordForKip kip = some record) :
    record ∈ kipRecords := List.mem_of_find?_eq_some h

/-- The table has one record for each id. -/
theorem kipRecords_id {a b : GroundingRecord} (ha : a ∈ kipRecords) (hb : b ∈ kipRecords)
    (h : a.id = b.id) : a = b := by
  have htable : ∀ a ∈ kipRecords, ∀ b ∈ kipRecords, a.id = b.id → a = b := by decide +kernel
  exact htable a ha b hb h

theorem mem_gatedWarnings_id {records : List GroundingRecord} {record : GroundingRecord}
    (hrecords : ∀ r ∈ records, r ∈ kipRecords) (hrecord : record ∈ kipRecords)
    (h : record.status = .gated) :
    record.id ∈ (gatedWarnings records).map GroundingWarning.id ↔ record ∈ records := by
  have hids : (gatedWarnings records).map GroundingWarning.id =
      ((records.filter fun record => record.status = .gated).eraseDups).map GroundingRecord.id := by
    simp [gatedWarnings, GroundingRecord.warning]
  rw [hids]
  constructor
  · intro hid
    obtain ⟨other, hother, hname⟩ := List.mem_map.mp hid
    have hmem : other ∈ records := (List.mem_filter.mp (List.mem_eraseDups.mp hother)).1
    rw [← kipRecords_id (hrecords other hmem) hrecord hname]
    exact hmem
  · intro hmem
    apply List.mem_map_of_mem
    apply List.mem_eraseDups.mpr
    simp [hmem, h]

/-- One more record: it passes, and its warning is added unless it came before. -/
theorem collectGrounding_eq_ok {target : Target} {seen : List GroundingRecord}
    {record : GroundingRecord} {warnings : List GroundingWarning}
    (hseen : ∀ r ∈ seen, r ∈ kipRecords) (hrecord : record ∈ kipRecords) :
    collectGrounding target (gatedWarnings seen) record = .ok warnings ↔
      record.Passes target ∧ gatedWarnings (seen ++ [record]) = warnings := by
  unfold collectGrounding GroundingRecord.Passes
  cases hstatus : record.status with
  | verified =>
    have hsame : gatedWarnings (seen ++ [record]) = gatedWarnings seen :=
      gatedWarnings_append_verified (by simp [hstatus])
    simp [hsame]
  | gated =>
    rw [gatedWarnings_append_gated hstatus, if_congr (mem_gatedWarnings_id hseen hrecord hstatus)
      rfl rfl]
    cases htarget : target.allowsGatedWarnings <;> simp
  | unsupported => simp

theorem collect_kips {target : Target} {seen rest : List GroundingRecord}
    {warnings : List GroundingWarning} (h : ∀ r ∈ seen ++ rest, r ∈ kipRecords) :
    rest.foldlM (collectGrounding target) (gatedWarnings seen) = .ok warnings ↔
      (∀ r ∈ rest, r.Passes target) ∧ gatedWarnings (seen ++ rest) = warnings := by
  induction rest generalizing seen with
  | nil => simp [pure_eq_ok]
  | cons record rest ih =>
    have hseen : ∀ r ∈ seen, r ∈ kipRecords := fun r hr => h r (by simp [hr])
    have hnext : seen ++ record :: rest = seen ++ [record] ++ rest := by simp
    rw [List.foldlM_cons, bind_eq_ok, List.forall_mem_cons]
    constructor
    · intro ⟨mid, hmid, hrest⟩
      obtain ⟨hpass, rfl⟩ := (collectGrounding_eq_ok hseen (h record (by simp))).mp hmid
      obtain ⟨hall, hwarnings⟩ := (ih (hnext ▸ h)).mp hrest
      exact ⟨⟨hpass, hall⟩, hnext ▸ hwarnings⟩
    · intro ⟨⟨hpass, hall⟩, hwarnings⟩
      refine ⟨_, (collectGrounding_eq_ok hseen (h record (by simp))).mpr ⟨hpass, rfl⟩, ?_⟩
      exact (ih (hnext ▸ h)).mpr ⟨hall, hnext ▸ hwarnings⟩

/-- Instructions are verified or refused, so they never warn. -/
theorem collectInstructionGrounding_eq_ok {target : Target} {warnings after : List GroundingWarning}
    {instructions : List Instruction} :
    collectInstructionGrounding target warnings instructions = .ok after ↔
      (∀ instruction ∈ instructions, isUnsupported instruction.kind = false) ∧ warnings = after := by
  unfold collectInstructionGrounding
  induction instructions with
  | nil => simp [pure_eq_ok]
  | cons instruction rest ih =>
    rw [List.foldlM_cons, bind_eq_ok, List.forall_mem_cons]
    cases hkind : isUnsupported instruction.kind with
    | true =>
      have hstatus : (recordForInstruction instruction.kind).status = .unsupported := by
        rw [recordForInstruction_status, hkind]
        rfl
      simp [collectGrounding, hstatus]
    | false =>
      have hstatus : (recordForInstruction instruction.kind).status = .verified := by
        rw [recordForInstruction_status, hkind]
        rfl
      simpa [collectGrounding, hstatus] using ih

/-- The instructions of every spend, in program order. -/
def spendInstructions (spends : List IrSpend) : List Instruction :=
  spends.flatMap IrSpend.instructions

/-- The loop over the spends: all of them are grounded and encoded, or it stops. -/
theorem compileSpends_eq_ok {target : Target} {warnings after : List GroundingWarning}
    {spends : List IrSpend} {bytecode : Bytes} :
    compileSpends target warnings spends = .ok (bytecode, after) ↔
      (∀ instruction ∈ spendInstructions spends, isUnsupported instruction.kind = false) ∧
        compileInstructionSequence (spendInstructions spends) = .ok bytecode ∧
        warnings = after := by
  unfold compileSpends
  -- the bytes written so far stand before those of the spends to come
  suffices h : ∀ before, List.foldlM (fun (acc : Bytes × List GroundingWarning) spend => do
      let warnings ← collectInstructionGrounding target acc.2 spend.instructions
      let code ← compileInstructionSequence spend.instructions
      pure (acc.1 ++ code, warnings)) (before, warnings) spends = .ok (bytecode, after) ↔
      (∀ instruction ∈ spendInstructions spends, isUnsupported instruction.kind = false) ∧
        (∃ code, compileInstructionSequence (spendInstructions spends) = .ok code ∧
          before ++ code = bytecode) ∧ warnings = after by
    simpa using h []
  induction spends with
  | nil => simp [spendInstructions, compileInstructionSequence, pure_eq_ok]
  | cons spend rest ih =>
    intro before
    have happend : ∀ code, compileInstructionSequence (spendInstructions (spend :: rest)) =
        .ok code ↔ ∃ first others, compileInstructionSequence spend.instructions = .ok first ∧
          compileInstructionSequence (spendInstructions rest) = .ok others ∧
          code = first ++ others := by
      intro code
      simp only [spendInstructions, List.flatMap_cons, compileInstructionSequence, List.map_append]
      exact joinAll_append
    have hmem : (∀ i ∈ spendInstructions (spend :: rest), isUnsupported i.kind = false) ↔
        (∀ i ∈ spend.instructions, isUnsupported i.kind = false) ∧
          ∀ i ∈ spendInstructions rest, isUnsupported i.kind = false := by
      simp only [spendInstructions, List.flatMap_cons, List.forall_mem_append]
    rw [List.foldlM_cons, bind_eq_ok, hmem]
    simp only [bind_eq_ok, pure_eq_ok, collectInstructionGrounding_eq_ok]
    constructor
    · intro h
      obtain ⟨_, ⟨_, ⟨hground, rfl⟩, first, hfirst, rfl⟩, hrest⟩ := h
      obtain ⟨hground', ⟨others, hothers, hbytes⟩, hafter⟩ := (ih _).mp hrest
      refine ⟨⟨hground, hground'⟩, ⟨first ++ others, ?_, ?_⟩, hafter⟩
      · exact (happend _).mpr ⟨first, others, hfirst, hothers, rfl⟩
      · rw [← List.append_assoc]
        exact hbytes
    · intro h
      obtain ⟨⟨hground, hground'⟩, ⟨code, hcode, hbytes⟩, hafter⟩ := h
      obtain ⟨first, others, hfirst, hothers, rfl⟩ := (happend _).mp hcode
      refine ⟨_, ⟨warnings, ⟨hground, rfl⟩, first, hfirst, rfl⟩, ?_⟩
      apply (ih _).mpr
      exact ⟨hground', ⟨others, hothers, by rw [← hbytes, List.append_assoc]⟩, hafter⟩

def IrProgram.instructions (ir : IrProgram) : List Instruction :=
  spendInstructions (ir.contracts.flatMap IrContract.spends)

/-- What a target asks of a program. -/
structure IrProgram.Admitted (ir : IrProgram) (target : Target) : Prop where
  grounded : ∀ instruction ∈ ir.instructions,
    (recordForInstruction instruction.kind).status ≠ .unsupported
  kips : ∀ kip ∈ ir.kipRequirements, ∀ record, recordForKip kip = some record →
    record.Passes target
  operands : ∀ instruction ∈ ir.instructions, instruction.kind.OperandFits

theorem grounded_iff {kind : InstructionKind} :
    (recordForInstruction kind).status ≠ .unsupported ↔ isUnsupported kind = false := by
  rw [recordForInstruction_status]
  cases isUnsupported kind <;> simp

theorem encodeInstruction_grounded {instruction : Instruction}
    (h : isUnsupported instruction.kind = false) (id : String) (citation : SourceCitation)
    (message : String) :
    encodeInstruction instruction ≠ .error (.unsupportedGrounding id citation message) := by
  have hdata (data : Bytes) (span : Span) :
      encodeData data span ≠ .error (.unsupportedGrounding id citation message) := by
    simp only [encodeData]
    split_ifs <;> simp
  have hu64 (n : Nat) (span : Span) :
      encodeU64 n span ≠ .error (.unsupportedGrounding id citation message) := by
    unfold encodeU64
    split_ifs
    · simp
    · simp
    · simp
    · exact hdata _ span
  have hthen (n : Nat) (span : Span) (tail : Bytes) :
      (do let code ← encodeU64 n span; pure (code ++ tail) : Except CodegenError Bytes) ≠
        .error (.unsupportedGrounding id citation message) := by
    intro herror
    cases hcode : encodeU64 n span with
    | ok code =>
      rw [hcode] at herror
      cases herror
    | error error =>
      rw [hcode] at herror
      exact hu64 n span (hcode.trans herror)
  obtain ⟨span, kind⟩ := instruction
  cases kind with
  | push value =>
    cases value with
    | integer n => exact hu64 n span
    | bool b => exact nofun
    | _ => exact hdata _ span
  | inputValue index | inputScript index | outputValue index | outputScript index =>
    exact hthen index ⟨0, 0⟩ _
  | checkMultiSig required keyCount => exact hthen keyCount span _
  | checkLockHeight n | checkLockTime n => exact hthen n span _
  | covenantDepth | covenantId | zkVerifyGroth16 | zkVerifyRiscZero | sequencingCommitment
  | hash160 | checkHashPreimage | mul | div | mod => cases h
  | _ => exact nofun

section

variable {sha256 : Bytes → Bytes} {source version : String} {ir : IrProgram} {target : Target}

theorem kips_pass_iff :
    (∀ record ∈ ir.kipRequirements.filterMap recordForKip, record.Passes target) ↔
      ∀ kip ∈ ir.kipRequirements, ∀ record, recordForKip kip = some record →
        record.Passes target := by
  simp only [List.mem_filterMap]
  constructor
  · intro h kip hkip record hrecord
    exact h record ⟨kip, hkip, hrecord⟩
  · intro h record ⟨kip, hkip, hrecord⟩
    exact h kip hkip record hrecord

/-- A compilation that succeeds: every record passes, and what it returns. -/
theorem compileToccata_eq_ok {artifact : CompiledArtifact} :
    compileToccata sha256 source ir version target = .ok artifact →
      (∀ record ∈ ir.kipRequirements.filterMap recordForKip, record.Passes target) ∧
      (∀ instruction ∈ ir.instructions, isUnsupported instruction.kind = false) ∧
      compileInstructionSequence ir.instructions = .ok artifact.bytecode ∧
      artifact.warnings = gatedWarnings (ir.kipRequirements.filterMap recordForKip) := by
  intro h
  obtain ⟨warnings, hwarnings, h⟩ := bind_eq_ok.mp h
  obtain ⟨⟨bytecode, after⟩, hspends, h⟩ := bind_eq_ok.mp h
  rw [pure_eq_ok] at h
  have hkips : ∀ r ∈ [] ++ ir.kipRequirements.filterMap recordForKip, r ∈ kipRecords := by
    intro record hrecord
    obtain ⟨kip, _, hkip⟩ := List.mem_filterMap.mp hrecord
    exact mem_kipRecords hkip
  obtain ⟨hpass, hgated⟩ := (collect_kips hkips).mp hwarnings
  obtain ⟨hground, hcode, hafter⟩ := compileSpends_eq_ok.mp hspends
  rw [← h]
  exact ⟨hpass, hground, hcode, hafter.symm.trans hgated.symm⟩

theorem kipRequirements_of_compileToccata {artifact : CompiledArtifact}
    (h : compileToccata sha256 source ir version target = .ok artifact) :
    artifact.kipRequirements = ir.kipRequirements := by
  obtain ⟨warnings, _, h⟩ := bind_eq_ok.mp h
  obtain ⟨⟨bytecode, after⟩, _, h⟩ := bind_eq_ok.mp h
  rw [pure_eq_ok] at h
  rw [← h]

theorem compileToccata_isOk
    (hpass : ∀ record ∈ ir.kipRequirements.filterMap recordForKip, record.Passes target)
    (hground : ∀ instruction ∈ ir.instructions, isUnsupported instruction.kind = false)
    (hcode : ∃ bytecode, compileInstructionSequence ir.instructions = .ok bytecode) :
    ∃ artifact, compileToccata sha256 source ir version target = .ok artifact := by
  obtain ⟨bytecode, hcode⟩ := hcode
  have hkips : ∀ r ∈ [] ++ ir.kipRequirements.filterMap recordForKip, r ∈ kipRecords := by
    intro record hrecord
    obtain ⟨kip, _, hkip⟩ := List.mem_filterMap.mp hrecord
    exact mem_kipRecords hkip
  let gated := gatedWarnings (ir.kipRequirements.filterMap recordForKip)
  have hwarnings : (ir.kipRequirements.filterMap recordForKip).foldlM (collectGrounding target) [] =
      .ok gated := (collect_kips hkips).mpr ⟨hpass, rfl⟩
  have hspends : compileSpends target gated (ir.contracts.flatMap IrContract.spends) =
      .ok (bytecode, gated) := compileSpends_eq_ok.mpr ⟨hground, hcode, rfl⟩
  unfold compileToccata
  rw [hwarnings, Library.ok_bind, hspends]
  exact ⟨_, rfl⟩

end

theorem compileInstructionSequence_isOk {instructions : List Instruction}
    (hsized : ∀ instruction ∈ instructions, instruction.kind.MachineSized) :
    (∃ bytecode, compileInstructionSequence instructions = .ok bytecode) ↔
      ∀ instruction ∈ instructions,
        isUnsupported instruction.kind = false ∧ instruction.kind.OperandFits := by
  unfold compileInstructionSequence
  rw [joinAll_isOk, List.forall_mem_map]
  constructor
  · intro h instruction hmem
    exact (encodeInstruction_isOk (hsized instruction hmem)).mp (h instruction hmem)
  · intro h instruction hmem
    exact (encodeInstruction_isOk (hsized instruction hmem)).mpr (h instruction hmem)

/-- A program compiles exactly when the target admits it; the warnings are those of its gated
requirements and the bytes those of its instructions. Once grounding has succeeded the encoder
meets no instruction that it refuses. -/
theorem compileToccata_exact (sha256 : Bytes → Bytes) (source : String) (ir : IrProgram)
    (version : String) (target : Target)
    (hsized : ∀ instruction ∈ ir.instructions, instruction.kind.MachineSized) :
    ((∃ artifact, compileToccata sha256 source ir version target = .ok artifact) ↔
      ir.Admitted target) ∧
    (∀ artifact, compileToccata sha256 source ir version target = .ok artifact →
      artifact.warnings = gatedWarnings (ir.kipRequirements.filterMap recordForKip) ∧
      (target = .verifiedTn12 ∨ target = .futureMainnet → artifact.warnings = []) ∧
      joinAll (ir.instructions.map encodeInstruction) = .ok artifact.bytecode) ∧
    ∀ warnings after instructions,
      collectInstructionGrounding target warnings instructions = .ok after →
      ∀ instruction ∈ instructions, ∀ id citation message,
        encodeInstruction instruction ≠ .error (.unsupportedGrounding id citation message) := by
  refine ⟨⟨?_, ?_⟩, ?_, ?_⟩
  · intro ⟨artifact, h⟩
    obtain ⟨hpass, hground, hcode, _⟩ := compileToccata_eq_ok h
    have hencodes := (compileInstructionSequence_isOk hsized).mp ⟨_, hcode⟩
    constructor
    · intro instruction hmem
      exact grounded_iff.mpr (hground instruction hmem)
    · exact kips_pass_iff.mp hpass
    · intro instruction hmem
      exact (hencodes instruction hmem).2
  · intro h
    have hground : ∀ instruction ∈ ir.instructions, isUnsupported instruction.kind = false := by
      intro instruction hmem
      exact grounded_iff.mp (h.grounded instruction hmem)
    apply compileToccata_isOk (kips_pass_iff.mpr h.kips) hground
    apply (compileInstructionSequence_isOk hsized).mpr
    intro instruction hmem
    exact ⟨hground instruction hmem, h.operands instruction hmem⟩
  · intro artifact h
    obtain ⟨hpass, _, hcode, hwarnings⟩ := compileToccata_eq_ok h
    refine ⟨hwarnings, ?_, hcode⟩
    intro htarget
    have hstrict : target.allowsGatedWarnings = false := by
      rcases htarget with rfl | rfl <;> rfl
    have hnone : (ir.kipRequirements.filterMap recordForKip).filter
        (fun record => record.status = .gated) = [] := by
      apply List.filter_eq_nil_iff.mpr
      intro record hrecord
      have hpassed := hpass record hrecord
      simp only [GroundingRecord.Passes, hstrict] at hpassed
      simp [hpassed.resolve_right (by simp)]
    rw [hwarnings, gatedWarnings, hnone]
    rfl
  · intro warnings after instructions h instruction hmem id citation message
    obtain ⟨hground, _⟩ := collectInstructionGrounding_eq_ok.mp h
    exact encodeInstruction_grounded (hground instruction hmem) id citation message

/-- One spend that pushes a number and checks it, under a gated requirement. -/
def gatedIr : IrProgram where
  contracts := [⟨"Vault", [], some 10, [⟨"claim", [],
    [⟨⟨0, 1⟩, .push (.integer 17)⟩, ⟨⟨0, 1⟩, .verify⟩]⟩]⟩]
  kipRequirements := [10, 20]
  application := ⟨[]⟩

theorem compileToccata_exact_gatedIr :
    ∃ artifact, compileToccata id "" gatedIr "0.1.0" .tn10Toccata = .ok artifact ∧
      artifact.warnings.map GroundingWarning.id = ["kip-20"] ∧
      artifact.bytecode = [1, 17, opVerify] := by
  have hsized : ∀ instruction ∈ gatedIr.instructions, instruction.kind.MachineSized := by
    intro instruction hmem
    simp only [gatedIr, IrProgram.instructions, spendInstructions, List.flatMap_cons,
      List.flatMap_nil, List.append_nil, List.mem_cons, List.not_mem_nil, or_false] at hmem
    rcases hmem with rfl | rfl <;> trivial
  have hexact := compileToccata_exact id "" gatedIr "0.1.0" .tn10Toccata hsized
  have hadmitted : gatedIr.Admitted .tn10Toccata := by
    constructor
    · decide +kernel
    · intro kip hkip record hrecord
      simp only [gatedIr, List.mem_cons, List.not_mem_nil, or_false] at hkip
      rcases hkip with rfl | rfl
      · exact Or.inl (by cases hrecord; rfl)
      · exact Or.inr ⟨by cases hrecord; rfl, rfl⟩
    · intro instruction hmem
      simp only [gatedIr, IrProgram.instructions, spendInstructions, List.flatMap_cons,
        List.flatMap_nil, List.append_nil, List.mem_cons, List.not_mem_nil, or_false] at hmem
      rcases hmem with rfl | rfl
      · simp [InstructionKind.OperandFits, i64Max]
      · trivial
  obtain ⟨artifact, hartifact⟩ := hexact.1.mpr hadmitted
  obtain ⟨hwarnings, _, hbytes⟩ := hexact.2.1 artifact hartifact
  refine ⟨artifact, hartifact, ?_, ?_⟩
  · rw [hwarnings]
    decide +kernel
  · have hcode : joinAll (gatedIr.instructions.map encodeInstruction) = .ok [1, 17, opVerify] := by
      decide +kernel
    rw [hcode] at hbytes
    exact (Except.ok.inj hbytes).symm

end KaspaScript
