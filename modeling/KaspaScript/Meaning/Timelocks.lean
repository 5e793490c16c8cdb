import KaspaScript.Ir.Timelocks
import KaspaScript.Meaning.Spends
import KaspaScript.Native.EscrowIr

namespace KaspaScript

open Library (joinAll joinAll_cons run_append run_cons)
open Library.ScriptNum (encode)

/-- The timelocks of a spend, statement after statement. -/
def Spend.timelocks (spend : Spend) : List Timelock :=
  spend.body.flatMap fun stmt => stmt.expr.timelocks

/-- The bound has a value, and the transaction's lock has reached it. -/
def Context.Reached (cx : Context) (lock : Timelock) : Prop :=
  ∃ n, cx.eval lock.bound = some (.num n) ∧ lockReached cx.env (lockReading n) = true

section

variable {file : String} {Γ : Declared} {env : ScriptEnv} {value : String → Val}

theorem timelocksKept_of_body {body : List Stmt} {code : List Instruction}
    (h : joinAll (body.map (lowerStmt file)) = .ok code) :
    TimelocksKept (body.flatMap fun stmt => stmt.expr.timelocks) (kinds code) := by
  induction body generalizing code with
  | nil =>
    obtain rfl := Except.ok.inj h
    exact .none rfl
  | cons stmt rest ih =>
    obtain ⟨c, others, hc, hothers, rfl⟩ := joinAll_cons.mp h
    obtain ⟨first, hfirst, hclosed⟩ := lowers_stmt hc
    have hkept : TimelocksKept stmt.expr.timelocks first := by
      simpa using timelocksKept_of_lowers hfirst
    have hclosing : TimelocksKept [] stmt.closing := .none (by cases stmt <;> rfl)
    rw [kinds_append, hclosed]
    simpa using (hkept.append hclosing).append (ih hothers)

/-- Every stretch of straight-line code is run. -/
theorem run_stretch {before stretch after : List InstructionKind} {stack out : Stack}
    (h : runOpcodes env ((before ++ stretch ++ after).flatMap (boundOpcodes value)) stack =
      some out) :
    ∃ mid mid', runOpcodes env (stretch.flatMap (boundOpcodes value)) mid = some mid' := by
  rw [List.flatMap_append, List.flatMap_append, runOpcodes, run_append, run_append] at h
  obtain ⟨mid', hmid', _⟩ := Option.bind_eq_some_iff.mp h
  obtain ⟨mid, _, hmid⟩ := Option.bind_eq_some_iff.mp hmid'
  exact ⟨mid, mid', hmid⟩

theorem lockReached_of_run {n : Int} (hn : NumFits n) {stack out : Stack}
    (h : runOpcodes env [.checkLockTimeVerify, .push (boolBytes true)] (encode n :: stack) =
      some out) : lockReached env (lockReading n) = true := by
  rw [runOpcodes_lock hn] at h
  split_ifs at h with hreached
  exact hreached

/-- The code of a timelock passes only where its lock is reached. -/
theorem reached_of_checksLock (htx : Admissible env.populated) (hvalue : Assigns Γ value)
    {lock : Timelock} {code : List InstructionKind} (hchecks : ChecksLock lock code)
    (hbound : Fragment Γ lock.bound .num) {stack out : Stack}
    (h : runOpcodes env (code.flatMap (boundOpcodes value)) stack = some out) :
    (env.context value).Reached lock := by
  have hpreserved : Preserved (env.context value) "" lock.bound .num :=
    preserved_fragment hvalue htx hbound
  cases hchecks with
  | @literal clock literal span =>
    cases hbound with
    | integer hfits =>
      have hcode : [clock.literal literal].flatMap (boundOpcodes value) =
          [.push (encode literal)] ++ [.checkLockTimeVerify, .push (boolBytes true)] := by
        cases clock <;> rfl
      rw [hcode, runOpcodes, run_append] at h
      exact ⟨literal, rfl, lockReached_of_run (numFits_of_le hfits) h⟩
  | @fromStack clock bound code hliteral hlowers =>
    obtain ⟨c, hc, _, hcomputes⟩ := hpreserved.lowers
    have hkinds : kinds c = code :=
      kinds_of_lowers hlowers c (@joinAll_lowerEach_singleton "" bound ▸ hc)
    have hcode : [clock.fromStack].flatMap (boundOpcodes value) =
        [.checkLockTimeVerify, .push (boolBytes true)] := by
      cases clock <;> rfl
    rw [List.flatMap_append, hcode, runOpcodes, run_append, ← hkinds] at h
    obtain ⟨mid, hmid, hlast⟩ := Option.bind_eq_some_iff.mp h
    have hrun : ((env.context value).eval bound).map (fun v => v.push stack) = some mid :=
      (hcomputes stack).symm.trans hmid
    obtain ⟨v, heval, rfl⟩ := Option.map_eq_some_iff.mp hrun
    obtain ⟨n, rfl, hn⟩ := Val.eq_num (hpreserved.hasTy v heval)
    exact ⟨n, heval, lockReached_of_run hn hlast⟩

/-- A run that does not fail has encoded every instruction that it passed. -/
theorem runnable_of_run {code : List Instruction} {stack out : Stack}
    (h : runInstructions env value code stack = some out) : Runnable code := by
  induction code generalizing stack with
  | nil => exact .nil
  | cons instruction rest ih =>
    obtain ⟨mid, hmid, hrest⟩ := Option.bind_eq_some_iff.mp h
    intro other hmem
    rcases List.mem_cons.mp hmem with rfl | hmem
    · unfold execInstruction at hmid
      split at hmid
      · exact Or.inl ⟨_, by assumption⟩
      · split at hmid
        · exact Or.inr ⟨_, by assumption⟩
        · cases hmid
    · exact ih hrest other hmem

end

/-- The code of a spend checks each of its timelocks and no other lock, and runs to its end only
where all of them are reached. -/
structure TimelocksEnforced (spend : Spend) (code : List Instruction) : Prop where
  checks : (kinds code).filter InstructionKind.isLockCheck = spend.timelocks.map Timelock.check
  reached : ∀ Γ env value stack out, Admissible env.populated → Assigns Γ value →
    runInstructions env value code stack = some out →
    ∀ lock ∈ spend.timelocks, Fragment Γ lock.bound .num → (env.context value).Reached lock

theorem timelocksEnforced_of_body {file : String} {spend : Spend} {code : List Instruction}
    (h : joinAll (spend.body.map (lowerStmt file)) = .ok code) : TimelocksEnforced spend code := by
  have hkept : TimelocksKept spend.timelocks (kinds code) := timelocksKept_of_body h
  refine ⟨hkept.checks, ?_⟩
  intro Γ env value stack out htx hvalue hrun lock hlock hbound
  obtain ⟨before, stretch, after, hcode, hchecks⟩ := hkept.stretches lock hlock
  rw [runInstructions_eq (runnable_of_run hrun), boundAll, hcode] at hrun
  obtain ⟨mid, mid', hstretch⟩ := run_stretch hrun
  exact reached_of_checksLock htx hvalue hchecks hbound hstretch

/-- No timelock that is lowered is dropped: wherever it stands, below a negation, in a branch of a
disjunction or in an argument, a run of the spend that does not fail has reached it. -/
theorem timelocks_enforced (sha256 : Bytes → Bytes) (source file : String) (target : Target)
    (artifact : CompiledArtifact)
    (h : compileFileForTarget sha256 source file target = .ok artifact) :
    ∃ program, parseFile source file = .ok program ∧
      ForCompiled (fun _ spend _ compiled => TimelocksEnforced spend compiled.instructions)
        program artifact := by
  obtain ⟨program, hparse, _, hcompiled⟩ := forCompiled_of_compile h
  refine ⟨program, hparse, hcompiled.imp ?_⟩
  intro contract _ spend _ compiledContract compiled hspend
  exact timelocksEnforced_of_body hspend.body

/-- The escrow's refund has one timelock, its release has none. -/
theorem compile_escrow : ∃ artifact,
    compileFileForTarget (fun _ => []) escrowSource escrowFile .verifiedTn12 = .ok artifact ∧
      artifact.contracts.map (fun contract => contract.spends.map fun spend =>
        (kinds spend.instructions).filter InstructionKind.isLockCheck) =
          [[[], [.checkLockHeightFromStack]]] := by
  apply Library.toOption_map_eq_some
  rw [compileFileForTarget, lowerFile_of_lex lex_escrow]
  decide +kernel

theorem timelocks_enforced_escrow : ∃ artifact program,
    compileFileForTarget (fun _ => []) escrowSource escrowFile .verifiedTn12 = .ok artifact ∧
      parseFile escrowSource escrowFile = .ok program ∧
      ForCompiled (fun _ spend _ compiled => TimelocksEnforced spend compiled.instructions)
        program artifact := by
  obtain ⟨artifact, hcompile, _⟩ := compile_escrow
  obtain ⟨program, hparse, henforced⟩ := timelocks_enforced (fun _ => []) escrowSource escrowFile
    .verifiedTn12 artifact hcompile
  exact ⟨artifact, program, hcompile, hparse, henforced⟩

end KaspaScript
