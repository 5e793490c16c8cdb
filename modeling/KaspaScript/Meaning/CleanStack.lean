import KaspaScript.Codegen.Compiled
import KaspaScript.Meaning.Threshold

namespace KaspaScript

open Library (StackEffect run joinAll joinAll_cons bind_eq_ok pure_eq_ok run_append)
open Library.ScriptNum (encode)
open Library.StackEffect (Local Within leaves local_one run_depth depth_zero_eq_some)

/-- What a statement does to the stack. The name of a binding is pushed behind its value. -/
def Stmt.effect : Stmt → StackEffect
  | .let _ e _ => e.effect * leaves 1
  | .require e _ => e.effect * ⟨1, 0⟩
  | .return e _ => e.effect

/-- What the body of a spend does to the stack, read off its source. -/
def Spend.effect (spend : Spend) : StackEffect := (spend.body.map Stmt.effect).prod

/-- The depth in which a spend script ends, counted with the arities of its instructions; none where
it would take an element that it did not push. -/
def finalDepth (code : List InstructionKind) : Option Nat :=
  run (fun kind => kind.effect.depth) (code ++ [.push (.bool true)]) 0

/-- What follows the expression of a statement. -/
def Stmt.closing : Stmt → List InstructionKind
  | .let name _ _ => [.push (.symbol name.name)]
  | .require _ _ => [.verify]
  | .return _ _ => []

theorem Stmt.effect_eq (stmt : Stmt) : stmt.effect = stmt.expr.effect * codeEffect stmt.closing := by
  cases stmt <;> simp [Stmt.effect, Stmt.closing, Stmt.expr, InstructionKind.effect]

section

variable {file : String}

theorem lowers_stmt {stmt : Stmt} {code : List Instruction} (h : lowerStmt file stmt = .ok code) :
    ∃ first, Lowers [stmt.expr] first ∧ kinds code = first ++ stmt.closing := by
  cases stmt with
  | «return» e span => exact ⟨kinds code, lowers_of_lowerExpr e code h, (List.append_nil _).symm⟩
  | _ =>
    obtain ⟨c, hc, h⟩ := bind_eq_ok.mp h
    rw [pure_eq_ok] at h
    exact ⟨kinds c, lowers_of_lowerExpr _ c hc, by simp [← h, Stmt.closing]⟩

theorem effect_of_body {body : List Stmt} {code : List Instruction}
    (h : joinAll (body.map (lowerStmt file)) = .ok code) :
    codeEffect (kinds code) = (body.map Stmt.effect).prod := by
  induction body generalizing code with
  | nil =>
    obtain rfl := Except.ok.inj h
    rfl
  | cons stmt rest ih =>
    obtain ⟨c, others, hc, hothers, rfl⟩ := joinAll_cons.mp h
    obtain ⟨first, hfirst, hclosed⟩ := lowers_stmt hc
    rw [kinds_append, codeEffect_append, ih hothers, hclosed, codeEffect_append,
      effect_of_lowers hfirst]
    simp [Stmt.effect_eq]

theorem finalDepth_eq_one {body : List Stmt} {code : List Instruction}
    (h : joinAll (body.map (lowerStmt file)) = .ok code) :
    finalDepth (kinds code) = some 1 ↔ (body.map Stmt.effect).prod = 1 := by
  have heffect : codeEffect (kinds code ++ [.push (.bool true)]) =
      (body.map Stmt.effect).prod * leaves 1 := by
    rw [codeEffect_append, effect_of_body h, codeEffect_singleton]
    rfl
  rw [finalDepth, run_depth, depth_zero_eq_some, ← codeEffect, heffect]
  constructor
  · intro heq
    obtain ⟨hpops, hpushes⟩ := (StackEffect.ext_iff).mp heq
    ext
    · simp only [StackEffect.pops_mul, leaves, StackEffect.pops_one] at hpops ⊢
      omega
    · simp only [StackEffect.pushes_mul, leaves, StackEffect.pushes_one] at hpushes ⊢
      omega
  · intro heq
    rw [heq, one_mul]

end

/-- A compiled spend script takes no element that it did not push and ends with exactly one exactly
when the statements of its source are balanced. -/
theorem cleanStack_iff (sha256 : Bytes → Bytes) (source file : String) (target : Target)
    (artifact : CompiledArtifact)
    (h : compileFileForTarget sha256 source file target = .ok artifact) :
    ∃ program, parseFile source file = .ok program ∧
      ForCompiled (fun _ spend _ compiled =>
        finalDepth (kinds compiled.instructions) = some 1 ↔ spend.effect = 1) program artifact := by
  obtain ⟨program, hparse, _, hcompiled⟩ := forCompiled_of_compile h
  refine ⟨program, hparse, hcompiled.imp ?_⟩
  intro contract _ spend _ compiledContract compiled hspend
  exact finalDepth_eq_one hspend.body

/-- One spend binds a name before it compares, the other only compares. -/
def letSource : String := "contract A\x7bparams\x7ba:Amount\x7dspend s()\x7blet f=a;require f==a;\x7dspend t()\x7brequire a==1;\x7d\x7d"

def letTokens : List Token :=
  [⟨.contract, 0, 8⟩, ⟨.identifier "A", 9, 10⟩, ⟨.leftBrace, 10, 11⟩, ⟨.params, 11, 17⟩,
    ⟨.leftBrace, 17, 18⟩, ⟨.identifier "a", 18, 19⟩, ⟨.colon, 19, 20⟩, ⟨.type .amount, 20, 26⟩,
    ⟨.rightBrace, 26, 27⟩, ⟨.spend, 27, 32⟩, ⟨.identifier "s", 33, 34⟩, ⟨.leftParen, 34, 35⟩,
    ⟨.rightParen, 35, 36⟩, ⟨.leftBrace, 36, 37⟩, ⟨.let, 37, 40⟩, ⟨.identifier "f", 41, 42⟩,
    ⟨.equal, 42, 43⟩, ⟨.identifier "a", 43, 44⟩, ⟨.semicolon, 44, 45⟩, ⟨.require, 45, 52⟩,
    ⟨.identifier "f", 53, 54⟩, ⟨.equalEqual, 54, 56⟩, ⟨.identifier "a", 56, 57⟩,
    ⟨.semicolon, 57, 58⟩, ⟨.rightBrace, 58, 59⟩, ⟨.spend, 59, 64⟩, ⟨.identifier "t", 65, 66⟩,
    ⟨.leftParen, 66, 67⟩, ⟨.rightParen, 67, 68⟩, ⟨.leftBrace, 68, 69⟩, ⟨.require, 69, 76⟩,
    ⟨.identifier "a", 77, 78⟩, ⟨.equalEqual, 78, 80⟩, ⟨.integer "1", 80, 81⟩,
    ⟨.semicolon, 81, 82⟩, ⟨.rightBrace, 82, 83⟩, ⟨.rightBrace, 83, 84⟩]

theorem lex_let : lexFile letSource "a.ks" = .ok letTokens := by
  decide +kernel

/-- The name that the binding pushes is never taken off again, and neither is its value. -/
theorem compile_let : ∃ artifact,
    compileFileForTarget (fun _ => []) letSource "a.ks" .verifiedTn12 = .ok artifact ∧
      artifact.contracts.map (fun contract => contract.spends.map fun spend =>
        finalDepth (kinds spend.instructions)) = [[some 3, some 1]] := by
  apply Library.toOption_map_eq_some
  rw [compileFileForTarget, lowerFile_of_lex lex_let]
  decide +kernel

theorem cleanStack_iff_let : ∃ artifact program,
    compileFileForTarget (fun _ => []) letSource "a.ks" .verifiedTn12 = .ok artifact ∧
      parseFile letSource "a.ks" = .ok program ∧
      ForCompiled (fun _ spend _ compiled =>
        finalDepth (kinds compiled.instructions) = some 1 ↔ spend.effect = 1) program artifact := by
  obtain ⟨artifact, hcompile, _⟩ := compile_let
  obtain ⟨program, hparse, hclean⟩ := cleanStack_iff (fun _ => []) letSource "a.ks" .verifiedTn12
    artifact hcompile
  exact ⟨artifact, program, hcompile, hparse, hclean⟩

section

variable {file : String} {env : ScriptEnv} {value : String → Value}

/-- A rule on effects goes over to the statements of a body. -/
theorem EffectRules.body {P : List InstructionKind → StackEffect → Prop} (rules : EffectRules P)
    {body : List Stmt} {code : List Instruction}
    (h : joinAll (body.map (lowerStmt file)) = .ok code) (hfed : AllFed (body.map Stmt.expr))
    (hsupported : ∀ kind ∈ kinds code, isUnsupported kind = false) :
    P (kinds code) (body.map Stmt.effect).prod := by
  induction body generalizing code with
  | nil =>
    obtain rfl := Except.ok.inj h
    exact rules.nil
  | cons stmt rest ih =>
    obtain ⟨c, others, hc, hothers, rfl⟩ := joinAll_cons.mp h
    obtain ⟨first, hfirst, hclosed⟩ := lowers_stmt hc
    rw [kinds_append, hclosed] at hsupported ⊢
    obtain ⟨hstmt, hrest⟩ := List.forall_mem_append.mp hsupported
    have heffect : stmt.expr.effect = codeEffect first := by simp [effect_of_lowers hfirst]
    rw [List.map_cons, List.prod_cons, Stmt.effect_eq, heffect]
    apply rules.append
    · apply rules.append
      · apply rules.lowers hfirst (hfed.sub (by simp +contextual))
        exact (List.forall_mem_append.mp hstmt).1
      · cases stmt with
        | «return» e span => exact rules.nil
        | _ =>
          rw [Stmt.closing, codeEffect_singleton]
          exact rules.single rfl rfl
    · exact ih hothers (hfed.sub (by simp +contextual)) hrest

/-- Some assignment of the parameters, in some transaction, satisfies the script of a spend. -/
def Spendable (compiled : ArtifactSpend) : Prop :=
  ∃ value env script, compileSpendScript (assignParams value compiled.instructions) = .ok script ∧
    accepts (runScript env script []) = true

theorem accepts_eq_true {out : Option Stack} (h : accepts out = true) : ∃ top, out = some [top] := by
  match out with
  | none | some [] | some (_ :: _ :: _) => cases h
  | some [top] => exact ⟨top, rfl⟩

theorem effect_of_accepted {body : List Stmt} {code : List Instruction} {script : Bytes}
    (hbody : joinAll (body.map (lowerStmt file)) = .ok code) (hfed : AllFed (body.map Stmt.expr))
    (hsupported : ∀ kind ∈ kinds code, isUnsupported kind = false)
    (hscript : compileSpendScript (assignParams value code) = .ok script)
    (haccepts : accepts (runScript env script []) = true) : (body.map Stmt.effect).prod = 1 := by
  obtain ⟨top, hrun⟩ := accepts_eq_true haccepts
  rw [runScript_spendScript hscript, kinds_assignParams, runOpcodes, run_append] at hrun
  obtain ⟨mid, hmid, hlast⟩ := Option.bind_eq_some_iff.mp hrun
  rw [Library.run_singleton, execOpcode, Option.some.injEq, List.cons.injEq] at hlast
  obtain ⟨hdeep, items, hitems, hstack⟩ := keepsTo_rules.body hbody hfed hsupported [] mid hmid
  rw [hlast.2] at hstack
  ext
  · simpa using hdeep
  · have hlength := congrArg List.length hstack
    simp only [List.length_nil, List.length_append, List.drop_nil] at hlength
    rw [StackEffect.pushes_one]
    omega

end

/-- An unbalanced spend can never be satisfied: where every key check is fed, a script of it is
accepted in some transaction, under some parameters, only if its statements are balanced. -/
theorem balanced_of_spendable (sha256 : Bytes → Bytes) (source file : String) (target : Target)
    (artifact : CompiledArtifact)
    (h : compileFileForTarget sha256 source file target = .ok artifact) :
    ∃ program, parseFile source file = .ok program ∧
      ForCompiled (fun _ spend _ compiled =>
        AllFed (spend.body.map Stmt.expr) → Spendable compiled → spend.effect = 1)
        program artifact := by
  obtain ⟨program, hparse, _, hcompiled⟩ := forCompiled_of_compile h
  refine ⟨program, hparse, hcompiled.imp ?_⟩
  intro contract _ spend _ compiledContract compiled hspend hfed hspendable
  obtain ⟨value, env, script, hscript, haccepts⟩ := hspendable
  exact effect_of_accepted hspend.body hfed hspend.supported hscript haccepts

theorem balanced_of_spendable_let : ∃ artifact program,
    compileFileForTarget (fun _ => []) letSource "a.ks" .verifiedTn12 = .ok artifact ∧
      parseFile letSource "a.ks" = .ok program ∧
      ForCompiled (fun _ spend _ compiled =>
        AllFed (spend.body.map Stmt.expr) → Spendable compiled → spend.effect = 1)
        program artifact := by
  obtain ⟨artifact, hcompile, _⟩ := compile_let
  obtain ⟨program, hparse, hbalanced⟩ := balanced_of_spendable (fun _ => []) letSource "a.ks"
    .verifiedTn12 artifact hcompile
  exact ⟨artifact, program, hcompile, hparse, hbalanced⟩

end KaspaScript
