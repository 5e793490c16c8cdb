import KaspaScript.Meaning.CleanStack
import KaspaScript.Meaning.Require

namespace KaspaScript

open Library (joinAll joinAll_cons bind_eq_ok pure_eq_ok run_append)

/-- A body that only requires, each time something that the fragment covers. -/
def RequireBody (Γ : Declared) (body : List Stmt) : Prop :=
  ∀ stmt ∈ body, ∃ e span, stmt = .require e span ∧ RequireFragment Γ e

/-- The readings of the script engine: its transaction, and locks as the lock opcode reads them. -/
def ScriptEnv.context (env : ScriptEnv) (value : String → Val) : Context :=
  ⟨env, value, fun n => lockReached env (lockReading n)⟩

section

variable {file : String} {Γ : Declared} {env : ScriptEnv} {value : String → Val}

/-- A statement of the fragment passes exactly when its condition is true. -/
theorem run_require (htx : Admissible env.populated) (hvalue : Assigns Γ value) {e : Expr}
    (hfragment : RequireFragment Γ e) {span : Span} {code : List Instruction}
    (h : lowerStmt file (.require e span) = .ok code) :
    Runnable code ∧ ∀ stack, runOpcodes env (boundAll value code) stack =
      if (env.context value).eval e = some (.bool true) then some stack else none := by
  have hpreserved : Preserved (env.context value) file e .bool :=
    preserved_require hvalue htx (fun n => rfl) hfragment
  obtain ⟨c, hc, hrunnable, hcomputes⟩ := hpreserved.lowers
  obtain ⟨c', hc', h⟩ := bind_eq_ok.mp h
  obtain rfl := pure_eq_ok.mp h
  obtain rfl := Except.ok.inj (hc.symm.trans hc')
  refine ⟨hrunnable.append (runnable_emit ⟨_, rfl⟩), ?_⟩
  intro stack
  have hstack : runOpcodes env (boundAll value c) stack =
      ((env.context value).eval e).map fun v => v.push stack := hcomputes stack
  rw [boundAll_append, boundAll_emit, runOpcodes, run_append]
  change (runOpcodes env (boundAll value c) stack).bind (runOpcodes env [.verify]) = _
  rw [hstack]
  cases heval : (env.context value).eval e with
  | none => simp
  | some v =>
    obtain ⟨b, rfl⟩ := Val.eq_bool (hpreserved.hasTy v heval)
    simp only [Option.map_some, Option.bind_some, Val.push_bool, runOpcodes_verify]
    cases b <;> simp

/-- A body of the fragment passes exactly when all its conditions are true, and leaves the stack as
it was. -/
theorem run_body (htx : Admissible env.populated) (hvalue : Assigns Γ value) {body : List Stmt}
    (hbody : RequireBody Γ body) {code : List Instruction}
    (h : joinAll (body.map (lowerStmt file)) = .ok code) :
    Runnable code ∧ ∀ stack, runOpcodes env (boundAll value code) stack =
      if ∀ stmt ∈ body, (env.context value).eval stmt.expr = some (.bool true) then some stack
      else none := by
  induction body generalizing code with
  | nil =>
    obtain rfl := Except.ok.inj h
    exact ⟨Runnable.nil, fun stack => by simp [boundAll, kinds, runOpcodes]⟩
  | cons stmt body ih =>
    obtain ⟨⟨e, span, rfl, hfragment⟩, hrest⟩ := List.forall_mem_cons.mp hbody
    obtain ⟨first, others, hfirst, hothers, rfl⟩ := joinAll_cons.mp h
    obtain ⟨hrunnable, hrun⟩ := run_require htx hvalue hfragment hfirst
    obtain ⟨hrunnable', hrun'⟩ := ih hrest hothers
    refine ⟨hrunnable.append hrunnable', ?_⟩
    intro stack
    rw [boundAll_append, runOpcodes, run_append]
    change (runOpcodes env (boundAll value first) stack).bind (runOpcodes env _) = _
    rw [hrun stack]
    simp only [List.forall_mem_cons, Stmt.expr]
    by_cases htrue : (env.context value).eval e = some (.bool true)
    · rw [if_pos htrue, Option.bind_some]
      simp only [htrue, true_and]
      exact hrun' stack
    · rw [if_neg htrue, Option.bind_none, if_neg fun hall => htrue hall.1]

end

end KaspaScript
