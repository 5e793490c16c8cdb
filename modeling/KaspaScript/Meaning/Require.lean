import KaspaScript.Meaning.Preservation

namespace KaspaScript

open Library (joinAll joinAll_cons matchInOrder_eq run_append run_cons)
open Library.ScriptNum (encode)

section

variable {cx : Context} {file : String} {Γ : Declared}

theorem runOpcodes_lock {env : ScriptEnv} {n : Int} (h : NumFits n) (stack : Stack) :
    runOpcodes env [.checkLockTimeVerify, .push (boolBytes true)] (encode n :: stack) =
      if lockReached env (lockReading n) then some (boolBytes true :: stack) else none := by
  simp only [runOpcodes, run_cons, Library.run_nil, execOpcode, lockSatisfied_encode env h]
  split_ifs <;> rfl

/-- A lock comparison leaves true or aborts, whichever of its two forms it is lowered to. -/
theorem preserved_lock {root field : Ident} {bound : Expr} {span span' : Span}
    (hlock : ∀ n, cx.lock n = lockReached cx.env (lockReading n)) (hroot : root.name = "block")
    (hfield : field.name = "height" ∨ field.name = "time") (hb : Preserved cx file bound .num) :
    Preserved cx file (.binary (.field (.ident root) field span) .greaterEqual bound span')
      .bool := by
  have hread : isLockRead (.field (.ident root) field span) = true := by
    simp [isLockRead, hroot, hfield]
  obtain ⟨clock, hclock⟩ : ∃ clock,
      lockClock (.field (.ident root) field span) .greaterEqual = some clock := by
    rcases hfield with hfield | hfield
    · exact ⟨.height, by simp [lockClock, isPath, collectPath, LockClock.path, hroot, hfield]⟩
    · exact ⟨.time, by simp [lockClock, isPath, collectPath, LockClock.path, hroot, hfield]⟩
  have heval : cx.eval (.binary (.field (.ident root) field span) .greaterEqual bound span') =
      (cx.eval bound).bind cx.evalLock := by
    rw [Context.eval, if_pos ⟨rfl, hread⟩]
  obtain ⟨code, hcode, hrunnable, hcomp⟩ := hb.lowers
  have hstack : boundOpcodes cx.value clock.fromStack =
      [.checkLockTimeVerify, .push (boolBytes true)] := by
    cases clock <;> rfl
  constructor
  · -- the literal form pushes the bound itself, the other one finds it on the stack
    obtain ⟨code', hlower, hrunnable', hops⟩ : ∃ code',
        lowerExpr file (.binary (.field (.ident root) field span) .greaterEqual bound span') =
          .ok code' ∧ Runnable code' ∧
        boundAll cx.value code' =
          boundAll cx.value code ++ [.checkLockTimeVerify, .push (boolBytes true)] := by
      rw [lowerExpr, lowerBinary, lowerSpecialBinary_eq, hclock]
      cases bound with
      | integer value spanBound =>
        simp only [lowerExpr, Except.ok.injEq] at hcode
        have hvalue : value ≤ i64Max := by
          obtain ⟨part, hpart⟩ := (hrunnable ⟨spanBound, .push (.integer value)⟩
            (by rw [← hcode]; exact List.mem_singleton.mpr rfl)).resolve_left (by simp)
          by_contra hlarge
          simp [encodeInstruction, encodePush, encodeU64, Nat.lt_of_not_le hlarge] at hpart
        refine ⟨_, rfl, runnable_emit ?_, ?_⟩
        · cases clock <;> exact encodeU64_then_ok [opCheckLockTimeVerify, op1] hvalue
        · rw [← hcode, boundAll_emit, boundAll_emit]
          cases clock <;> rfl
      | _ =>
        refine ⟨code ++ emit span' clock.fromStack, ?_,
          hrunnable.append (runnable_emit ?_), ?_⟩
        · simp [lowerLock, hcode, pure, Except.pure]
        · cases clock <;> exact ⟨_, rfl⟩
        · rw [boundAll_append, boundAll_emit, hstack]
    refine ⟨code', hlower, hrunnable', ?_⟩
    rw [heval, hops]
    apply hcomp.unary
    intro a ha stack
    obtain ⟨n, rfl, hn⟩ := Val.eq_num (hb.hasTy a ha)
    rw [Val.push_num, runOpcodes_lock hn, Context.evalLock, hlock]
    split_ifs <;> rfl
  · intro v hv
    rw [heval] at hv
    obtain ⟨a, ha, hv⟩ := Option.bind_eq_some_iff.mp hv
    obtain ⟨n, rfl, hn⟩ := Val.eq_num (hb.hasTy a ha)
    rw [Context.evalLock] at hv
    split_ifs at hv
    rw [Option.some.injEq] at hv
    rw [← hv]
    trivial

theorem preserved_require (hvalue : Assigns Γ cx.value) (htx : Admissible cx.env.populated)
    (hlock : ∀ n, cx.lock n = lockReached cx.env (lockReading n)) {e : Expr}
    (h : RequireFragment Γ e) : Preserved cx file e .bool := by
  induction h with
  | bool he => exact preserved_fragment hvalue htx he
  | lock hroot hfield hb =>
    exact preserved_lock hlock hroot hfield (preserved_fragment hvalue htx hb)
  | and _ _ ihl ihr =>
    refine preserved_logical (Or.inl rfl) ⟨?_, ?_⟩ ihl ihr
    · simp [lockClock]
    · simp

end

/-- One instruction with the parameters' values, run from its encoding. -/
def execInstruction (env : ScriptEnv) (value : String → Val) (instruction : Instruction)
    (stack : Stack) : Option Stack :=
  match instruction.kind with
  | .push (.symbol name) => some ((value name).push stack)
  | _ =>
      match encodeInstruction instruction with
      | .ok code => runScript env code stack
      | .error _ => none

def runInstructions (env : ScriptEnv) (value : String → Val) (code : List Instruction)
    (stack : Stack) : Option Stack :=
  Library.run (execInstruction env value) code stack

section

variable {env : ScriptEnv} {value : String → Val}

theorem runOpcodes_pushes (items : List Bytes) (stack : Stack) :
    runOpcodes env (items.map .push) stack = some (items.reverse ++ stack) := by
  induction items generalizing stack with
  | nil => rfl
  | cons data items ih =>
    rw [List.map_cons, runOpcodes, run_cons]
    change runOpcodes env (items.map .push) (data :: stack) = _
    rw [ih]
    simp

theorem Val.push_append (v : Val) (stack : Stack) : v.push stack = v.push [] ++ stack := by
  cases v <;> simp

/-- An instruction runs as its opcodes. -/
theorem execInstruction_eq {instruction : Instruction}
    (h : (∃ name, instruction.kind = .push (.symbol name)) ∨
      ∃ part, encodeInstruction instruction = .ok part) (stack : Stack) :
    execInstruction env value instruction stack =
      runOpcodes env (boundOpcodes value instruction.kind) stack := by
  obtain ⟨span, kind⟩ := instruction
  by_cases hsymbol : ∃ name, kind = .push (.symbol name)
  · obtain ⟨name, rfl⟩ := hsymbol
    change some ((value name).push stack) =
      runOpcodes env (((value name).push []).reverse.map .push) stack
    rw [runOpcodes_pushes, List.reverse_reverse, ← Val.push_append]
  · obtain ⟨part, hpart⟩ := h.resolve_left hsymbol
    have hrun : runScript env part stack = runOpcodes env (opcodes kind) stack := by
      rw [(encodes_instruction hpart).runScript_eq, plainOpcodes, runOps,
        Library.runBranching_plain]
      simp [runOpcodes]
    have hexec : execInstruction env value ⟨span, kind⟩ stack = runScript env part stack := by
      unfold execInstruction
      split
      · exact absurd ⟨_, by assumption⟩ hsymbol
      · rw [hpart]
    have hbound : boundOpcodes value kind = opcodes kind := by
      unfold boundOpcodes
      split
      · exact absurd ⟨_, rfl⟩ hsymbol
      · rfl
    rw [hexec, hbound, hrun]

theorem runInstructions_eq {code : List Instruction} (h : Runnable code) (stack : Stack) :
    runInstructions env value code stack = runOpcodes env (boundAll value code) stack := by
  induction code generalizing stack with
  | nil => rfl
  | cons first rest ih =>
    have hcons : boundAll value (first :: rest) =
        boundOpcodes value first.kind ++ boundAll value rest := by
      simp [boundAll, kinds]
    rw [hcons, runInstructions, run_cons, execInstruction_eq (h first (by simp)), runOpcodes,
      run_append]
    congr 1
    funext mid
    exact ih (fun instruction hmem => h instruction (by simp [hmem])) mid

theorem runOpcodes_verify (b : Bool) (stack : Stack) :
    runOpcodes env [.verify] (boolBytes b :: stack) = if b then some stack else none := by
  simp [runOpcodes, execOpcode]

end

/-- A transaction with one input and no outputs, every signature being valid. -/
def oneInputEnv (lockTime sequence : Nat) : ScriptEnv where
  populated := ⟨⟨1, [⟨⟨[], 0⟩, [], sequence, 1⟩], [], lockTime, 0⟩, []⟩
  inputIndex := 0
  checkSig := fun _ _ => true
  sha256 := id
  blake2b := id

def word (name : String) : Expr := .ident ⟨name, ⟨0, 0⟩⟩

end KaspaScript
