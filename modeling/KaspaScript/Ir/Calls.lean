import KaspaScript.Ir.Effects

namespace KaspaScript

open Checker

/-- The checks that a script makes on signatures and hashes. -/
inductive CheckKind where
  | verify | multisig | sha256 | blake2b | hash160
  deriving DecidableEq, Repr

namespace CheckKind

def name : CheckKind → String
  | .verify => "verify"
  | .multisig => "multisig"
  | .sha256 => "sha256"
  | .blake2b => "blake2b"
  | .hash160 => "hash160"

/-- A call node of the check: `.verify(..)` on a receiver, the others by their name. -/
def isCall (check : CheckKind) : Expr → Bool
  | .call (.field _ field _) _ _ => check == .verify && field.name == check.name
  | .call (.ident id) _ _ => check != .verify && id.name == check.name
  | _ => false

/-- The instruction of the check. -/
def counts : CheckKind → InstructionKind → Bool
  | .verify, .checkSig _ => true
  | .multisig, .checkMultiSig _ _ => true
  | .sha256, .sha256 => true
  | .blake2b, .blake2b => true
  | .hash160, .hash160 => true
  | _, _ => false

/-- The call nodes of the check in a list of expressions. -/
def callCount (check : CheckKind) (es : List Expr) : Nat := (allNodes es).countP check.isCall

end CheckKind

mutual

/-- The parts of an expression that lowering passes over: the left side of a lock comparison, and
the object of a field that has an instruction of its own. -/
def Expr.dropped : Expr → List Expr
  | .ident _ | .integer _ _ | .string _ _ | .bool _ _ => []
  | .array elements _ => droppedEach elements
  | .unary _ expr _ => Expr.dropped expr
  | .binary left op right _ =>
      (if (lockClock left op).isSome then [left] else Expr.dropped left) ++ Expr.dropped right
  | .call callee args _ =>
      (match callee with
        | .field object field span =>
            if field.name = "verify" then Expr.dropped object
            else Expr.dropped (.field object field span)
        | callee => Expr.dropped callee) ++ droppedEach args
  | .field object field _ =>
      if (fieldBuiltin object field.name).isSome then [object] else Expr.dropped object

def droppedEach : List Expr → List Expr
  | [] => []
  | expr :: rest => Expr.dropped expr ++ droppedEach rest

end

attribute [grind =] Expr.dropped droppedEach

theorem allNodes_append (xs ys : List Expr) : allNodes (xs ++ ys) = allNodes xs ++ allNodes ys := by
  induction xs with
  | nil => rfl
  | cons x xs ih => rw [List.cons_append, allNodes, allNodes, ih, List.append_assoc]

section

variable {check : CheckKind}

@[simp] theorem callCount_nil : check.callCount [] = 0 := rfl

theorem callCount_append (xs ys : List Expr) :
    check.callCount (xs ++ ys) = check.callCount xs + check.callCount ys := by
  rw [CheckKind.callCount, allNodes_append, List.countP_append]
  rfl

theorem callCount_cons (e : Expr) (es : List Expr) :
    check.callCount (e :: es) = check.callCount [e] + check.callCount es :=
  callCount_append [e] es

theorem callCount_eq_zero {es : List Expr} :
    check.callCount es = 0 ↔ ∀ e ∈ es, check.callCount [e] = 0 := by
  induction es with
  | nil => simp
  | cons e es ih => rw [callCount_cons, Nat.add_eq_zero_iff, ih, List.forall_mem_cons]

@[simp] theorem callCount_array (elements : List Expr) (span : Span) :
    check.callCount [.array elements span] = check.callCount elements := by
  simp [CheckKind.callCount, allNodes, Expr.nodes, CheckKind.isCall]

@[simp] theorem callCount_unary (op : UnaryOp) (e : Expr) (span : Span) :
    check.callCount [.unary op e span] = check.callCount [e] := by
  simp [CheckKind.callCount, allNodes, Expr.nodes, CheckKind.isCall]

@[simp] theorem callCount_binary (left : Expr) (op : BinaryOp) (right : Expr) (span : Span) :
    check.callCount [.binary left op right span] =
      check.callCount [left] + check.callCount [right] := by
  simp [CheckKind.callCount, allNodes, Expr.nodes, CheckKind.isCall]

@[simp] theorem callCount_field (object : Expr) (field : Ident) (span : Span) :
    check.callCount [.field object field span] = check.callCount [object] := by
  simp [CheckKind.callCount, allNodes, Expr.nodes, CheckKind.isCall]

theorem callCount_call (callee : Expr) (args : List Expr) (span : Span) :
    check.callCount [.call callee args span] =
      check.callCount [callee] + check.callCount args +
        if check.isCall (.call callee args span) then 1 else 0 := by
  simp [CheckKind.callCount, allNodes, Expr.nodes, List.countP_cons]

@[simp] theorem callCount_ident (id : Ident) : check.callCount [.ident id] = 0 := by
  simp [CheckKind.callCount, allNodes, Expr.nodes, CheckKind.isCall]

@[simp] theorem callCount_integer (value : Nat) (span : Span) :
    check.callCount [.integer value span] = 0 := by
  simp [CheckKind.callCount, allNodes, Expr.nodes, CheckKind.isCall]

@[simp] theorem callCount_string (value : String) (span : Span) :
    check.callCount [.string value span] = 0 := by
  simp [CheckKind.callCount, allNodes, Expr.nodes, CheckKind.isCall]

@[simp] theorem callCount_bool (value : Bool) (span : Span) :
    check.callCount [.bool value span] = 0 := by
  simp [CheckKind.callCount, allNodes, Expr.nodes, CheckKind.isCall]

theorem droppedEach_append (xs ys : List Expr) :
    droppedEach (xs ++ ys) = droppedEach xs ++ droppedEach ys := by
  induction xs with
  | nil => rfl
  | cons x xs ih => rw [List.cons_append, droppedEach, droppedEach, ih, List.append_assoc]

theorem counts_binaryKind (op : BinaryOp) : check.counts (binaryKind op) = false := by
  cases op <;> cases check <;> rfl

theorem counts_fieldBuiltin {object : Expr} {field : String} {kind : InstructionKind}
    (h : fieldBuiltin object field = some kind) : check.counts kind = false := by
  unfold fieldBuiltin at h
  split at h
  · unfold indexedKind at h
    split at h <;> cases h <;> cases check <;> rfl
  · cases h
  · split_ifs at h <;> cases h <;> cases check <;> rfl

/-- The call counts as one exactly where its instruction does. -/
theorem counts_unaryBuiltin {id : Ident} {args : List Expr} {span : Span} {kind : InstructionKind}
    (h : unaryBuiltin id.name = some kind) :
    check.counts kind = check.isCall (.call (.ident id) args span) := by
  unfold unaryBuiltin at h
  split at h <;> cases h <;> cases check <;> simp [CheckKind.counts, CheckKind.isCall,
    CheckKind.name, *]

theorem isCall_other {callee : Expr} {args : List Expr} {span : Span}
    (h : isBuiltinCallee callee = false) : check.isCall (.call callee args span) = false := by
  cases callee with
  | field object field span' =>
    have hfield : field.name ≠ "verify" := by simpa [isBuiltinCallee] using h
    cases check <;> simp [CheckKind.isCall, CheckKind.name, hfield]
  | ident id =>
    have hname : id.name ∉ builtinCallNames := by simpa [isBuiltinCallee] using h
    simp only [builtinCallNames, List.mem_cons, List.not_mem_nil, or_false, not_or] at hname
    cases check <;> simp [CheckKind.isCall, CheckKind.name, hname]
  | _ => rfl

theorem dropped_call {callee : Expr} {args : List Expr} {span : Span}
    (h : isBuiltinCallee callee = false) :
    (Expr.call callee args span).dropped = callee.dropped ++ droppedEach args := by
  cases callee with
  | field object field span' =>
    have hfield : field.name ≠ "verify" := by simpa [isBuiltinCallee] using h
    rw [Expr.dropped, if_neg hfield]
  | _ => simp [Expr.dropped]

theorem callCount_outputCall {output : Expr} {index : Nat}
    (h : outputCallIndex output = some index) : check.callCount [output] = 0 := by
  unfold outputCallIndex at h
  split at h
  · split_ifs at h with hroot
    rw [callCount_call, callCount_ident, callCount_integer]
    cases check <;> simp [CheckKind.isCall, CheckKind.name, hroot.1]
  · cases h

@[simp] theorem droppedEach_singleton (e : Expr) : droppedEach [e] = e.dropped := by
  simp [droppedEach]

/-- Looked at by the checker, or a bare name. -/
def Visited (cx : Checker) (scope : Scope) (e : Expr) : Prop :=
  cx.Accepts scope e ∨ ∃ id, e = .ident id

variable {cx : Checker} {scope : Scope}

theorem Visited.accepts {e : Expr} (h : Visited cx scope e) (hident : ∀ id, e ≠ .ident id) :
    cx.Accepts scope e := by
  rcases h with h | ⟨id, rfl⟩
  · exact h
  · exact absurd rfl (hident id)

theorem Visited.call {callee : Expr} {args : List Expr} {span : Span}
    (h : Visited cx scope (.call callee args span)) : CallForm cx scope callee args :=
  callForm_of_accepts (h.accepts (by simp))

theorem Visited.object {object : Expr} {field : Ident} {span : Span}
    (h : Visited cx scope (.field object field span)) : Visited cx scope object := by
  cases fieldForm_of_accepts (h.accepts (by simp)) with
  | access _ hobject _ => exact Or.inl hobject
  | _ => exact Or.inr ⟨_, rfl⟩

theorem indexArgs {id : Ident} {args : List Expr} (h : CallForm cx scope (.ident id) args)
    (hid : id.name = "input" ∨ id.name = "output") : ∃ value span, args = [.integer value span] := by
  cases h with
  | index _ _ => exact ⟨_, _, rfl⟩
  | _ => grind [isBuiltinCallee, builtinCallNames]

theorem continuationArgs {id : Ident} {args : List Expr} (h : CallForm cx scope (.ident id) args)
    (hid : id.name = "continuation") :
    ∃ label span output index, args = [.string label span, output] ∧
      outputCallIndex output = some index := by
  cases h with
  | continuation _ _ houtput => exact ⟨_, _, _, _, rfl, houtput⟩
  | _ => grind [isBuiltinCallee, builtinCallNames]

theorem multisigArgs {id : Ident} {args : List Expr} (h : CallForm cx scope (.ident id) args)
    (hid : id.name = "multisig") :
    ∃ required span keys signatures, args = [.integer required span, keys, signatures] ∧
      (∀ elements span', keys = .array elements span' → required ≤ elements.length) ∧
      cx.Accepts scope keys ∧ cx.Accepts scope signatures := by
  cases h with
  | multisig _ hle hkeys hsignatures => exact ⟨_, _, _, _, rfl, hle, hkeys, hsignatures⟩
  | _ => grind [isBuiltinCallee, builtinCallNames]

theorem unaryArgs {id : Ident} {args : List Expr} {kind : InstructionKind}
    (h : CallForm cx scope (.ident id) args) (hid : unaryBuiltin id.name = some kind) :
    ∃ arg, args = [arg] ∧ cx.Accepts scope arg := by
  have hname := (unaryBuiltin_effect hid).2
  cases h with
  | proof _ hproof _ => exact ⟨_, rfl, hproof⟩
  | hash _ harg => exact ⟨_, rfl, harg⟩
  | _ => grind [isBuiltinCallee, builtinCallNames]

/-- Every call is lowered to its instruction, except those in the parts that are passed over. -/
theorem count_of_lowers (check : CheckKind) {es : List Expr} {code : List InstructionKind} (h : Lowers es code)
    (hes : ∀ e ∈ es, Visited cx scope e) :
    code.countP check.counts + check.callCount (droppedEach es) = check.callCount es := by
  have single {e : Expr} (he : cx.Accepts scope e) : ∀ e' ∈ [e], Visited cx scope e' := by
    intro e' he'
    rw [List.mem_singleton.mp he']
    exact Or.inl he
  induction h with
  | nil => rfl
  | @cons e es code rest _ _ ihe ihes =>
    have he := ihe (by simpa using hes e (by simp))
    have hrest := ihes fun e' he' => hes e' (by simp [he'])
    rw [droppedEach_singleton] at he
    rw [List.countP_append, droppedEach, callCount_append, callCount_cons]
    omega
  | inputCount _ | outputCount _ | symbol _ _ | integer | string | bool =>
    cases check <;> simp [Expr.dropped, CheckKind.counts]
  | array _ ih =>
    have hself := List.forall_mem_singleton.mp hes
    have helements := ih fun e he => Or.inl (accepts_array.mp (hself.accepts (by simp)) e he)
    simpa [Expr.dropped] using helements
  | not _ ih =>
    have hself := List.forall_mem_singleton.mp hes
    have hinner := ih (single (accepts_unary (hself.accepts (by simp))).1)
    cases check <;> simpa [Expr.dropped, CheckKind.counts] using hinner
  | @lockLiteral left value span span' clock hclock =>
    cases check <;> cases clock <;>
      simp [Expr.dropped, hclock, LockClock.literal, CheckKind.counts]
  | @lockStack left right span clock code hclock _ _ ih =>
    have hself := List.forall_mem_singleton.mp hes
    have hright := ih (single (accepts_binary (hself.accepts (by simp))).2.1)
    rw [droppedEach_singleton] at hright
    have hkind : check.counts clock.fromStack = false := by cases check <;> cases clock <;> rfl
    simp only [List.countP_append, List.countP_singleton, hkind, Bool.false_eq_true, if_false,
      droppedEach_singleton, Expr.dropped, hclock, Option.isSome_some, if_true, callCount_append,
      callCount_binary]
    omega
  | @binary left op right span cl cr hclock _ _ ihl ihr =>
    have hself := List.forall_mem_singleton.mp hes
    have haccepted := accepts_binary (hself.accepts (by simp))
    have hleft := ihl (single haccepted.1)
    have hright := ihr (single haccepted.2.1)
    rw [droppedEach_singleton] at hleft hright
    simp only [List.countP_append, List.countP_singleton, counts_binaryKind, Bool.false_eq_true,
      if_false, droppedEach_singleton, Expr.dropped, hclock, Option.isSome_none, callCount_append,
      callCount_binary]
    omega
  | @verify object field args span span' co ck hfield _ _ iho ihk =>
    cases (List.forall_mem_singleton.mp hes).call with
    | other hcallee _ _ => simp [isBuiltinCallee, hfield] at hcallee
    | verify _ hobject _ hkey _ =>
      have hreceiver := iho (single hobject)
      have hkey := ihk (single hkey)
      simp only [List.take_succ_cons, List.take_zero, droppedEach_singleton] at hreceiver hkey
      have hsame : check.counts (.checkSig 0) = (check == .verify && field.name == check.name) := by
        cases check <;> simp [CheckKind.counts, CheckKind.name, hfield]
      simp only [List.countP_append, List.countP_singleton, hsame, droppedEach_singleton,
        Expr.dropped, hfield, if_true, callCount_append, callCount_call, callCount_field,
        CheckKind.isCall]
      omega
  | @indexCall id value span span' rest hid _ =>
    obtain ⟨_, _, hargs⟩ := indexArgs (List.forall_mem_singleton.mp hes).call hid
    rw [hargs, callCount_call]
    rcases hid with hid | hid <;> cases check <;>
      simp [Expr.dropped, droppedEach, CheckKind.counts, CheckKind.isCall, CheckKind.name, hid]
  | @continuation id args span index hid _ =>
    obtain ⟨label, span', output, index', rfl, houtput⟩ :=
      continuationArgs (List.forall_mem_singleton.mp hes).call hid
    have houtput' : output.dropped = [] := by
      unfold outputCallIndex at houtput
      split at houtput
      · simp [Expr.dropped, droppedEach]
      · cases houtput
    have hcall : check.isCall (.call (.ident id) [.string label span', output] span) = false := by
      cases check <;> simp [CheckKind.isCall, CheckKind.name, hid]
    have hcode : [InstructionKind.outputCount, .push (.integer index), .greaterThan].countP
        check.counts = 0 := by cases check <;> rfl
    rw [callCount_call, callCount_cons _ [output], callCount_outputCall houtput, hcall, hcode]
    simp [Expr.dropped, droppedEach, houtput']
  | @multisig id required rest span span' cs ck hid _ _ _ ihs ihk =>
    obtain ⟨_, _, keys, signatures, hargs, _, hkeys, hsignatures⟩ :=
      multisigArgs (List.forall_mem_singleton.mp hes).call hid
    rw [List.cons.injEq] at hargs
    obtain ⟨_, rfl⟩ := hargs
    have hkeys := ihk (single hkeys)
    have hsignatures := ihs (single hsignatures)
    simp only [List.getElem?_cons_zero, List.getElem?_cons_succ, Option.toList_some,
      droppedEach_singleton] at hkeys hsignatures
    have hcall : check.isCall (.call (.ident id) [.integer required span', keys, signatures] span) =
        check.counts (.checkMultiSig required
          (multisigKeyCount [.integer required span', keys, signatures])) := by
      cases check <;> simp [CheckKind.isCall, CheckKind.counts, CheckKind.name, hid]
    have hpush : check.counts (.push (.integer required)) = false := by cases check <;> rfl
    rw [callCount_call, callCount_cons _ [keys, signatures], callCount_cons keys [signatures], hcall]
    simp only [List.countP_append, List.countP_singleton, hpush, Expr.dropped, droppedEach,
      callCount_append, callCount_ident, callCount_integer, List.append_nil, List.nil_append,
      Bool.false_eq_true, if_false]
    omega
  | @unaryCall id args span kind code hkind _ ih =>
    obtain ⟨arg, rfl, harg⟩ := unaryArgs (List.forall_mem_singleton.mp hes).call hkind
    have hinner := ih (single harg)
    simp only [List.take_succ_cons, List.take_zero, droppedEach_singleton] at hinner
    have hcall : check.counts kind = check.isCall (.call (.ident id) [arg] span) :=
      counts_unaryBuiltin hkind
    rw [callCount_call, List.countP_append, List.countP_singleton, hcall]
    simp only [Expr.dropped, droppedEach, callCount_ident, List.append_nil, List.nil_append]
    omega
  | @call callee args span cc ca hcallee _ _ ihc iha =>
    cases (List.forall_mem_singleton.mp hes).call with
    | other _ hvisited hargs =>
      have hhead := ihc (single hvisited)
      have hrest := iha fun e he => Or.inl (hargs e he)
      rw [droppedEach_singleton] at hhead
      rw [callCount_call, isCall_other hcallee, droppedEach_singleton, dropped_call hcallee,
        callCount_append, List.countP_append]
      simp only [Bool.false_eq_true, if_false]
      omega
    | _ => simp_all [isBuiltinCallee, builtinCallNames]
  | @builtinField object field span kind hkind =>
    have hcount : check.counts kind = false := counts_fieldBuiltin hkind
    simp [Expr.dropped, hkind, hcount]
  | @field object field span code _ hnone _ ih =>
    have hinner := ih (by simpa using (List.forall_mem_singleton.mp hes).object)
    rw [droppedEach_singleton] at hinner
    cases check <;> simpa [Expr.dropped, hnone, CheckKind.counts] using hinner

variable {file : String}

/-- A statement's own instruction makes no check. -/
theorem count_stmt (check : CheckKind) {stmt : Stmt} {code : List Instruction}
    (haccepted : ∃ scope, cx.Accepts scope stmt.expr) (h : lowerStmt file stmt = .ok code) :
    (kinds code).countP check.counts + check.callCount stmt.expr.dropped =
      check.callCount [stmt.expr] := by
  obtain ⟨scope, haccepted⟩ := haccepted
  have hcount {e : Expr} {inner : List Instruction} (he : cx.Accepts scope e)
      (hinner : lowerExpr file e = .ok inner) :
      (kinds inner).countP check.counts + check.callCount e.dropped = check.callCount [e] := by
    have hlowers := count_of_lowers check (lowers_of_lowerExpr e inner hinner)
      (fun e' he' => Or.inl (List.mem_singleton.mp he' ▸ he))
    rwa [droppedEach_singleton] at hlowers
  cases stmt with
  | «let» name e span =>
    obtain ⟨inner, hinner, h⟩ := Library.bind_eq_ok.mp h
    rw [Library.pure_eq_ok] at h
    have hlast : check.counts (.push (.symbol name.name)) = false := by cases check <;> rfl
    rw [← h, kinds_append, List.countP_append, kinds_emit, List.countP_singleton, hlast]
    simpa using hcount haccepted hinner
  | require e span =>
    obtain ⟨inner, hinner, h⟩ := Library.bind_eq_ok.mp h
    rw [Library.pure_eq_ok] at h
    have hlast : check.counts .verify = false := by cases check <;> rfl
    rw [← h, kinds_append, List.countP_append, kinds_emit, List.countP_singleton, hlast]
    simpa using hcount haccepted hinner
  | «return» e span => exact hcount haccepted h

theorem count_body (check : CheckKind) {body : List Stmt} {code : List Instruction}
    (haccepted : ∀ stmt ∈ body, ∃ scope, cx.Accepts scope stmt.expr)
    (h : Library.joinAll (body.map (lowerStmt file)) = .ok code) :
    (kinds code).countP check.counts + check.callCount (droppedEach (body.map Stmt.expr)) =
      check.callCount (body.map Stmt.expr) := by
  induction body generalizing code with
  | nil =>
    rw [List.map_nil, Library.joinAll_nil, Except.ok.injEq] at h
    rw [← h]
    rfl
  | cons stmt rest ih =>
    obtain ⟨first, others, hfirst, hrest, rfl⟩ := Library.joinAll_cons.mp h
    have hhead := count_stmt check (haccepted stmt (by simp)) hfirst
    have htail := ih (fun s hs => haccepted s (by simp [hs])) hrest
    rw [kinds_append, List.countP_append, List.map_cons, droppedEach, callCount_append,
      callCount_cons]
    omega

end

/-- The parts of a spend that lowering passes over. -/
def Spend.dropped (spend : Spend) : List Expr := droppedEach (spend.body.map Stmt.expr)

/-- The spend makes the check as often as its source calls for it. -/
def KeepsCalls (check : CheckKind) (spend : Spend) (lowered : IrSpend) : Prop :=
  (kinds lowered.instructions).countP check.counts = check.callCount (spend.body.map Stmt.expr)

/-- What is passed over is what is missing. -/
theorem keepsCalls_iff_dropped {cx : Checker} {file : String} {check : CheckKind} {spend : Spend}
    {lowered : IrSpend} (haccepted : ∀ stmt ∈ spend.body, ∃ scope, cx.Accepts scope stmt.expr)
    (h : lowerSpend file spend = .ok lowered) :
    KeepsCalls check spend lowered ↔ ∀ part ∈ spend.dropped, check.callCount [part] = 0 := by
  obtain ⟨_, _, hbody⟩ := lowerSpend_eq_ok h
  have hcount := count_body check haccepted hbody
  have hzero : check.callCount spend.dropped = 0 ↔
      ∀ part ∈ spend.dropped, check.callCount [part] = 0 := callCount_eq_zero
  rw [← hzero, KeepsCalls]
  change _ + check.callCount spend.dropped = _ at hcount
  omega

/-- A lowered spend keeps every check of a kind exactly when no part that lowering passes over
calls for one. -/
theorem keepsCalls_iff (program : Program) (source file : String) (analysis : Analysis)
    (ir : IrProgram) (h : analyzeProgram program source file = .ok analysis)
    (hlower : lowerProgram analysis.program analysis.kipRequirements file = .ok ir)
    (check : CheckKind) :
    ForSpends (fun spend lowered =>
      KeepsCalls check spend lowered ↔ ∀ part ∈ spend.dropped, check.callCount [part] = 0)
      program ir := by
  obtain ⟨haccepted, hprogram, _⟩ := accepted_of_analyzeProgram h
  rw [hprogram] at hlower
  apply (forSpends_iff hlower).mpr
  intro contract hcontract spend hspend lowered hlowered
  exact keepsCalls_iff_dropped (fun stmt hstmt => haccepted.expr hcontract hspend hstmt) hlowered

theorem keepsCalls_iff_vaultProgram : ∃ ir,
    lowerProgram vaultProgram [10] "vault.ks" = .ok ir ∧
      ForSpends (fun spend lowered =>
        KeepsCalls .multisig spend lowered ↔
          ∀ part ∈ spend.dropped, CheckKind.multisig.callCount [part] = 0) vaultProgram ir :=
  ⟨_, rfl, keepsCalls_iff vaultProgram "" "vault.ks" ⟨vaultProgram, [10], none⟩ _ rfl rfl .multisig⟩

/-- The body `require sig.verify(owner).block.height >= 5;` -/
def clockedBody : List Stmt :=
  [.require (.binary
    (.field (.field (.call (.field (.ident (nameAt "sig")) (nameAt "verify") ⟨0, 0⟩)
      [.ident (nameAt "owner")] ⟨0, 0⟩) (nameAt "block") ⟨0, 0⟩) (nameAt "height") ⟨0, 0⟩)
    .greaterEqual (.integer 5 ⟨0, 0⟩) ⟨0, 0⟩) ⟨0, 0⟩]

/-- `spend claim(sig: Signature) { .. }` -/
def clockedSpend : Spend :=
  ⟨nameAt "claim", [⟨nameAt "sig", .signature, ⟨0, 0⟩⟩], clockedBody, ⟨0, 0⟩⟩

/-- `contract Clocked { params { owner: PublicKey } spend claim(sig: Signature) { .. } }` -/
def clockedContract : Contract :=
  ⟨nameAt "Clocked", [⟨nameAt "owner", .publicKey, ⟨0, 0⟩⟩], none, [clockedSpend], ⟨0, 0⟩⟩

/-- An accepted spend that verifies a signature in front of a lock is lowered to the lock alone. -/
theorem keepsCalls_clocked : ∃ analysis ir,
    analyzeProgram ⟨[clockedContract]⟩ "" "clocked.ks" = .ok analysis ∧
    lowerProgram analysis.program analysis.kipRequirements "clocked.ks" = .ok ir ∧
    ir.contracts.flatMap (fun contract => contract.spends.map fun spend =>
      kinds spend.instructions) = [[.checkLockHeight 5, .verify]] ∧
    ¬ ForSpends (KeepsCalls .verify) ⟨[clockedContract]⟩ ir := by
  refine ⟨_, _, rfl, rfl, rfl, ?_⟩
  intro h
  have hspends := (List.forall₂_cons.mp h).1
  have hkeeps := (List.forall₂_cons.mp hspends).1
  unfold KeepsCalls at hkeeps
  revert hkeeps
  decide +kernel

end KaspaScript
