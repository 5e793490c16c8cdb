import KaspaScript.Semantic.Checker

namespace KaspaScript

open Library (Collect Fresh fresh_cons)

/-- The builtins that are checked and lowered as calls. -/
def builtinCallNames : List String :=
  ["input", "output", "continuation", "multisig", "zk_verify", "sha256", "blake2b", "hash160"]

/-- A call that lowers to one builtin's instructions. -/
def isBuiltinCallee : Expr → Bool
  | .field _ field _ => field.name == "verify"
  | .ident id => builtinCallNames.contains id.name
  | _ => false

namespace Checker

variable {cx : Checker} {scope : Scope}

/-- The inference of an expression reports nothing. -/
def Accepts (cx : Checker) (scope : Scope) (e : Expr) : Prop := (cx.inferExpr scope e).Clean

def typeOf (cx : Checker) (scope : Scope) (e : Expr) : Option TypeName :=
  (cx.inferExpr scope e).value

@[simp] theorem not_clean_error (span : Span) (message : String) :
    ¬ (cx.error span message).Clean := by
  simp [error]

@[simp] theorem clean_inferAll {es : List Expr} :
    (cx.inferAll scope es).Clean ↔ ∀ e ∈ es, cx.Accepts scope e := by
  induction es with
  | nil => simp [inferAll]
  | cons e es ih => simp [inferAll, ih, Accepts]

@[simp] theorem value_inferAll {es : List Expr} :
    (cx.inferAll scope es).value = es.map (cx.typeOf scope) := by
  induction es with
  | nil => simp [inferAll]
  | cons e es ih => simp [inferAll, ih, typeOf]

/-- The calls that pass the checks, each with what was checked of its parts. -/
inductive CallForm (cx : Checker) (scope : Scope) : Expr → List Expr → Prop
  | verify {object field span key} : field.name = "verify" → cx.Accepts scope object →
      cx.typeOf scope object = some .signature → cx.Accepts scope key →
      cx.typeOf scope key = some .publicKey → CallForm cx scope (.field object field span) [key]
  | index {id value span} : id.name = "input" ∨ id.name = "output" → value ≤ u32Max →
      CallForm cx scope (.ident id) [.integer value span]
  | continuation {id label span output index} : id.name = "continuation" →
      isValidContinuationName label = true → outputCallIndex output = some index →
      CallForm cx scope (.ident id) [.string label span, output]
  | proof {id proof} : id.name = "zk_verify" → cx.Accepts scope proof →
      cx.typeOf scope proof = some .zkProof → CallForm cx scope (.ident id) [proof]
  | hash {id arg} : id.name = "sha256" ∨ id.name = "blake2b" ∨ id.name = "hash160" →
      cx.Accepts scope arg → CallForm cx scope (.ident id) [arg]
  | multisig {id required span keys signatures} : id.name = "multisig" →
      (∀ elements span', keys = .array elements span' → required ≤ elements.length) →
      cx.Accepts scope keys → cx.Accepts scope signatures →
      CallForm cx scope (.ident id) [.integer required span, keys, signatures]
  | other {callee args} : isBuiltinCallee callee = false → cx.Accepts scope callee →
      (∀ arg ∈ args, cx.Accepts scope arg) → CallForm cx scope callee args

theorem indexForm_of_clean {id : Ident} {args : List Expr} {span : Span} {ty : TypeName}
    (hid : id.name = "input" ∨ id.name = "output") (h : (cx.checkIndexCall args span ty).Clean) :
    CallForm cx scope (.ident id) args := by
  unfold checkIndexCall at h
  extract_lets at h
  split at h
  · rename_i value argSpan
    by_cases hvalue : value ≤ u32Max
    · exact .index hid hvalue
    · simp [Nat.lt_of_not_le hvalue] at h
  · simp at h
  · simp at h

theorem continuationForm_of_clean {id : Ident} {args : List Expr} {span : Span}
    (hid : id.name = "continuation") (h : (cx.checkContinuation args span).Clean) :
    CallForm cx scope (.ident id) args := by
  unfold checkContinuation at h
  split at h
  · rename_i name output
    extract_lets report at h
    split at h
    · rename_i label nameSpan
      by_cases hlabel : isValidContinuationName label = true
      · simp only [hlabel, Bool.not_true, Bool.false_eq_true, if_false, report] at h
        cases hcall : outputCallIndex output with
        | some index => exact .continuation hid hlabel hcall
        | none => simp [hcall] at h
      · simp [hlabel] at h
    · simp at h
  · simp at h

theorem multisigForm_of_clean {id : Ident} {args : List Expr} {span : Span}
    (hid : id.name = "multisig")
    (h : (cx.checkMultisig args span (cx.inferAll scope args)).Clean) :
    CallForm cx scope (.ident id) args := by
  unfold checkMultisig at h
  split at h
  · rename_i threshold keys signatures
    extract_lets inferred at h
    split at h
    · rename_i required kSpan
      have haccepts : ∀ arg ∈ [.integer required kSpan, keys, signatures], cx.Accepts scope arg := by
        apply clean_inferAll.mp
        split at h
        · split_ifs at h
          · simp at h
          · simpa [inferred] using h
        · simpa [inferred] using h
      apply CallForm.multisig hid
      · intro elements span' hkeys
        subst hkeys
        by_contra hlarge
        simp [Nat.lt_of_not_le hlarge] at h
      · exact haccepts keys (by simp)
      · exact haccepts signatures (by simp)
    · simp at h
  · simp at h

theorem verifyForm_of_clean {object : Expr} {field : Ident} {span : Span} {args : List Expr}
    {calleeType : Collect SemanticError (Option TypeName)} (hfield : field.name = "verify")
    (h : (cx.inferCall (.field object field span) args (cx.inferExpr scope object) calleeType
      (cx.inferAll scope args)).Clean) :
    CallForm cx scope (.field object field span) args := by
  simp only [inferCall, hfield, if_true, Library.Collect.clean_bind] at h
  obtain ⟨hobject, h⟩ := h
  by_cases hreceiver : cx.typeOf scope object = some .signature
  · have hvalue : (cx.inferExpr scope object).value = some .signature := hreceiver
    simp only [hvalue, ne_eq, not_true_eq_false, if_false] at h
    split at h
    · rename_i key
      simp only [Library.Collect.clean_bind, clean_inferAll, value_inferAll, List.map_cons,
        List.map_nil] at h
      obtain ⟨hkey, h⟩ := h
      by_cases htype : cx.typeOf scope key = some .publicKey
      · exact .verify hfield hobject hreceiver (hkey key (by simp)) htype
      · simp [htype] at h
    · simp at h
  · have hvalue : (cx.inferExpr scope object).value ≠ some .signature := hreceiver
    simp [hvalue] at h

theorem otherForm_of_clean {callee : Expr} {args : List Expr} (hcallee : isBuiltinCallee callee = false)
    (h : (do
      let _ ← cx.inferExpr scope callee
      let _ ← cx.inferAll scope args
      pure (some TypeName.bool) : Collect SemanticError (Option TypeName)).Clean) :
    CallForm cx scope callee args := by
  simp only [Library.Collect.clean_bind, clean_inferAll] at h
  exact .other hcallee h.1 h.2.1

theorem hashForm_of_clean {id : Ident} {args : List Expr}
    {receiver calleeType : Collect SemanticError (Option TypeName)}
    (hid : id.name = "sha256" ∨ id.name = "blake2b" ∨ id.name = "hash160")
    (h : (cx.inferCall (.ident id) args receiver calleeType (cx.inferAll scope args)).Clean) :
    CallForm cx scope (.ident id) args := by
  have hargs : ∃ arg, args = [arg] ∧ cx.Accepts scope arg := by
    rcases hid with hid | hid | hid <;>
    · simp only [inferCall, hid] at h
      split at h
      · rename_i arg
        simp only [Library.Collect.clean_bind, clean_inferAll] at h
        exact ⟨arg, rfl, h.1 arg (by simp)⟩
      · simp at h
  obtain ⟨arg, rfl, harg⟩ := hargs
  exact .hash hid harg

theorem callForm_of_accepts {callee : Expr} {args : List Expr} {span : Span}
    (h : cx.Accepts scope (.call callee args span)) : CallForm cx scope callee args := by
  unfold Accepts at h
  cases callee with
  | field object field span' =>
    rw [inferExpr] at h
    by_cases hfield : field.name = "verify"
    · exact verifyForm_of_clean hfield h
    · simp only [inferCall, hfield, if_false] at h
      apply otherForm_of_clean _ h
      simpa [isBuiltinCallee] using hfield
  | ident id =>
    rw [inferExpr] at h
    · by_cases hhash : id.name = "sha256" ∨ id.name = "blake2b" ∨ id.name = "hash160"
      · exact hashForm_of_clean hhash h
      simp only [inferCall] at h
      split at h
      · exact indexForm_of_clean (Or.inl (by assumption)) h
      · exact indexForm_of_clean (Or.inr (by assumption)) h
      · rw [Library.Collect.clean_bind] at h
        exact continuationForm_of_clean (by assumption) h.1
      · rename_i hid
        split at h
        · rename_i proof
          simp only [Library.Collect.clean_bind, clean_inferAll, value_inferAll, List.map_cons,
            List.map_nil] at h
          by_cases htype : cx.typeOf scope proof = some .zkProof
          · exact .proof hid (h.1 proof (by simp)) htype
          · simp [htype] at h
        · simp at h
      · rw [Library.Collect.clean_bind] at h
        exact multisigForm_of_clean (by assumption) h.1
      · tauto
      · tauto
      · tauto
      · apply otherForm_of_clean _ h
        simpa [isBuiltinCallee, builtinCallNames] using by tauto
    · simp
  | _ =>
    rw [inferExpr] at h
    · exact otherForm_of_clean rfl h
    · simp

/-- The names that are typed without being declared. -/
def builtinNames : List String :=
  ["block", "covenant_id", "sequencing", "input_count", "output_count", "input", "output",
    "multisig", "zk_verify", "sha256", "blake2b", "hash160"]

theorem accepts_ident {id : Ident} (h : cx.Accepts scope (.ident id)) :
    id.name ∉ cx.spendNames ∧ (id.name ∈ builtinNames ∨ scope.contains id.name = true) := by
  unfold Accepts inferExpr inferIdentifier at h
  by_cases hspend : id.name ∈ cx.spendNames
  · simp [hspend] at h
  · refine ⟨hspend, ?_⟩
    by_cases hbuiltin : id.name ∈ builtinNames
    · exact Or.inl hbuiltin
    · right
      rw [if_neg hspend] at h
      split at h <;> try simp_all [builtinNames]
      cases hget : scope.get id.name with
      | none => simp [hget] at h
      | some ty => simp [Scope.contains, hget]

/-- The field accesses whose object is not checked. -/
def isRootAccess (object : Expr) (field : Ident) : Bool :=
  match object with
  | .ident root =>
      root.name == "block" || root.name == "covenant_id" && field.name == "depth" ||
        root.name == "sequencing"
  | _ => false

/-- The field accesses that pass the checks. -/
inductive FieldForm (cx : Checker) (scope : Scope) (field : Ident) : Expr → Prop
  | clock {root} : root.name = "block" → field.name = "height" ∨ field.name = "time" →
      FieldForm cx scope field (.ident root)
  | depth {root} : root.name = "covenant_id" → field.name = "depth" →
      FieldForm cx scope field (.ident root)
  | sequencing {root} : root.name = "sequencing" → FieldForm cx scope field (.ident root)
  | access {object} : isRootAccess object field = false → cx.Accepts scope object →
      (cx.typeOf scope object = some .input ∨ cx.typeOf scope object = some .output →
        field.name = "value" ∨ field.name = "script" ∨ field.name = "covenant_id") →
      FieldForm cx scope field object

theorem accessForm_of_clean {object : Expr} {field : Ident}
    (hroot : isRootAccess object field = false)
    (h : (cx.inferField object field (cx.inferExpr scope object)).Clean) :
    FieldForm cx scope field object := by
  have hparts : cx.Accepts scope object ∧
      (cx.typeOf scope object = some .input ∨ cx.typeOf scope object = some .output →
        field.name = "value" ∨ field.name = "script" ∨ field.name = "covenant_id") := by
    unfold typeOf
    cases object with
    | ident root =>
      simp only [isRootAccess, Bool.or_eq_false_iff, Bool.and_eq_false_iff, beq_eq_false_iff_ne]
        at hroot
      obtain ⟨⟨hblock, hdepth⟩, hsequencing⟩ := hroot
      have hdepth' : ¬ (root.name = "covenant_id" ∧ field.name = "depth") := by tauto
      simp only [inferField, if_neg hblock, if_neg hdepth', if_neg hsequencing,
        Library.Collect.clean_bind] at h
      refine ⟨h.1, ?_⟩
      intro hty
      rcases hty with hty | hty <;>
      · simp only [hty] at h
        have hfield := h.2
        split at hfield <;> simp_all
    | _ =>
      simp only [inferField, Library.Collect.clean_bind] at h
      refine ⟨h.1, ?_⟩
      intro hty
      rcases hty with hty | hty <;>
      · simp only [hty] at h
        have hfield := h.2
        split at hfield <;> simp_all
  exact .access hroot hparts.1 hparts.2

theorem fieldForm_of_accepts {object : Expr} {field : Ident} {span : Span}
    (h : cx.Accepts scope (.field object field span)) : FieldForm cx scope field object := by
  unfold Accepts at h
  rw [inferExpr] at h
  by_cases hroot : isRootAccess object field = true
  · cases object with
    | ident root =>
      by_cases hblock : root.name = "block"
      · simp only [inferField, hblock, if_true] at h
        split at h
        · exact .clock hblock (Or.inl (by assumption))
        · exact .clock hblock (Or.inr (by assumption))
        · simp at h
      · by_cases hdepth : root.name = "covenant_id" ∧ field.name = "depth"
        · exact .depth hdepth.1 hdepth.2
        · apply FieldForm.sequencing
          simp only [isRootAccess, Bool.or_eq_true, Bool.and_eq_true, beq_iff_eq] at hroot
          tauto
    | _ => simp [isRootAccess] at hroot
  · exact accessForm_of_clean (by simpa using hroot) h

theorem accepts_array {elements : List Expr} {span : Span} :
    cx.Accepts scope (.array elements span) ↔ ∀ e ∈ elements, cx.Accepts scope e := by
  simp [Accepts, inferExpr]

theorem accepts_unary {op : UnaryOp} {e : Expr} {span : Span}
    (h : cx.Accepts scope (.unary op e span)) :
    cx.Accepts scope e ∧ (op = .not → cx.typeOf scope e = some .bool) := by
  unfold Accepts at h
  rw [inferExpr, Library.Collect.clean_bind] at h
  refine ⟨h.1, ?_⟩
  intro hop
  by_contra hty
  have hvalue : (cx.inferExpr scope e).value ≠ some .bool := hty
  simp [hop, hvalue] at h

theorem accepts_binary {left right : Expr} {op : BinaryOp} {span : Span}
    (h : cx.Accepts scope (.binary left op right span)) :
    cx.Accepts scope left ∧ cx.Accepts scope right ∧
      (op = .and ∨ op = .or →
        cx.typeOf scope left = some .bool ∧ cx.typeOf scope right = some .bool) := by
  unfold Accepts at h
  rw [inferExpr, Library.Collect.clean_bind, Library.Collect.clean_bind] at h
  refine ⟨h.1, h.2.1, ?_⟩
  intro hop
  by_contra hty
  have hvalue : (cx.inferExpr scope left).value ≠ some .bool ∨
      (cx.inferExpr scope right).value ≠ some .bool := by
    simp only [typeOf] at hty
    tauto
  rcases hop with rfl | rfl <;> simp [hvalue] at h

end Checker

namespace Scope

def names (scope : Scope) : List String := scope.symbols.map Prod.fst

theorem contains_iff {scope : Scope} {name : String} :
    scope.contains name = true ↔ name ∈ scope.names := by
  unfold contains get names
  induction scope.symbols with
  | nil => simp
  | cons symbol symbols ih =>
    obtain ⟨first, ty⟩ := symbol
    by_cases hname : name = first
    · simp [hname]
    · have hbeq : (name == first) = false := by simpa using hname
      simp [List.lookup_cons, hbeq, ih, hname]

@[simp] theorem names_insert {scope : Scope} {name : String} {ty : TypeName} :
    (scope.insert name ty).2.names = name :: scope.names := rfl

@[simp] theorem insert_fst {scope : Scope} {name : String} {ty : TypeName} :
    (scope.insert name ty).1 = true ↔ name ∉ scope.names := by
  simp [insert, ← contains_iff]

end Scope

namespace Checker

variable {cx : Checker} {scope : Scope}

/-- The names of a list of parameters. -/
def paramNames (params : List Param) : List String := params.map fun param => param.name.name

theorem clean_checkContractParams {params : List Param} :
    (cx.checkContractParams params scope).Clean ↔ Fresh scope.names (paramNames params) := by
  induction params generalizing scope with
  | nil => simp [checkContractParams, paramNames]
  | cons param rest ih =>
    have hstep : (cx.checkContractParams (param :: rest) scope).Clean ↔
        param.name.name ∉ scope.names ∧
          (cx.checkContractParams rest (scope.insert param.name.name param.ty).2).Clean := by
      rw [← @Scope.insert_fst scope param.name.name param.ty]
      cases hfresh : (scope.insert param.name.name param.ty).1 <;>
        simp [checkContractParams, hfresh]
    rw [hstep, ih, Scope.names_insert, ← fresh_cons]
    rfl

theorem names_checkContractParams {params : List Param} {name : String} :
    name ∈ (cx.checkContractParams params scope).value.names ↔
      name ∈ paramNames params ∨ name ∈ scope.names := by
  induction params generalizing scope with
  | nil => simp [checkContractParams, paramNames]
  | cons param rest ih =>
    have hstep : (cx.checkContractParams (param :: rest) scope).value =
        (cx.checkContractParams rest (scope.insert param.name.name param.ty).2).value := by
      cases hfresh : (scope.insert param.name.name param.ty).1 <;>
        simp [checkContractParams, hfresh]
    rw [hstep, ih, Scope.names_insert]
    simp only [paramNames, List.map_cons, List.mem_cons]
    tauto

theorem clean_checkSpendParams {contractScope : Scope} {params : List Param} {st : SpendState} :
    (cx.checkSpendParams contractScope params st).Clean ↔
      Fresh st.localNames (paramNames params) ∧
        ∀ name ∈ paramNames params, name ∉ contractScope.names := by
  induction params generalizing st with
  | nil => simp [checkSpendParams, paramNames]
  | cons param rest ih =>
    have hstep : (cx.checkSpendParams contractScope (param :: rest) st).Clean ↔
        (param.name.name ∉ contractScope.names ∧ param.name.name ∉ st.localNames) ∧
          (cx.checkSpendParams contractScope rest
            { st with
              scope := (st.scope.insert param.name.name param.ty).2
              localNames := param.name.name :: st.localNames }).Clean := by
      rw [← Scope.contains_iff]
      by_cases hshadow : contractScope.contains param.name.name = true <;>
        by_cases hlocal : param.name.name ∈ st.localNames <;>
        simp [checkSpendParams, checkSpendParam, hshadow, hlocal]
    have hnames : paramNames (param :: rest) = param.name.name :: paramNames rest := rfl
    rw [hstep, ih, hnames, fresh_cons, List.forall_mem_cons]
    tauto

/-- What the loop over the parameters leaves: their names are declared, nothing else changes. -/
theorem value_checkSpendParams {contractScope : Scope} {params : List Param} {st : SpendState} :
    let st' := (cx.checkSpendParams contractScope params st).value
    (∀ name, name ∈ st'.scope.names ↔ name ∈ paramNames params ∨ name ∈ st.scope.names) ∧
      (∀ name, name ∈ st'.localNames ↔ name ∈ paramNames params ∨ name ∈ st.localNames) ∧
      st'.shapeFacts = st.shapeFacts ∧ st'.continuationNames = st.continuationNames ∧
      st'.hasRequire = st.hasRequire := by
  induction params generalizing st with
  | nil => simp [checkSpendParams, paramNames]
  | cons param rest ih =>
    have hstep : (cx.checkSpendParams contractScope (param :: rest) st).value =
        (cx.checkSpendParams contractScope rest
          { st with
            scope := (st.scope.insert param.name.name param.ty).2
            localNames := param.name.name :: st.localNames }).value := by
      by_cases hshadow : contractScope.contains param.name.name = true <;>
        by_cases hlocal : param.name.name ∈ st.localNames <;>
        simp [checkSpendParams, checkSpendParam, hshadow, hlocal]
    intro st'
    have hih := @ih { st with
      scope := (st.scope.insert param.name.name param.ty).2
      localNames := param.name.name :: st.localNames }
    rw [← hstep] at hih
    obtain ⟨hscope, hlocal, hrest⟩ := hih
    refine ⟨?_, ?_, hrest⟩
    · intro name
      rw [hscope name, Scope.names_insert]
      simp only [paramNames, List.map_cons, List.mem_cons]
      tauto
    · intro name
      rw [hlocal name]
      simp only [paramNames, List.map_cons, List.mem_cons]
      tauto

theorem clean_checkStmts_append {pre post : List Stmt} {st : SpendState} :
    (cx.checkStmts (pre ++ post) st).Clean ↔
      (cx.checkStmts pre st).Clean ∧ (cx.checkStmts post (cx.checkStmts pre st).value).Clean := by
  induction pre generalizing st with
  | nil => simp [checkStmts]
  | cons stmt rest ih => simp [checkStmts, ih, and_assoc]

theorem value_checkStmts_append {pre post : List Stmt} {st : SpendState} :
    (cx.checkStmts (pre ++ post) st).value =
      (cx.checkStmts post (cx.checkStmts pre st).value).value := by
  induction pre generalizing st with
  | nil => simp [checkStmts]
  | cons stmt rest ih => simp [checkStmts, ih]

/-- The names that `let` statements bind, in order. -/
def letNames (body : List Stmt) : List String :=
  body.filterMap fun
    | .let name _ _ => some name.name
    | .require _ _ | .return _ _ => none

/-- A statement that passes the checks. -/
theorem accepts_stmt {st : SpendState} {stmt : Stmt} (h : (cx.checkStmt st stmt).Clean) :
    cx.Accepts st.scope stmt.expr := by
  cases stmt with
  | «let» name e span =>
    rw [checkStmt, Library.Collect.clean_bind] at h
    exact h.1
  | require e span =>
    rw [checkStmt, Library.Collect.clean_bind] at h
    exact h.1
  | «return» e span =>
    rw [checkStmt, Library.Collect.clean_bind] at h
    exact h.1

theorem clean_checkStmt_require {st : SpendState} {e : Expr} {span : Span}
    (h : (cx.checkStmt st (.require e span)).Clean) :
    cx.typeOf st.scope e = some .bool ∧
      (cx.collectExactCountsFromConjunction e st.shapeFacts).Clean ∧
      (cx.collectContinuationNames e st.continuationNames).Clean := by
  rw [checkStmt, Library.Collect.clean_bind] at h
  by_cases hty : cx.typeOf st.scope e = some .bool
  · have hvalue : (cx.inferExpr st.scope e).value = some .bool := hty
    simp only [hvalue, ne_eq, not_true_eq_false, if_false, Library.Collect.clean_bind] at h
    exact ⟨hty, h.2.1, h.2.2.1⟩
  · have hvalue : (cx.inferExpr st.scope e).value ≠ some .bool := hty
    simp [hvalue] at h

theorem fresh_of_clean_let {st : SpendState} {name : Ident} {e : Expr} {span : Span}
    (h : (cx.checkStmt st (.let name e span)).Clean) :
    name.name ∉ st.localNames ∧ name.name ∉ st.scope.names := by
  rw [← Scope.contains_iff]
  rw [checkStmt, Library.Collect.clean_bind] at h
  by_cases hdup : name.name ∈ st.localNames ∨ st.scope.contains name.name
  · simp [hdup] at h
  · tauto

/-- How a statement that passes changes the names in reach. -/
theorem names_checkStmt {st : SpendState} {stmt : Stmt} (h : (cx.checkStmt st stmt).Clean) :
    let st' := (cx.checkStmt st stmt).value
    (∀ name ∈ st'.scope.names, name ∈ letNames [stmt] ∨ name ∈ st.scope.names) ∧
      (∀ name, name ∈ st'.localNames ↔ name ∈ letNames [stmt] ∨ name ∈ st.localNames) ∧
      ∀ name ∈ st.scope.names, name ∈ st'.scope.names := by
  cases stmt with
  | «let» name e span =>
    obtain ⟨hlocal, hscope⟩ := fresh_of_clean_let h
    have hdup : ¬ (name.name ∈ st.localNames ∨ st.scope.contains name.name = true) := by
      rw [Scope.contains_iff]
      tauto
    have hlets : letNames [.let name e span] = [name.name] := rfl
    rw [hlets]
    simp only [checkStmt, Library.Collect.value_bind, if_neg hdup]
    cases (cx.inferExpr st.scope e).value with
    | some ty =>
      simp only [Library.Collect.value_pure, Scope.names_insert, List.mem_cons, List.not_mem_nil,
        or_false]
      tauto
    | none =>
      simp only [Library.Collect.value_pure, List.mem_cons, List.not_mem_nil, or_false]
      tauto
  | require e span =>
    have hlets : letNames [.require e span] = [] := rfl
    rw [hlets]
    by_cases hty : (cx.inferExpr st.scope e).value ≠ some .bool <;> simp [checkStmt, hty]
  | «return» e span =>
    have hlets : letNames [.return e span] = [] := rfl
    rw [hlets]
    simp [checkStmt]

theorem letNames_cons {stmt : Stmt} {rest : List Stmt} :
    letNames (stmt :: rest) = letNames [stmt] ++ letNames rest := by
  cases stmt <;> rfl

/-- The run lemma for the names: those of the statements before, and those there at the start. -/
theorem names_checkStmts {pre : List Stmt} {st : SpendState} (h : (cx.checkStmts pre st).Clean) :
    let st' := (cx.checkStmts pre st).value
    (∀ name ∈ st'.scope.names, name ∈ letNames pre ∨ name ∈ st.scope.names) ∧
      (∀ name, name ∈ st'.localNames ↔ name ∈ letNames pre ∨ name ∈ st.localNames) ∧
      ∀ name ∈ st.scope.names, name ∈ st'.scope.names := by
  induction pre generalizing st with
  | nil => simp [checkStmts, letNames]
  | cons stmt rest ih =>
    rw [checkStmts, Library.Collect.clean_bind] at h
    obtain ⟨hscope, hlocal, hkeep⟩ := names_checkStmt h.1
    obtain ⟨hscope', hlocal', hkeep'⟩ := ih h.2
    rw [letNames_cons, checkStmts, Library.Collect.value_bind]
    refine ⟨?_, ?_, ?_⟩
    · intro name hname
      rw [List.mem_append]
      rcases hscope' name hname with hrest | hbefore
      · exact Or.inl (Or.inr hrest)
      · rcases hscope name hbefore with hfirst | hstart
        · exact Or.inl (Or.inl hfirst)
        · exact Or.inr hstart
    · intro name
      rw [hlocal' name, hlocal name, List.mem_append]
      tauto
    · intro name hname
      exact hkeep' name (hkeep name hname)

/-- At a statement of a body that passes, the statements before it have passed too. -/
theorem clean_checkStmts_at {pre post : List Stmt} {stmt : Stmt} {st : SpendState}
    (h : (cx.checkStmts (pre ++ stmt :: post) st).Clean) :
    (cx.checkStmts pre st).Clean ∧ (cx.checkStmt (cx.checkStmts pre st).value stmt).Clean := by
  rw [clean_checkStmts_append, checkStmts, Library.Collect.clean_bind] at h
  exact ⟨h.1, h.2.1⟩

/-- The scope of a contract's parameters. -/
def contractScope (cx : Checker) (contract : Contract) : Scope :=
  (cx.checkContractParams contract.params Scope.new).value

/-- The state before a spend's first statement. -/
def spendStart (cx : Checker) (contract : Contract) (spend : Spend) : SpendState :=
  (cx.checkSpendParams (cx.contractScope contract) spend.params
    ⟨cx.contractScope contract, [], {}, [], false⟩).value

/-- The state after a spend's last statement. -/
def spendEnd (cx : Checker) (contract : Contract) (spend : Spend) : SpendState :=
  (cx.checkStmts spend.body (cx.spendStart contract spend)).value

/-- The checks of one spend, one field each. -/
structure SpendAccepted (cx : Checker) (contract : Contract) (spend : Spend) : Prop where
  fresh : Fresh [] (paramNames spend.params)
  unshadowed : ∀ name ∈ paramNames spend.params, name ∉ paramNames contract.params
  body : (cx.checkStmts spend.body (cx.spendStart contract spend)).Clean
  require : (cx.spendEnd contract spend).hasRequire = true
  covenant : spendUsesName spend "covenant_id" = true → contract.finalityDepth.getD 0 ≠ 0
  shape : (cx.checkShapeFacts (cx.spendEnd contract spend).shapeFacts).Clean

theorem names_contractScope {contract : Contract} {name : String} :
    name ∈ (cx.contractScope contract).names ↔ name ∈ paramNames contract.params := by
  unfold contractScope
  rw [names_checkContractParams]
  simp [Scope.new, Scope.names]

theorem spendAccepted_of_clean {contract : Contract} {spend : Spend}
    (h : (cx.checkSpend contract spend (cx.contractScope contract)).Clean) :
    cx.SpendAccepted contract spend := by
  unfold checkSpend at h
  rw [Library.Collect.clean_bind, Library.Collect.clean_bind, clean_checkSpendParams] at h
  obtain ⟨⟨hfresh, hshadow⟩, hbody, h⟩ := h
  change (cx.checkStmts spend.body (cx.spendStart contract spend)).Clean at hbody
  have hend : (cx.checkStmts spend.body (cx.checkSpendParams (cx.contractScope contract)
      spend.params ⟨cx.contractScope contract, [], {}, [], false⟩).value).value =
      cx.spendEnd contract spend := rfl
  rw [hend] at h
  have hunshadowed : ∀ name ∈ paramNames spend.params, name ∉ paramNames contract.params := by
    intro name hname
    exact mt names_contractScope.mpr (hshadow name hname)
  cases hrequire : (cx.spendEnd contract spend).hasRequire with
  | false => simp [hrequire] at h
  | true =>
    by_cases hcovenant : spendUsesName spend "covenant_id" = true ∧
        contract.finalityDepth.getD 0 = 0
    · simp [hrequire, hcovenant] at h
    · simp only [hrequire, Bool.not_true, Bool.false_eq_true, if_false, if_neg hcovenant] at h
      refine ⟨hfresh, hunshadowed, hbody, hrequire, ?_, h⟩
      intro huses hzero
      exact hcovenant ⟨huses, hzero⟩

theorem clean_checkSpends {contract : Contract} {spends : List Spend} {seen : List String} :
    (cx.checkSpends contract scope spends seen).Clean ↔
      Fresh seen (spends.map fun spend => spend.name.name) ∧
        ∀ spend ∈ spends, (cx.checkSpend contract spend scope).Clean := by
  induction spends generalizing seen with
  | nil => simp [checkSpends]
  | cons spend rest ih =>
    have hstep : (cx.checkSpends contract scope (spend :: rest) seen).Clean ↔
        spend.name.name ∉ seen ∧ (cx.checkSpend contract spend scope).Clean ∧
          (cx.checkSpends contract scope rest (spend.name.name :: seen)).Clean := by
      by_cases hseen : spend.name.name ∈ seen <;> simp [checkSpends, hseen]
    rw [hstep, ih, List.map_cons, fresh_cons, List.forall_mem_cons]
    tauto

/-- The checker of one contract's spends. -/
def forContract (cx : Checker) (contract : Contract) : Checker :=
  { cx with spendNames := contract.spends.map fun spend => spend.name.name }

/-- The checks of one contract. -/
structure ContractAccepted (cx : Checker) (contract : Contract) : Prop where
  finality : contract.finalityDepth ≠ some 0
  params : Fresh [] (paramNames contract.params)
  spends : Fresh [] (contract.spends.map fun spend => spend.name.name)
  spend : ∀ spend ∈ contract.spends, (cx.forContract contract).SpendAccepted contract spend

theorem contractScope_forContract {contract other : Contract} :
    (cx.forContract contract).contractScope other = cx.contractScope other := by
  unfold contractScope
  have hvalue : ∀ (params : List Param) (scope : Scope),
      ((cx.forContract contract).checkContractParams params scope).value =
        (cx.checkContractParams params scope).value := by
    intro params
    induction params with
    | nil => intro scope; rfl
    | cons param rest ih =>
      intro scope
      cases hfresh : (scope.insert param.name.name param.ty).1 <;>
        simp [checkContractParams, hfresh, ih]
  exact hvalue other.params Scope.new

theorem contractAccepted_of_clean {contract : Contract} (h : (cx.checkContract contract).Clean) :
    cx.ContractAccepted contract := by
  unfold checkContract at h
  by_cases hfinality : contract.finalityDepth = some 0
  · simp [hfinality] at h
  · simp only [if_neg hfinality, Library.Collect.clean_bind, clean_checkContractParams] at h
    obtain ⟨hparams, hspends⟩ := h
    obtain ⟨hfresh, hspend⟩ := clean_checkSpends.mp hspends
    refine ⟨hfinality, hparams, hfresh, ?_⟩
    intro spend hmem
    apply spendAccepted_of_clean
    rw [contractScope_forContract]
    exact hspend spend hmem

theorem clean_checkContracts {contracts : List Contract} {seen : List String} :
    (cx.checkContracts contracts seen).Clean ↔
      Fresh seen (contracts.map fun contract => contract.name.name) ∧
        ∀ contract ∈ contracts, (cx.checkContract contract).Clean := by
  induction contracts generalizing seen with
  | nil => simp [checkContracts]
  | cons contract rest ih =>
    have hstep : (cx.checkContracts (contract :: rest) seen).Clean ↔
        contract.name.name ∉ seen ∧ (cx.checkContract contract).Clean ∧
          (cx.checkContracts rest (contract.name.name :: seen)).Clean := by
      by_cases hseen : contract.name.name ∈ seen <;> simp [checkContracts, hseen]
    rw [hstep, ih, List.map_cons, fresh_cons, List.forall_mem_cons]
    tauto

end Checker

open Checker

/-- A program that analysis accepts. -/
structure ProgramAccepted (program : Program) (source file : String) : Prop where
  names : Fresh [] (program.contracts.map fun contract => contract.name.name)
  contract : ∀ contract ∈ program.contracts,
    (⟨source, file, []⟩ : Checker).ContractAccepted contract

theorem accepted_of_analyzeProgram {program : Program} {source file : String} {analysis : Analysis}
    (h : analyzeProgram program source file = .ok analysis) :
    ProgramAccepted program source file ∧ analysis.program = program ∧
      analysis.kipRequirements = collectKipRequirements program := by
  unfold analyzeProgram at h
  by_cases hclean : (checkProgram ⟨source, file, []⟩ program).Clean
  · have hempty : (checkProgram ⟨source, file, []⟩ program).errors.isEmpty = true := by
      rw [List.isEmpty_iff]
      exact hclean
    simp only [hempty, if_true, Except.ok.injEq] at h
    obtain ⟨hnames, hcontracts⟩ := clean_checkContracts.mp hclean
    refine ⟨⟨hnames, ?_⟩, ?_, ?_⟩
    · intro contract hmem
      exact contractAccepted_of_clean (hcontracts contract hmem)
    · rw [← h]
    · rw [← h]
  · have hfull : (checkProgram ⟨source, file, []⟩ program).errors.isEmpty = false := by
      rw [List.isEmpty_eq_false_iff]
      exact hclean
    simp [hfull] at h

/-- The checker's context at one contract of a program. -/
abbrev checkerAt (source file : String) (contract : Contract) : Checker :=
  (⟨source, file, []⟩ : Checker).forContract contract

/-- Every expression of an accepted program was inferred without a report, in some scope. -/
theorem ProgramAccepted.expr {program : Program} {source file : String} (h : ProgramAccepted program source file)
    {contract : Contract} (hcontract : contract ∈ program.contracts) {spend : Spend}
    (hspend : spend ∈ contract.spends) {stmt : Stmt} (hstmt : stmt ∈ spend.body) :
    ∃ scope, (checkerAt source file contract).Accepts scope stmt.expr := by
  have hbody := ((h.contract contract hcontract).spend spend hspend).body
  obtain ⟨pre, post, hsplit⟩ := List.append_of_mem hstmt
  rw [hsplit] at hbody
  exact ⟨_, accepts_stmt (clean_checkStmts_at hbody).2⟩

/-- A required expression of an accepted program is a `Bool`. -/
theorem ProgramAccepted.require {program : Program} {source file : String}
    (h : ProgramAccepted program source file) {contract : Contract}
    (hcontract : contract ∈ program.contracts) {spend : Spend} (hspend : spend ∈ contract.spends)
    {e : Expr} {span : Span} (hstmt : .require e span ∈ spend.body) :
    ∃ scope, (checkerAt source file contract).Accepts scope e ∧
      (checkerAt source file contract).typeOf scope e = some .bool := by
  have hbody := ((h.contract contract hcontract).spend spend hspend).body
  obtain ⟨pre, post, hsplit⟩ := List.append_of_mem hstmt
  rw [hsplit] at hbody
  have hclean := (clean_checkStmts_at hbody).2
  exact ⟨_, accepts_stmt hclean, (clean_checkStmt_require hclean).1⟩

def nameAt (name : String) : Ident := ⟨name, ⟨0, 0⟩⟩

/-- The body `let proof = sig; require proof.verify(owner) && input_count == 1;
require multisig(1, [owner], [proof]);` -/
def vaultBody : List Stmt :=
  [.let (nameAt "proof") (.ident (nameAt "sig")) ⟨0, 0⟩,
    .require (.binary
      (.call (.field (.ident (nameAt "proof")) (nameAt "verify") ⟨0, 0⟩)
        [.ident (nameAt "owner")] ⟨0, 0⟩) .and
      (.binary (.ident (nameAt "input_count")) .equal (.integer 1 ⟨0, 0⟩) ⟨0, 0⟩) ⟨0, 0⟩) ⟨0, 0⟩,
    .require (.call (.ident (nameAt "multisig"))
      [.integer 1 ⟨0, 0⟩, .array [.ident (nameAt "owner")] ⟨0, 0⟩,
        .array [.ident (nameAt "proof")] ⟨0, 0⟩] ⟨0, 0⟩) ⟨0, 0⟩]

/-- `spend claim(sig: Signature) { .. }` -/
def vaultSpend : Spend :=
  ⟨nameAt "claim", [⟨nameAt "sig", .signature, ⟨0, 0⟩⟩], vaultBody, ⟨0, 0⟩⟩

/-- `contract Vault { params { owner: PublicKey } spend claim(sig: Signature) { .. } }` -/
def vaultContract : Contract :=
  ⟨nameAt "Vault", [⟨nameAt "owner", .publicKey, ⟨0, 0⟩⟩], none, [vaultSpend], ⟨0, 0⟩⟩

def vaultProgram : Program := ⟨[vaultContract]⟩

end KaspaScript
