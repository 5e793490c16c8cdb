import KaspaScript.Semantic.Scoping

namespace KaspaScript

open Library (Fresh lookup_of_nodup)

namespace Scope

theorem get_of_mem {scope : Scope} {name : String} {ty : TypeName} (hnodup : scope.names.Nodup)
    (h : (name, ty) ∈ scope.symbols) : scope.get name = some ty :=
  lookup_of_nodup hnodup h

end Scope

namespace Checker

variable {cx : Checker} {scope : Scope}

/-- The names of some parameters with their types. -/
def paramTypes (params : List Param) : List (String × TypeName) :=
  params.map fun param => (param.name.name, param.ty)

theorem symbols_checkContractParams {params : List Param} :
    (cx.checkContractParams params scope).value.symbols =
      (paramTypes params).reverse ++ scope.symbols := by
  induction params generalizing scope with
  | nil => rfl
  | cons param rest ih =>
    have hstep : (cx.checkContractParams (param :: rest) scope).value =
        (cx.checkContractParams rest (scope.insert param.name.name param.ty).2).value := by
      cases hfresh : (scope.insert param.name.name param.ty).1 <;>
        simp [checkContractParams, hfresh]
    rw [hstep, ih]
    simp [paramTypes, Scope.insert]

theorem symbols_checkSpendParams {contractScope : Scope} {params : List Param} {st : SpendState} :
    (cx.checkSpendParams contractScope params st).value.scope.symbols =
      (paramTypes params).reverse ++ st.scope.symbols := by
  induction params generalizing st with
  | nil => rfl
  | cons param rest ih =>
    have hstep : (cx.checkSpendParams contractScope (param :: rest) st).value =
        (cx.checkSpendParams contractScope rest
          { st with
            scope := (st.scope.insert param.name.name param.ty).2
            localNames := param.name.name :: st.localNames }).value := by
      by_cases hshadow : contractScope.contains param.name.name = true <;>
        by_cases hlocal : param.name.name ∈ st.localNames <;>
        simp [checkSpendParams, checkSpendParam, hshadow, hlocal]
    rw [hstep, ih]
    simp [paramTypes, Scope.insert]

/-- The scope in front of a statement. -/
def scopeAt (cx : Checker) (contract : Contract) (spend : Spend) (pre : List Stmt) : Scope :=
  (cx.checkStmts pre (cx.spendStart contract spend)).value.scope

/-- The declarations in front of a statement, each with its type: the parameters as written, a
`let` as inferred. -/
inductive DeclaredAt (cx : Checker) (contract : Contract) (spend : Spend) (pre : List Stmt) :
    String → TypeName → Prop
  | contractParam {param} : param ∈ contract.params →
      DeclaredAt cx contract spend pre param.name.name param.ty
  | spendParam {param} : param ∈ spend.params →
      DeclaredAt cx contract spend pre param.name.name param.ty
  | bound {before name e span after ty} : pre = before ++ .let name e span :: after →
      cx.typeOf (cx.scopeAt contract spend before) e = some ty →
      DeclaredAt cx contract spend pre name.name ty

theorem DeclaredAt.name_mem {contract : Contract} {spend : Spend} {pre : List Stmt}
    {name : String} {ty : TypeName} (h : DeclaredAt cx contract spend pre name ty) :
    name ∈ paramNames contract.params ∨ name ∈ paramNames spend.params ∨
      ∃ ident e span, Stmt.let ident e span ∈ pre ∧ ident.name = name := by
  cases h with
  | contractParam hmem => exact Or.inl (List.mem_map_of_mem hmem)
  | spendParam hmem => exact Or.inr (Or.inl (List.mem_map_of_mem hmem))
  | @bound before ident e span after _ hsplit _ =>
    refine Or.inr (Or.inr ⟨ident, e, span, ?_, rfl⟩)
    rw [hsplit]
    exact List.mem_append_right _ List.mem_cons_self

theorem symbols_spendStart {contract : Contract} {spend : Spend} :
    (cx.spendStart contract spend).scope.symbols =
      (paramTypes spend.params).reverse ++ (paramTypes contract.params).reverse := by
  rw [spendStart, symbols_checkSpendParams, contractScope, symbols_checkContractParams, Scope.new,
    List.append_nil]

theorem scope_let {st : SpendState} {name : Ident} {e : Expr} {span : Span}
    (h : (cx.checkStmt st (.let name e span)).Clean) :
    (cx.checkStmt st (.let name e span)).value.scope =
      (cx.typeOf st.scope e).elim st.scope fun ty => (st.scope.insert name.name ty).2 := by
  obtain ⟨hlocal, hscope⟩ := fresh_of_clean_let h
  have hdup : ¬ (name.name ∈ st.localNames ∨ st.scope.contains name.name = true) := by
    rw [Scope.contains_iff]
    tauto
  simp only [checkStmt, Library.Collect.value_bind, if_neg hdup]
  unfold typeOf
  cases (cx.inferExpr st.scope e).value <;> rfl

/-- A statement that passes declares nothing, or a fresh `let` with its inferred type. -/
theorem symbols_checkStmt {st : SpendState} {stmt : Stmt} (h : (cx.checkStmt st stmt).Clean) :
    (cx.checkStmt st stmt).value.scope = st.scope ∨
      ∃ name e span ty, stmt = .let name e span ∧ cx.typeOf st.scope e = some ty ∧
        name.name ∉ st.scope.names ∧
        (cx.checkStmt st stmt).value.scope = (st.scope.insert name.name ty).2 := by
  cases stmt with
  | «let» name e span =>
    rw [scope_let h]
    cases hty : cx.typeOf st.scope e with
    | none => exact Or.inl rfl
    | some ty => exact Or.inr ⟨name, e, span, ty, rfl, hty, (fresh_of_clean_let h).2, rfl⟩
  | require e span =>
    left
    by_cases hty : (cx.inferExpr st.scope e).value ≠ some .bool <;> simp [checkStmt, hty]
  | «return» e span =>
    left
    simp [checkStmt]

/-- No name is declared twice, and nothing that is declared is lost. -/
theorem symbols_checkStmts {pre : List Stmt} {st : SpendState} (h : (cx.checkStmts pre st).Clean)
    (hnodup : st.scope.names.Nodup) :
    (cx.checkStmts pre st).value.scope.names.Nodup ∧
      ∀ symbol ∈ st.scope.symbols, symbol ∈ (cx.checkStmts pre st).value.scope.symbols := by
  induction pre generalizing st with
  | nil => exact ⟨hnodup, fun symbol hsymbol => hsymbol⟩
  | cons stmt rest ih =>
    rw [checkStmts, Library.Collect.clean_bind] at h
    rw [checkStmts, Library.Collect.value_bind]
    rcases symbols_checkStmt h.1 with hsame | ⟨name, e, span, ty, _, _, hfresh, hinsert⟩
    · rw [← hsame] at hnodup
      obtain ⟨hnodup', hkeep⟩ := ih h.2 hnodup
      refine ⟨hnodup', ?_⟩
      intro symbol hsymbol
      rw [← hsame] at hsymbol
      exact hkeep symbol hsymbol
    · have hnodup' : (cx.checkStmt st stmt).value.scope.names.Nodup := by
        rw [hinsert, Scope.names_insert, List.nodup_cons]
        exact ⟨hfresh, hnodup⟩
      obtain ⟨hnodup'', hkeep⟩ := ih h.2 hnodup'
      refine ⟨hnodup'', ?_⟩
      intro symbol hsymbol
      apply hkeep
      rw [hinsert]
      exact List.mem_cons_of_mem _ hsymbol

theorem names_spendStart_nodup {contract : Contract} {spend : Spend}
    (hparams : (paramNames contract.params).Nodup) (h : cx.SpendAccepted contract spend) :
    (cx.spendStart contract spend).scope.names.Nodup := by
  have hnames (params : List Param) : (paramTypes params).map Prod.fst = paramNames params := by
    rw [paramTypes, paramNames, List.map_map]
    rfl
  rw [Scope.names, symbols_spendStart, List.map_append, List.map_reverse, List.map_reverse, hnames,
    hnames, List.nodup_append, List.nodup_reverse, List.nodup_reverse]
  refine ⟨h.fresh.1, hparams, ?_⟩
  intro name hname other hother hsame
  rw [hsame] at hname
  exact h.unshadowed other (List.mem_reverse.mp hname) (List.mem_reverse.mp hother)

/-- In front of every statement of an accepted spend, a declared name has its declared type. -/
theorem get_of_declared {contract : Contract} {spend : Spend} {pre post : List Stmt} {stmt : Stmt}
    (hparams : (paramNames contract.params).Nodup) (h : cx.SpendAccepted contract spend)
    (hbody : spend.body = pre ++ stmt :: post) {name : String} {ty : TypeName}
    (hdeclared : DeclaredAt cx contract spend pre name ty) :
    (cx.scopeAt contract spend pre).get name = some ty := by
  have hclean := h.body
  rw [hbody] at hclean
  have hpre := (clean_checkStmts_at hclean).1
  obtain ⟨hnodup, hkeep⟩ := symbols_checkStmts hpre (names_spendStart_nodup hparams h)
  apply Scope.get_of_mem hnodup
  have hparam (param : Param) (params : List Param) (hmem : param ∈ params) :
      (param.name.name, param.ty) ∈ (paramTypes params).reverse := by
    rw [List.mem_reverse]
    exact List.mem_map_of_mem hmem
  cases hdeclared with
  | contractParam hmem =>
    apply hkeep
    rw [symbols_spendStart]
    exact List.mem_append_right _ (hparam _ _ hmem)
  | spendParam hmem =>
    apply hkeep
    rw [symbols_spendStart]
    exact List.mem_append_left _ (hparam _ _ hmem)
  | @bound before ident e span after _ hsplit hty =>
    subst hsplit
    obtain ⟨hbefore, hlet⟩ := clean_checkStmts_at hpre
    rw [clean_checkStmts_append, checkStmts, Library.Collect.clean_bind] at hpre
    obtain ⟨hnodup', _⟩ := symbols_checkStmts hbefore (names_spendStart_nodup hparams h)
    have hscope := scope_let hlet
    have htype : cx.typeOf (cx.checkStmts before (cx.spendStart contract spend)).value.scope e =
        some ty := hty
    rw [htype] at hscope
    have hnodup'' : (cx.checkStmt (cx.checkStmts before (cx.spendStart contract spend)).value
        (.let ident e span)).value.scope.names.Nodup := by
      rw [hscope]
      exact List.nodup_cons.mpr ⟨(fresh_of_clean_let hlet).2, hnodup'⟩
    rw [value_checkStmts_append, checkStmts, Library.Collect.value_bind]
    apply (symbols_checkStmts hpre.2.2 hnodup'').2
    rw [hscope]
    exact List.mem_cons_self

end Checker

end KaspaScript
