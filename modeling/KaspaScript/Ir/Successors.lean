import KaspaScript.Ir.Continuation
import KaspaScript.Ir.Reached
import KaspaScript.Meaning.Require

namespace KaspaScript

open Checker
open Library (Collect Fresh fresh_append fresh_cons)

/-- The names that the `continuation` calls among some nodes declare, in order. -/
def declaredNames (nodes : List Expr) : List String :=
  nodes.filterMap fun node => (continuationName node).map Prod.fst

theorem declaredNames_append (xs ys : List Expr) :
    declaredNames (xs ++ ys) = declaredNames xs ++ declaredNames ys := List.filterMap_append

theorem declaredNames_cons_none {node : Expr} {nodes : List Expr}
    (h : continuationName node = none) : declaredNames (node :: nodes) = declaredNames nodes := by
  apply List.filterMap_cons_none
  rw [h]
  rfl

/-- A walk that reports nothing only over new names adds the names of these nodes. -/
def Gathers (walk : List String → Collect SemanticError (List String)) (nodes : List Expr) : Prop :=
  ∀ names, (walk names).Clean →
    (walk names).value = (declaredNames nodes).reverse ++ names ∧ Fresh names (declaredNames nodes)

section

variable {cx : Checker} {walk walk' : List String → Collect SemanticError (List String)}
  {nodes nodes' : List Expr}

theorem Gathers.append (h : Gathers walk nodes) (h' : Gathers walk' nodes') :
    Gathers (fun names => walk names >>= walk') (nodes ++ nodes') := by
  intro names hclean
  rw [Library.Collect.clean_bind] at hclean
  obtain ⟨hvalue, hfresh⟩ := h names hclean.1
  obtain ⟨hvalue', hfresh'⟩ := h' _ hclean.2
  rw [hvalue] at hfresh' hvalue'
  rw [Library.Collect.value_bind, declaredNames_append, fresh_append, List.reverse_append,
    List.append_assoc, hvalue]
  exact ⟨hvalue', hfresh, hfresh'⟩

theorem gathers_pure (h : declaredNames nodes = []) : Gathers pure nodes := by
  intro names _
  rw [h]
  exact ⟨rfl, by simp⟩

theorem Gathers.cons {node : Expr} (hnode : continuationName node = none)
    (h : Gathers walk nodes) : Gathers walk (node :: nodes) := by
  intro names hclean
  rw [declaredNames_cons_none hnode]
  exact h names hclean

theorem gathers_record (node : Expr) : Gathers (cx.recordContinuationName node) [node] := by
  intro names hclean
  unfold recordContinuationName at hclean ⊢
  cases hname : continuationName node with
  | none =>
    rw [declaredNames_cons_none hname]
    exact ⟨rfl, by simp [declaredNames]⟩
  | some declared =>
    have hdeclared : declaredNames [node] = [declared.1] := by
      simp [declaredNames, hname]
    rw [hname] at hclean
    rw [hdeclared, fresh_cons]
    by_cases hseen : declared.1 ∈ names
    · simp [hseen] at hclean
    · simp only [hseen, if_false]
      exact ⟨rfl, fun h => h, by simp⟩

theorem gathers_all {es : List Expr}
    (ih : ∀ e ∈ es, Gathers (cx.collectContinuationNames e) e.nodes) :
    Gathers (cx.collectAllContinuationNames es) (allNodes es) := by
  induction es with
  | nil => exact gathers_pure rfl
  | cons e es ihes =>
    exact (ih e List.mem_cons_self).append (ihes fun e' he' => ih e' (List.mem_cons_of_mem _ he'))

/-- The walk over an expression meets every name in it, in order. -/
theorem gathers_expr (e : Expr) : Gathers (cx.collectContinuationNames e) e.nodes := by
  induction e using Expr.induct with
  | array elements span ih =>
    rw [Expr.nodes]
    exact (gathers_all ih).cons rfl
  | unary op e span ih =>
    rw [Expr.nodes]
    exact ih.cons rfl
  | binary left op right span ihl ihr =>
    rw [Expr.nodes]
    exact (ihl.append ihr).cons rfl
  | call callee args span ihc ih =>
    rw [Expr.nodes]
    exact (gathers_record _).append (ihc.append (gathers_all ih))
  | field object field span ih =>
    rw [Expr.nodes]
    exact ih.cons rfl
  | _ =>
    rw [Expr.nodes]
    exact gathers_pure rfl

/-- The expressions that a statement requires. -/
def stmtRequires : Stmt → List Expr
  | .require e _ => [e]
  | .let _ _ _ | .return _ _ => []

theorem requireExprs_flatMap (spend : Spend) : requireExprs spend = spend.body.flatMap stmtRequires := by
  unfold requireExprs
  induction spend.body with
  | nil => rfl
  | cons stmt rest ih =>
    rw [List.filterMap_cons, List.flatMap_cons, ih]
    cases stmt <;> rfl

/-- One statement adds the names of what it requires. -/
theorem checkStmt_names {st : SpendState} {stmt : Stmt} (h : (cx.checkStmt st stmt).Clean) :
    (cx.checkStmt st stmt).value.continuationNames =
        (declaredNames (allNodes (stmtRequires stmt))).reverse ++ st.continuationNames ∧
      Fresh st.continuationNames (declaredNames (allNodes (stmtRequires stmt))) := by
  cases stmt with
  | «let» name e span =>
    refine ⟨?_, by simp [stmtRequires, allNodes, declaredNames]⟩
    simp only [checkStmt, Library.Collect.value_bind]
    split_ifs
    · rfl
    · cases (cx.inferExpr st.scope e).value <;> rfl
  | require e span =>
    obtain ⟨_, _, hnames⟩ := clean_checkStmt_require h
    have hvalue : (cx.checkStmt st (.require e span)).value.continuationNames =
        (cx.collectContinuationNames e st.continuationNames).value := by
      simp only [checkStmt, Library.Collect.value_bind]
      split_ifs <;> rfl
    rw [hvalue, stmtRequires, allNodes, allNodes, List.append_nil]
    exact gathers_expr e st.continuationNames hnames
  | «return» e span =>
    exact ⟨by simp [checkStmt, stmtRequires, allNodes, declaredNames],
      by simp [stmtRequires, allNodes, declaredNames]⟩

theorem checkStmts_names {body : List Stmt} {st : SpendState} (h : (cx.checkStmts body st).Clean) :
    Fresh st.continuationNames (declaredNames (allNodes (body.flatMap stmtRequires))) := by
  induction body generalizing st with
  | nil => simp [allNodes, declaredNames]
  | cons stmt rest ih =>
    rw [checkStmts, Library.Collect.clean_bind] at h
    obtain ⟨hvalue, hfresh⟩ := checkStmt_names h.1
    have hrest := ih h.2
    rw [hvalue] at hrest
    rw [List.flatMap_cons, allNodes_append, declaredNames_append, fresh_append]
    exact ⟨hfresh, hrest⟩

/-- The names of an accepted spend are distinct. -/
theorem nodup_declaredNames {contract : Contract} {spend : Spend}
    (h : cx.SpendAccepted contract spend) :
    (declaredNames (allNodes (requireExprs spend))).Nodup := by
  rw [requireExprs_flatMap]
  exact (checkStmts_names h.body).1

/-- The call `continuation("name", output(i))`. -/
def ContinuationCall (name : String) (i : Nat) (node : Expr) : Prop :=
  ∃ id root nameSpan indexSpan outputSpan span, id.name = "continuation" ∧ root.name = "output" ∧
    i ≤ u32Max ∧ node = .call (.ident id)
      [.string name nameSpan, .call (.ident root) [.integer i indexSpan] outputSpan] span

def isContinuationCall : Expr → Bool
  | .call (.ident id) _ _ => id.name == "continuation"
  | _ => false

/-- The `continuation` calls in the requires of a spend, in source order. -/
def continuationCalls (spend : Spend) : List Expr :=
  (allNodes (requireExprs spend)).filter isContinuationCall

theorem outputCallIndex_eq_some {e : Expr} {i : Nat} (h : outputCallIndex e = some i) :
    ∃ root span span', root.name = "output" ∧ i ≤ u32Max ∧
      e = .call (.ident root) [.integer i span] span' := by
  unfold outputCallIndex at h
  split at h
  · obtain ⟨hroot, hvalue⟩ := Option.ite_none_right_eq_some.mp h
    cases hvalue
    exact ⟨_, _, _, hroot.1, hroot.2, rfl⟩
  · cases h

section

variable {name : String} {i : Nat} {node : Expr}

theorem ContinuationCall.named (h : ContinuationCall name i node) :
    namedSuccessorOutput node = some ⟨name, i⟩ := by
  obtain ⟨id, root, _, _, _, _, hid, hroot, hfits, rfl⟩ := h
  simp [namedSuccessorOutput, hid, outputCallIndex_eq hroot hfits]

theorem ContinuationCall.declares (h : ContinuationCall name i node) :
    (continuationName node).map Prod.fst = some name := by
  obtain ⟨id, root, _, _, _, _, hid, _, _, rfl⟩ := h
  simp [continuationName, hid]

/-- A node that is no `continuation` call names nothing. -/
theorem no_name_of_other (h : isContinuationCall node = false) :
    namedSuccessorOutput node = none ∧ continuationName node = none := by
  constructor
  · unfold namedSuccessorOutput
    split
    · simp only [isContinuationCall, beq_eq_false_iff_ne] at h
      exact if_neg h
    · rfl
  · unfold continuationName
    split
    · simp only [isContinuationCall, beq_eq_false_iff_ne] at h
      exact if_neg h
    · rfl

/-- The `continuation` calls of an accepted expression have a valid name and an output. -/
theorem continuationCall_of_accepted {scope : Scope} {e : Expr} (he : cx.Accepts scope e)
    (hnode : node ∈ e.nodes) (hcall : isContinuationCall node = true) :
    ∃ name i, isValidContinuationName name = true ∧ ContinuationCall name i node := by
  unfold isContinuationCall at hcall
  split at hcall
  · rename_i id args span
    rw [beq_iff_eq] at hcall
    rcases callsSeen e (Or.inl he) _ _ _ hnode with haccepts | houtput
    · cases callForm_of_accepts haccepts with
      | continuation hid hlabel houtput =>
        obtain ⟨root, _, _, hroot, hfits, rfl⟩ := outputCallIndex_eq_some houtput
        exact ⟨_, _, hlabel, _, _, _, _, _, _, hid, hroot, hfits, rfl⟩
      | _ => grind [isBuiltinCallee, builtinCallNames]
    · obtain ⟨i, houtput⟩ := Option.isSome_iff_exists.mp houtput
      obtain ⟨root, _, _, hroot, _, heq⟩ := outputCallIndex_eq_some houtput
      cases heq
      rw [hroot] at hcall
      exact absurd hcall (by decide)
  · cases hcall

end

theorem labelledOutputs_eq (spend : Spend) :
    labelledOutputs spend = (allNodes (requireExprs spend)).filterMap namedSuccessorOutput := by
  unfold labelledOutputs
  induction requireExprs spend with
  | nil => rfl
  | cons e es ih => rw [List.flatMap_cons, allNodes, List.filterMap_append, collectNamed_eq, ih]

theorem forall₂_filterMap {α β : Type} {p : α → Bool} {f : α → Option β} {R : α → β → Prop}
    {xs : List α} (hyes : ∀ x ∈ xs, p x = true → ∃ y, f x = some y ∧ R x y)
    (hno : ∀ x ∈ xs, p x = false → f x = none) : List.Forall₂ R (xs.filter p) (xs.filterMap f) := by
  induction xs with
  | nil => exact .nil
  | cons x xs ih =>
    have hrest := ih (fun y hy => hyes y (List.mem_cons_of_mem _ hy))
      (fun y hy => hno y (List.mem_cons_of_mem _ hy))
    cases hx : p x with
    | true =>
      obtain ⟨y, hy, hR⟩ := hyes x List.mem_cons_self hx
      rw [List.filter_cons_of_pos hx, List.filterMap_cons_some hy]
      exact .cons hR hrest
    | false =>
      rw [List.filter_cons_of_neg (by simp [hx]),
        List.filterMap_cons_none (hno x List.mem_cons_self hx)]
      exact hrest

/-- A non-empty label of letters, digits, `_` and `-` that starts with a letter or `_`. -/
def IsLabel (name : String) : Prop :=
  ∃ first rest, name.toList = first :: rest ∧ (first = '_' ∨ first.isAlpha = true) ∧
    ∀ ch ∈ rest, ch = '_' ∨ ch = '-' ∨ ch.isAlphanum = true

theorem isLabel_of_valid {name : String} (h : isValidContinuationName name = true) :
    IsLabel name := by
  unfold isValidContinuationName at h
  split at h
  · cases h
  · rename_i first rest hname
    simp only [Bool.and_eq_true, Bool.or_eq_true, beq_iff_eq, List.all_eq_true, or_assoc] at h
    exact ⟨first, rest, hname, h.1, h.2⟩

theorem namedSuccessorOutputs_eq (spend : Spend) :
    (buildTransitionModel spend).continuation.namedSuccessorOutputs = labelledOutputs spend := by
  rw [continuation_eq]
  simp only [continuationModel]
  split_ifs with _ _ hnamed
  · rfl
  · rfl
  · rfl
  · exact (not_not.mp hnamed).symm

theorem labelled_mem_successors {spend : Spend} {named : NamedContinuationOutput}
    (h : named ∈ labelledOutputs spend) :
    named.outputIndex ∈ (buildTransitionModel spend).continuation.successorOutputs := by
  have hmem : named.outputIndex ∈ (labelledOutputs spend).map NamedContinuationOutput.outputIndex :=
    List.mem_map_of_mem h
  have hne : labelledOutputs spend ≠ [] := List.ne_nil_of_mem h
  rw [continuation_eq]
  simp only [continuationModel, if_pos hne]
  split_ifs
  · exact mem_sortedSet.mpr (List.mem_append_right _ hmem)
  · exact mem_sortedSet.mpr (List.mem_append_right _ hmem)
  · exact mem_sortedSet.mpr hmem

/-- The instructions of a `continuation` call leave true exactly when the output is there. -/
theorem runs_continuation {name : String} {i : Nat} {node : Expr} (h : ContinuationCall name i node)
    (file : String) : ∃ code, lowerExpr file node = .ok code ∧
      ∀ env value stack, env.populated.tx.outputs.length ≤ i64Max →
        runInstructions env value code stack =
          some (boolBytes (decide (i < env.populated.tx.outputs.length)) :: stack) := by
  obtain ⟨id, root, nameSpan, indexSpan, outputSpan, span, hid, hroot, hfits, rfl⟩ := h
  have hlower : lowerExpr file (.call (.ident id)
      [.string name nameSpan, .call (.ident root) [.integer i indexSpan] outputSpan] span) =
      .ok (emit span .outputCount ++ emit span (.push (.integer i)) ++ emit span .greaterThan) := by
    simp [lowerExpr, lowerCall, hid, lowerContinuation, outputCallIndex_eq hroot hfits]
  refine ⟨_, hlower, ?_⟩
  intro env value stack houtputs
  have hpreserved := @preserved_continuation ⟨env, value, fun _ => true⟩ file id root
    (.string name nameSpan) i indexSpan outputSpan span hid hroot hfits houtputs
  obtain ⟨code, hcode, hrunnable, hcomputes⟩ := hpreserved.lowers
  rw [hlower, Except.ok.injEq] at hcode
  subst hcode
  rw [runInstructions_eq hrunnable, hcomputes stack, eval_continuation hid hroot hfits]
  rfl

/-- A named output is a referenced one. -/
theorem referenced_of_call {spend : Spend} {name : String} {i : Nat} {node : Expr}
    (hnode : node ∈ allNodes (requireExprs spend)) (h : ContinuationCall name i node) :
    Referenced spend .output i := by
  obtain ⟨e, he, hnode⟩ := mem_allNodes.mp hnode
  obtain ⟨id, root, nameSpan, indexSpan, outputSpan, span, _, hroot, _, rfl⟩ := h
  refine ⟨e, he, root, indexSpan, [], outputSpan, hroot, Expr.nodes_trans hnode ?_⟩
  simp [Expr.nodes, allNodes]

/-- The successor outputs that a spend names: one entry a call, under distinct labels, each of
them listed, within the exact count, and checked by the script. -/
structure ExactSuccessors (spend : Spend) : Prop where
  calls : List.Forall₂ (fun node named => ContinuationCall named.name named.outputIndex node)
    (continuationCalls spend) (buildTransitionModel spend).continuation.namedSuccessorOutputs
  distinct : ((buildTransitionModel spend).continuation.namedSuccessorOutputs.map
    NamedContinuationOutput.name).Nodup
  labels : ∀ named ∈ (buildTransitionModel spend).continuation.namedSuccessorOutputs,
    IsLabel named.name
  listed : ∀ named ∈ (buildTransitionModel spend).continuation.namedSuccessorOutputs,
    named.outputIndex ∈ (buildTransitionModel spend).continuation.successorOutputs
  below : ∀ named ∈ (buildTransitionModel spend).continuation.namedSuccessorOutputs, ∀ n,
    (buildTransitionModel spend).transactionShape.exactOutputCount = some n → named.outputIndex < n
  checked : ∀ node ∈ continuationCalls spend, ∀ name i, ContinuationCall name i node → ∀ file,
    ∃ code, lowerExpr file node = .ok code ∧
      ∀ env value stack, env.populated.tx.outputs.length ≤ i64Max →
        runInstructions env value code stack =
          some (boolBytes (decide (i < env.populated.tx.outputs.length)) :: stack)

/-- The named continuations of an accepted spend are exact and unambiguous. -/
theorem exactSuccessors (program : Program) (source file : String) (analysis : Analysis)
    (h : analyzeProgram program source file = .ok analysis) :
    ∀ contract ∈ program.contracts, ∀ spend ∈ contract.spends, ExactSuccessors spend := by
  intro contract hcontract spend hspend
  obtain ⟨haccepted, _⟩ := accepted_of_analyzeProgram h
  have hshape := spendShape_of_accepted ((haccepted.contract contract hcontract).spend spend hspend)
  have hnames := nodup_declaredNames ((haccepted.contract contract hcontract).spend spend hspend)
  have hcall : ∀ node ∈ allNodes (requireExprs spend), isContinuationCall node = true →
      ∃ name i, isValidContinuationName name = true ∧ ContinuationCall name i node := by
    intro node hnode hcall
    obtain ⟨e, he, hnode⟩ := mem_allNodes.mp hnode
    obtain ⟨span, hmem⟩ := mem_requireExprs.mp he
    obtain ⟨scope, haccepts⟩ := haccepted.expr hcontract hspend hmem
    exact continuationCall_of_accepted haccepts hnode hcall
  have hnamed : ∀ named ∈ labelledOutputs spend, ∃ node ∈ allNodes (requireExprs spend),
      isValidContinuationName named.name = true ∧
        ContinuationCall named.name named.outputIndex node := by
    intro named hmem
    rw [labelledOutputs_eq, List.mem_filterMap] at hmem
    obtain ⟨node, hnode, hsome⟩ := hmem
    cases his : isContinuationCall node with
    | false =>
      rw [(no_name_of_other his).1] at hsome
      cases hsome
    | true =>
      obtain ⟨name, i, hvalid, hform⟩ := hcall node hnode his
      rw [hform.named, Option.some.injEq] at hsome
      subst hsome
      exact ⟨node, hnode, hvalid, hform⟩
  have hdeclared : (labelledOutputs spend).map NamedContinuationOutput.name =
      declaredNames (allNodes (requireExprs spend)) := by
    rw [labelledOutputs_eq, List.map_filterMap]
    apply List.filterMap_congr
    intro node hnode
    cases his : isContinuationCall node with
    | false =>
      rw [(no_name_of_other his).1, (no_name_of_other his).2]
      rfl
    | true =>
      obtain ⟨name, i, _, hform⟩ := hcall node hnode his
      rw [hform.named, hform.declares]
      rfl
  constructor
  · rw [namedSuccessorOutputs_eq, labelledOutputs_eq]
    apply forall₂_filterMap
    · intro node hnode his
      obtain ⟨name, i, _, hform⟩ := hcall node hnode his
      exact ⟨⟨name, i⟩, hform.named, hform⟩
    · intro node _ his
      exact (no_name_of_other his).1
  · rw [namedSuccessorOutputs_eq, hdeclared]
    exact hnames
  · intro named hmem
    rw [namedSuccessorOutputs_eq] at hmem
    obtain ⟨_, _, hvalid, _⟩ := hnamed named hmem
    exact isLabel_of_valid hvalid
  · intro named hmem
    rw [namedSuccessorOutputs_eq] at hmem
    exact labelled_mem_successors hmem
  · intro named hmem n hcount
    rw [namedSuccessorOutputs_eq] at hmem
    obtain ⟨node, hnode, _, hform⟩ := hnamed named hmem
    have hexact : countOf (exactTransactionCounts spend) .output = some n := hcount
    exact hshape.above .output n named.outputIndex ((exactTransactionCounts_iff hshape).mp hexact)
      (referenced_of_call hnode hform)
  · intro node _ name i hform file
    exact runs_continuation hform file

end

/-- `require continuation("state", output(0)) && output_count == 2;` -/
def continuedSpend : Spend :=
  ⟨nameAt "move", [],
    [.require (.binary
      (.call (.ident (nameAt "continuation")) [.string "state" ⟨0, 0⟩,
        .call (.ident (nameAt "output")) [.integer 0 ⟨0, 0⟩] ⟨0, 0⟩] ⟨0, 0⟩) .and
      (.binary (.ident (nameAt "output_count")) .equal (.integer 2 ⟨0, 0⟩) ⟨0, 0⟩) ⟨0, 0⟩) ⟨0, 0⟩],
    ⟨0, 0⟩⟩

/-- `contract Continued { params { owner: PublicKey } spend move() { .. } }` -/
def continuedContract : Contract :=
  ⟨nameAt "Continued", [⟨nameAt "owner", .publicKey, ⟨0, 0⟩⟩], none, [continuedSpend], ⟨0, 0⟩⟩

theorem exactSuccessors_continued :
    (buildTransitionModel continuedSpend).continuation.namedSuccessorOutputs = [⟨"state", 0⟩] ∧
      ExactSuccessors continuedSpend :=
  ⟨rfl, exactSuccessors ⟨[continuedContract]⟩ "" "continued.ks" _ rfl continuedContract
    (List.mem_singleton_self _) continuedSpend (List.mem_singleton_self _)⟩

end KaspaScript
