import KaspaScript.Parser.Grammar
import KaspaScript.Semantic.Checker

namespace KaspaScript

open Library (Collect)
open Library.Collect (Reports reports_bind reports_pure reports_report)

/-- The spans that a diagnostic about the statement can point at. -/
def Stmt.spans : Stmt → List Span
  | .let name expr _ => name.span :: expr.spans
  | .require expr _ | .return expr _ => expr.spans

def paramSpans (params : List Param) : List Span := params.map fun param => param.name.span

def Spend.spans (spend : Spend) : List Span :=
  spend.name.span :: (paramSpans spend.params ++ spend.body.flatMap Stmt.spans)

def Contract.spans (contract : Contract) : List Span :=
  contract.name.span :: (paramSpans contract.params ++ contract.spends.flatMap Spend.spans)

/-- The spans of the names and expressions of a program. -/
def Program.spans (program : Program) : List Span := program.contracts.flatMap Contract.spans

namespace Checker

/-- The diagnostic points at one of these spans, and gives the place where that span starts. -/
structure At (cx : Checker) (spans : List Span) (error : SemanticError) : Prop where
  location : ⟨error.file, error.line, error.column⟩ = locate cx.source cx.file error.span.start
  span : error.span ∈ spans

section

variable {cx : Checker} {spans : List Span} {scope : Scope}

@[simp] theorem reports_error {span : Span} {message : String} :
    Reports (cx.At spans) (cx.error span message) ↔ span ∈ spans := by
  rw [error, reports_report]
  exact ⟨fun h => h.span, fun h => ⟨rfl, h⟩⟩

theorem reports_inferIdentifier {id : Ident} (h : id.span ∈ spans) :
    Reports (cx.At spans) (cx.inferIdentifier id scope) := by
  unfold inferIdentifier
  split_ifs
  · simp [h]
  · split <;> simp [h]

theorem reports_checkIndexCall {args : List Expr} {span : Span} {ty : TypeName}
    (hspan : span ∈ spans) (hargs : ∀ arg ∈ args, arg.span ∈ spans) :
    Reports (cx.At spans) (cx.checkIndexCall args span ty) := by
  unfold checkIndexCall
  split
  · rename_i value argSpan
    have hliteral : argSpan ∈ spans := hargs _ (List.mem_singleton_self _)
    simp [hliteral]
  · simpa using hargs
  · simpa using hspan

theorem reports_checkContinuation {args : List Expr} {span : Span} (hspan : span ∈ spans)
    (hargs : ∀ arg ∈ args, arg.span ∈ spans) :
    Reports (cx.At spans) (cx.checkContinuation args span) := by
  unfold checkContinuation
  split
  · rename_i name output
    have hname := hargs name (by simp)
    have houtput := hargs output (by simp)
    cases name with
    | string value nameSpan =>
      have hliteral : nameSpan ∈ spans := hname
      simp [hliteral, houtput]
    | _ => simp [hname, houtput]
  · exact reports_error.mpr hspan

theorem reports_checkMultisig {args : List Expr} {span : Span}
    {inferred : Collect SemanticError (List (Option TypeName))} (hspan : span ∈ spans)
    (hargs : ∀ arg ∈ args, arg.span ∈ spans) (hinferred : Reports (cx.At spans) inferred) :
    Reports (cx.At spans) (cx.checkMultisig args span inferred) := by
  unfold checkMultisig
  split
  · rename_i threshold keys signatures
    have hthreshold := hargs threshold (by simp)
    cases threshold with
    | integer k kSpan =>
      have hliteral : kSpan ∈ spans := hthreshold
      cases keys <;> simp [hliteral, hinferred]
    | _ => simp [hthreshold, hinferred]
  · exact reports_error.mpr hspan

/-- The checks of a call point at its callee and its arguments. -/
theorem reports_inferCall {callee : Expr} {args : List Expr}
    {receiver calleeType : Collect SemanticError (Option TypeName)}
    {argTypes : Collect SemanticError (List (Option TypeName))}
    (hcallee : ∀ span ∈ callee.spans, span ∈ spans) (hargs : ∀ arg ∈ args, arg.span ∈ spans)
    (hreceiver : Reports (cx.At spans) receiver) (htype : Reports (cx.At spans) calleeType)
    (htypes : Reports (cx.At spans) argTypes) :
    Reports (cx.At spans) (cx.inferCall callee args receiver calleeType argTypes) := by
  have hother : Reports (cx.At spans) (do
      let _ ← calleeType
      let _ ← argTypes
      pure (some .bool) : Collect SemanticError (Option TypeName)) := by
    simp [htype, htypes]
  unfold inferCall
  cases callee with
  | field object field span =>
    have hobject : object.span ∈ spans := by
      apply hcallee
      exact mem_spans_field.mpr (.inr (.inr (span_mem_spans object)))
    have hfield : field.span ∈ spans := hcallee _ (mem_spans_field.mpr (.inr (.inl rfl)))
    simp only
    split
    · refine reports_bind.mpr ⟨hreceiver, ?_⟩
      split
      · refine reports_bind.mpr ⟨reports_error.mpr hobject, ?_⟩
        split
        · have harg := hargs _ (List.mem_singleton_self _)
          simp [htypes, harg]
        · simp [hfield]
      · split
        · have harg := hargs _ (List.mem_singleton_self _)
          simp [htypes, harg]
        · simp [hfield]
    · exact hother
  | ident id =>
    have hid : id.span ∈ spans := hcallee _ (span_mem_spans (.ident id))
    simp only
    split
    · exact reports_checkIndexCall hid hargs
    · exact reports_checkIndexCall hid hargs
    · simp [reports_checkContinuation hid hargs]
    · split
      · have hproof := hargs _ (List.mem_singleton_self _)
        simp [htypes, hproof]
      · simp [hid]
    · simp [reports_checkMultisig hid hargs htypes]
    · split <;> simp [htypes, hid]
    · split <;> simp [htypes, hid]
    · split <;> simp [htypes, hid]
    · exact hother
  | _ => exact hother

theorem reports_inferField {object : Expr} {field : Ident}
    {objectType : Collect SemanticError (Option TypeName)} (hfield : field.span ∈ spans)
    (htype : Reports (cx.At spans) objectType) :
    Reports (cx.At spans) (cx.inferField object field objectType) := by
  unfold inferField
  cases object with
  | ident root =>
    simp only
    split
    · split <;> simp [hfield]
    · split
      · simp
      · split
        · simp
        · refine reports_bind.mpr ⟨htype, ?_⟩
          split
          · split <;> simp [hfield]
          · split <;> simp [hfield]
          · simp
  | _ =>
    refine reports_bind.mpr ⟨htype, ?_⟩
    split
    · split <;> simp [hfield]
    · split <;> simp [hfield]
    · simp

theorem reports_inferAll {es : List Expr}
    (h : ∀ e ∈ es, Reports (cx.At spans) (cx.inferExpr scope e)) :
    Reports (cx.At spans) (cx.inferAll scope es) := by
  induction es with
  | nil => simp [inferAll]
  | cons e es ih =>
    obtain ⟨he, hes⟩ := List.forall_mem_cons.mp h
    simp [inferAll, he, ih hes]

/-- Inference points at the nodes and field names of the expression. -/
theorem reports_inferExpr (e : Expr) (h : ∀ span ∈ e.spans, span ∈ spans) :
    Reports (cx.At spans) (cx.inferExpr scope e) := by
  -- a call's receiver lies two levels down, so the statement carries the object of a field too
  suffices hboth : ((∀ span ∈ e.spans, span ∈ spans) →
        Reports (cx.At spans) (cx.inferExpr scope e)) ∧
      ∀ object field span, e = .field object field span → (∀ span ∈ object.spans, span ∈ spans) →
        Reports (cx.At spans) (cx.inferExpr scope object) from hboth.1 h
  clear h
  induction e using Expr.induct with
  | ident id =>
    refine ⟨?_, by simp⟩
    intro h
    rw [inferExpr]
    exact reports_inferIdentifier (h _ (span_mem_spans (.ident id)))
  | integer value span => exact ⟨fun _ => reports_pure _, by simp⟩
  | string value span => exact ⟨fun _ => reports_pure _, by simp⟩
  | bool value span => exact ⟨fun _ => reports_pure _, by simp⟩
  | array elements span ih =>
    refine ⟨?_, by simp⟩
    intro h
    have helements : Reports (cx.At spans) (cx.inferAll scope elements) := by
      apply reports_inferAll
      intro e he
      apply (ih e he).1
      intro span' hspan'
      exact h span' (mem_spans_array.mpr (.inr ⟨e, he, hspan'⟩))
    simp [inferExpr, helements]
  | unary op e span ih =>
    refine ⟨?_, by simp⟩
    intro h
    have hinner : ∀ span ∈ e.spans, span ∈ spans := by
      intro span' hspan'
      exact h span' (mem_spans_unary.mpr (.inr hspan'))
    have hspan := hinner _ (span_mem_spans e)
    simp [inferExpr, ih.1 hinner, hspan]
  | binary left op right span ihl ihr =>
    refine ⟨?_, by simp⟩
    intro h
    have hleft : ∀ span ∈ left.spans, span ∈ spans := by
      intro span' hspan'
      exact h span' (mem_spans_binary.mpr (.inr (.inl hspan')))
    have hright : ∀ span ∈ right.spans, span ∈ spans := by
      intro span' hspan'
      exact h span' (mem_spans_binary.mpr (.inr (.inr hspan')))
    have hspan := h span (mem_spans_binary.mpr (.inl rfl))
    cases op <;> simp [inferExpr, ihl.1 hleft, ihr.1 hright, hspan]
  | call callee args span ihc ih =>
    refine ⟨?_, by simp⟩
    intro h
    have hcallee : ∀ span ∈ callee.spans, span ∈ spans := by
      intro span' hspan'
      exact h span' (mem_spans_call.mpr (.inr (.inl hspan')))
    have harg (arg : Expr) (harg : arg ∈ args) : ∀ span ∈ arg.spans, span ∈ spans := by
      intro span' hspan'
      exact h span' (mem_spans_call.mpr (.inr (.inr ⟨arg, harg, hspan'⟩)))
    have htypes : Reports (cx.At spans) (cx.inferAll scope args) :=
      reports_inferAll fun arg hmem => (ih arg hmem).1 (harg arg hmem)
    have hargs : ∀ arg ∈ args, arg.span ∈ spans := by
      intro arg hmem
      exact harg arg hmem _ (span_mem_spans arg)
    cases callee with
    | field object field span' =>
      have hobject : Reports (cx.At spans) (cx.inferExpr scope object) := by
        apply ihc.2 object field span' rfl
        intro span'' hspan''
        exact hcallee span'' (mem_spans_field.mpr (.inr (.inr hspan'')))
      rw [inferExpr]
      exact reports_inferCall hcallee hargs hobject (ihc.1 hcallee) htypes
    | _ =>
      rw [inferExpr]
      · exact reports_inferCall hcallee hargs (reports_pure _) (ihc.1 hcallee) htypes
      · simp
  | field object field span ih =>
    refine ⟨?_, ?_⟩
    · intro h
      have hobject : ∀ span ∈ object.spans, span ∈ spans := by
        intro span' hspan'
        exact h span' (mem_spans_field.mpr (.inr (.inr hspan')))
      rw [inferExpr]
      exact reports_inferField (h _ (mem_spans_field.mpr (.inr (.inl rfl)))) (ih.1 hobject)
    · intro object' field' span' heq hobject
      cases heq
      exact ih.1 hobject

/-- The spans of the highest indexes are among these. -/
def IndexesAt (spans : List Span) (facts : ShapeFacts) : Prop :=
  ∀ subject value span, (facts.get subject).maxIndex = some (value, span) → span ∈ spans

theorem indexesAt_set {facts : ShapeFacts} (h : IndexesAt spans facts) {subject : CountSubject}
    {counts : CountFacts} (hcounts : ∀ value span, counts.maxIndex = some (value, span) →
      span ∈ spans) : IndexesAt spans (facts.set subject counts) := by
  intro subject' value span hindex
  have hget : (facts.set subject counts).get subject' =
      if subject' = subject then counts else facts.get subject' := by
    cases subject <;> cases subject' <;> rfl
  rw [hget] at hindex
  split_ifs at hindex
  · exact hcounts value span hindex
  · exact h subject' value span hindex

theorem indexesAt_recordIndex {facts : ShapeFacts} (h : IndexesAt spans facts)
    {subject : CountSubject} {value : Nat} {span : Span} (hspan : span ∈ spans) :
    IndexesAt spans (recordIndex facts subject value span) := by
  have hnew : IndexesAt spans
      (facts.set subject { facts.get subject with maxIndex := some (value, span) }) := by
    apply indexesAt_set h
    intro value' span' hsame
    cases hsame
    exact hspan
  unfold recordIndex
  split
  · split_ifs
    · exact h
    · exact hnew
  · exact hnew

theorem indexesAt_recordCallIndex {facts : ShapeFacts} (h : IndexesAt spans facts)
    {callee : Expr} {args : List Expr} (hargs : ∀ arg ∈ args, arg.span ∈ spans) :
    IndexesAt spans (recordCallIndex callee args facts) := by
  unfold recordCallIndex
  split
  · rename_i id value span rest
    have hspan : span ∈ spans := hargs _ List.mem_cons_self
    split
    · exact indexesAt_recordIndex h hspan
    · exact indexesAt_recordIndex h hspan
    · exact h
  · exact h

theorem indexesAt_collectAll {es : List Expr} {facts : ShapeFacts} (hfacts : IndexesAt spans facts)
    (h : ∀ e ∈ es, ∀ facts, IndexesAt spans facts →
      IndexesAt spans (collectIndexReferences e facts)) :
    IndexesAt spans (collectAllIndexReferences es facts) := by
  induction es generalizing facts with
  | nil => exact hfacts
  | cons e es ih =>
    obtain ⟨he, hes⟩ := List.forall_mem_cons.mp h
    exact ih (he facts hfacts) hes

theorem indexesAt_collect (e : Expr) (h : ∀ span ∈ e.spans, span ∈ spans) (facts : ShapeFacts)
    (hfacts : IndexesAt spans facts) : IndexesAt spans (collectIndexReferences e facts) := by
  induction e using Expr.induct generalizing facts with
  | ident id | integer value span | string value span | bool value span => exact hfacts
  | array elements span ih =>
    apply indexesAt_collectAll hfacts
    intro e he
    apply ih e he
    intro span' hspan'
    exact h span' (mem_spans_array.mpr (.inr ⟨e, he, hspan'⟩))
  | unary op e span ih =>
    apply ih _ facts hfacts
    intro span' hspan'
    exact h span' (mem_spans_unary.mpr (.inr hspan'))
  | binary left op right span ihl ihr =>
    apply ihr
    · intro span' hspan'
      exact h span' (mem_spans_binary.mpr (.inr (.inr hspan')))
    · apply ihl _ facts hfacts
      intro span' hspan'
      exact h span' (mem_spans_binary.mpr (.inr (.inl hspan')))
  | call callee args span ihc ih =>
    have harg (arg : Expr) (harg : arg ∈ args) : ∀ span ∈ arg.spans, span ∈ spans := by
      intro span' hspan'
      exact h span' (mem_spans_call.mpr (.inr (.inr ⟨arg, harg, hspan'⟩)))
    have hargs : ∀ arg ∈ args, arg.span ∈ spans := by
      intro arg hmem
      exact harg arg hmem _ (span_mem_spans arg)
    apply indexesAt_collectAll
    · apply ihc _ _ (indexesAt_recordCallIndex hfacts hargs)
      intro span' hspan'
      exact h span' (mem_spans_call.mpr (.inr (.inl hspan')))
    · intro arg hmem
      exact ih arg hmem (harg arg hmem)
  | field object field span ih =>
    apply ih _ facts hfacts
    intro span' hspan'
    exact h span' (mem_spans_field.mpr (.inr (.inr hspan')))

/-- Running the check points at these spans only, and keeps the indexes' spans among them. -/
def Keeps (cx : Checker) (spans : List Span) (x : Collect SemanticError ShapeFacts) : Prop :=
  Reports (cx.At spans) x ∧ IndexesAt spans x.value

theorem keeps_recordExactCount {facts : ShapeFacts} (h : IndexesAt spans facts)
    {subject : CountSubject} {value : Nat} {span : Span} (hspan : span ∈ spans) :
    Keeps cx spans (cx.recordExactCount facts subject value span) := by
  have hset : IndexesAt spans
      (facts.set subject { facts.get subject with exact := some (value, span) }) :=
    indexesAt_set h fun value' span' hindex => h subject value' span' hindex
  unfold Keeps recordExactCount
  cases (facts.get subject).exact with
  | none => by_cases hlarge : value > u32Max <;> simp [hlarge, hspan, hset]
  | some known =>
    obtain ⟨existing, span'⟩ := known
    by_cases hlarge : value > u32Max <;> by_cases hsame : existing = value <;>
      simp [hlarge, hsame, hspan, h]

theorem countSpan_mem {e : Expr} {subject : CountSubject} {value : Nat} {span : Span}
    (h : exactCountConstraint e = some (subject, value, span)) : span ∈ e.spans := by
  unfold exactCountConstraint at h
  split at h
  · rename_i left right own
    split at h
    · cases h
      exact mem_spans_binary.mpr (.inr (.inr (span_mem_spans (.integer _ _))))
    · split at h
      · cases h
        exact mem_spans_binary.mpr (.inr (.inl (span_mem_spans (.integer _ _))))
      · cases h
  · cases h

theorem keeps_exactCount {e : Expr} (h : ∀ span ∈ e.spans, span ∈ spans) {facts : ShapeFacts}
    (hfacts : IndexesAt spans facts) :
    Keeps cx spans (match exactCountConstraint e with
      | some (subject, value, span) => cx.recordExactCount facts subject value span
      | none => pure facts) := by
  cases hcount : exactCountConstraint e with
  | none => exact ⟨reports_pure _, hfacts⟩
  | some constraint =>
    obtain ⟨subject, value, span⟩ := constraint
    exact keeps_recordExactCount hfacts (h span (countSpan_mem hcount))

theorem keeps_exactCounts (e : Expr) (h : ∀ span ∈ e.spans, span ∈ spans) (facts : ShapeFacts)
    (hfacts : IndexesAt spans facts) :
    Keeps cx spans (cx.collectExactCountsFromConjunction e facts) := by
  induction e using Expr.induct generalizing facts with
  | binary left op right span ihl ihr =>
    have hleft : ∀ span ∈ left.spans, span ∈ spans := by
      intro span' hspan'
      exact h span' (mem_spans_binary.mpr (.inr (.inl hspan')))
    have hright : ∀ span ∈ right.spans, span ∈ spans := by
      intro span' hspan'
      exact h span' (mem_spans_binary.mpr (.inr (.inr hspan')))
    cases op with
    | and =>
      rw [collectExactCountsFromConjunction]
      have hfirst := ihl hleft facts hfacts
      have hsecond := ihr hright _ hfirst.2
      exact ⟨reports_bind.mpr ⟨hfirst.1, hsecond.1⟩, hsecond.2⟩
    | _ => exact keeps_exactCount h hfacts
  | _ => exact ⟨reports_pure _, hfacts⟩

theorem reports_recordContinuationName {e : Expr} (h : ∀ span ∈ e.spans, span ∈ spans)
    (names : List String) : Reports (cx.At spans) (cx.recordContinuationName e names) := by
  unfold recordContinuationName
  cases hname : continuationName e with
  | none => simp
  | some found =>
    obtain ⟨name, span⟩ := found
    have hspan : span ∈ spans := by
      unfold continuationName at hname
      split at hname
      · split_ifs at hname
        cases hname
        apply h
        exact mem_spans_call.mpr (.inr (.inr ⟨_, List.mem_cons_self, span_mem_spans (.string _ _)⟩))
      · cases hname
    simp [hspan]

theorem reports_collectAllNames {es : List Expr} {names : List String}
    (h : ∀ e ∈ es, ∀ names, Reports (cx.At spans) (cx.collectContinuationNames e names)) :
    Reports (cx.At spans) (cx.collectAllContinuationNames es names) := by
  induction es generalizing names with
  | nil => simp [collectAllContinuationNames]
  | cons e es ih =>
    obtain ⟨he, hes⟩ := List.forall_mem_cons.mp h
    simp [collectAllContinuationNames, he, ih hes]

theorem reports_collectNames (e : Expr) (h : ∀ span ∈ e.spans, span ∈ spans)
    (names : List String) : Reports (cx.At spans) (cx.collectContinuationNames e names) := by
  induction e using Expr.induct generalizing names with
  | ident id | integer value span | string value span | bool value span => exact reports_pure _
  | array elements span ih =>
    apply reports_collectAllNames
    intro e he
    apply ih e he
    intro span' hspan'
    exact h span' (mem_spans_array.mpr (.inr ⟨e, he, hspan'⟩))
  | unary op e span ih =>
    apply ih
    intro span' hspan'
    exact h span' (mem_spans_unary.mpr (.inr hspan'))
  | binary left op right span ihl ihr =>
    have hleft : ∀ span ∈ left.spans, span ∈ spans := by
      intro span' hspan'
      exact h span' (mem_spans_binary.mpr (.inr (.inl hspan')))
    have hright : ∀ span ∈ right.spans, span ∈ spans := by
      intro span' hspan'
      exact h span' (mem_spans_binary.mpr (.inr (.inr hspan')))
    simp [collectContinuationNames, ihl hleft, ihr hright]
  | call callee args span ihc ih =>
    have hcallee : ∀ span ∈ callee.spans, span ∈ spans := by
      intro span' hspan'
      exact h span' (mem_spans_call.mpr (.inr (.inl hspan')))
    have hargs (names : List String) :
        Reports (cx.At spans) (cx.collectAllContinuationNames args names) := by
      apply reports_collectAllNames
      intro arg hmem
      apply ih arg hmem
      intro span' hspan'
      exact h span' (mem_spans_call.mpr (.inr (.inr ⟨arg, hmem, hspan'⟩)))
    simp [collectContinuationNames, reports_recordContinuationName h, ihc hcallee, hargs]
  | field object field span ih =>
    apply ih
    intro span' hspan'
    exact h span' (mem_spans_field.mpr (.inr (.inr hspan')))

/-- What the loop over the statements carries points at these spans only. -/
def KeepsState (cx : Checker) (spans : List Span) (x : Collect SemanticError SpendState) : Prop :=
  Reports (cx.At spans) x ∧ IndexesAt spans x.value.shapeFacts

theorem keepsState_stmt {stmt : Stmt} (h : ∀ span ∈ stmt.spans, span ∈ spans) {st : SpendState}
    (hst : IndexesAt spans st.shapeFacts) : KeepsState cx spans (cx.checkStmt st stmt) := by
  cases stmt with
  | «let» name e span =>
    have hname : name.span ∈ spans := h _ List.mem_cons_self
    have hexpr : Reports (cx.At spans) (cx.inferExpr st.scope e) :=
      reports_inferExpr e fun span' hspan' => h span' (List.mem_cons_of_mem _ hspan')
    by_cases hrepeated : name.name ∈ st.localNames ∨ st.scope.contains name.name = true
    · simp [KeepsState, checkStmt, hrepeated, hexpr, hname, hst]
    · cases hty : (cx.inferExpr st.scope e).value <;>
        simp [KeepsState, checkStmt, hrepeated, hexpr, hty, hst]
  | require e span =>
    have hexpr : Reports (cx.At spans) (cx.inferExpr st.scope e) := reports_inferExpr e h
    have hcounts : Keeps cx spans (cx.collectExactCountsFromConjunction e st.shapeFacts) :=
      keeps_exactCounts e h st.shapeFacts hst
    have hindexes := indexesAt_collect e h _ hcounts.2
    have hnames : Reports (cx.At spans) (cx.collectContinuationNames e st.continuationNames) :=
      reports_collectNames e h st.continuationNames
    have hspan := h _ (span_mem_spans e)
    simp [KeepsState, checkStmt, hexpr, hspan, hcounts.1, hnames, hindexes]
  | «return» e span =>
    have hexpr : Reports (cx.At spans) (cx.inferExpr st.scope e) := reports_inferExpr e h
    exact ⟨reports_bind.mpr ⟨hexpr, reports_pure _⟩, hst⟩

theorem keepsState_stmts {body : List Stmt} (h : ∀ span ∈ body.flatMap Stmt.spans, span ∈ spans)
    {st : SpendState} (hst : IndexesAt spans st.shapeFacts) :
    KeepsState cx spans (cx.checkStmts body st) := by
  induction body generalizing st with
  | nil => exact ⟨reports_pure _, hst⟩
  | cons stmt body ih =>
    rw [List.flatMap_cons, List.forall_mem_append] at h
    have hfirst : KeepsState cx spans (cx.checkStmt st stmt) := keepsState_stmt h.1 hst
    have hrest := ih h.2 hfirst.2
    exact ⟨reports_bind.mpr ⟨hfirst.1, hrest.1⟩, hrest.2⟩

theorem keepsState_params {contractScope : Scope} {params : List Param}
    (h : ∀ span ∈ paramSpans params, span ∈ spans) {st : SpendState}
    (hst : IndexesAt spans st.shapeFacts) :
    KeepsState cx spans (cx.checkSpendParams contractScope params st) := by
  induction params generalizing st with
  | nil => exact ⟨reports_pure _, hst⟩
  | cons param params ih =>
    rw [paramSpans, List.map_cons, List.forall_mem_cons] at h
    have hspan := h.1
    have hfirst : KeepsState cx spans (cx.checkSpendParam contractScope st param) := by
      by_cases hshadows : contractScope.contains param.name.name = true <;>
        by_cases hrepeated : param.name.name ∈ st.localNames <;>
          simp [KeepsState, checkSpendParam, hshadows, hrepeated, hspan, hst]
    have hrest := ih h.2 hfirst.2
    exact ⟨reports_bind.mpr ⟨hfirst.1, hrest.1⟩, hrest.2⟩

theorem reports_checkShapeFacts {facts : ShapeFacts} (h : IndexesAt spans facts) :
    Reports (cx.At spans) (cx.checkShapeFacts facts) := by
  have hcounts (label : String) (subject : CountSubject) :
      Reports (cx.At spans) (cx.checkCountFacts label (facts.get subject)) := by
    unfold checkCountFacts
    split
    · rename_i hindex
      simp [h subject _ _ hindex]
    · exact reports_pure _
  exact reports_bind.mpr ⟨hcounts _ .input, hcounts _ .output⟩

theorem reports_checkSpend {contract : Contract} {spend : Spend} {contractScope : Scope}
    (h : ∀ span ∈ spend.spans, span ∈ spans) :
    Reports (cx.At spans) (cx.checkSpend contract spend contractScope) := by
  rw [Spend.spans, List.forall_mem_cons, List.forall_mem_append] at h
  obtain ⟨hname, hparams, hbody⟩ := h
  have hstart : IndexesAt spans ({} : ShapeFacts) := by
    intro subject value span hindex
    cases subject <;> cases hindex
  have hfirst : KeepsState cx spans
      (cx.checkSpendParams contractScope spend.params ⟨contractScope, [], {}, [], false⟩) :=
    keepsState_params hparams hstart
  have hrest : KeepsState cx spans (cx.checkStmts spend.body _) := keepsState_stmts hbody hfirst.2
  have hfacts : Reports (cx.At spans) (cx.checkShapeFacts _) := reports_checkShapeFacts hrest.2
  simp [checkSpend, hfirst.1, hrest.1, hname, hfacts]

theorem reports_checkContractParams {params : List Param}
    (h : ∀ span ∈ paramSpans params, span ∈ spans) (scope : Scope) :
    Reports (cx.At spans) (cx.checkContractParams params scope) := by
  induction params generalizing scope with
  | nil => exact reports_pure _
  | cons param params ih =>
    rw [paramSpans, List.map_cons, List.forall_mem_cons] at h
    have hspan := h.1
    simp [checkContractParams, hspan, ih h.2]

theorem reports_checkSpends {contract : Contract} {contractScope : Scope} {spends : List Spend}
    (h : ∀ span ∈ spends.flatMap Spend.spans, span ∈ spans) (seen : List String) :
    Reports (cx.At spans) (cx.checkSpends contract contractScope spends seen) := by
  induction spends generalizing seen with
  | nil => exact reports_pure _
  | cons spend spends ih =>
    rw [List.flatMap_cons, List.forall_mem_append] at h
    have hname : spend.name.span ∈ spans := h.1 _ List.mem_cons_self
    simp [checkSpends, hname, reports_checkSpend h.1, ih h.2]

/-- The checker that knows the contract's spends reports to the same place. -/
theorem at_withSpendNames {names : List String} :
    At { cx with spendNames := names } spans = cx.At spans := by
  funext error
  apply propext
  exact ⟨fun h => ⟨h.location, h.span⟩, fun h => ⟨h.location, h.span⟩⟩

theorem reports_checkContract {contract : Contract} (h : ∀ span ∈ contract.spans, span ∈ spans) :
    Reports (cx.At spans) (cx.checkContract contract) := by
  rw [Contract.spans, List.forall_mem_cons, List.forall_mem_append] at h
  obtain ⟨hname, hparams, hspends⟩ := h
  have hchecked (names : List String) (scope : Scope) : Reports (cx.At spans)
      (Checker.checkSpends { cx with spendNames := names } contract scope contract.spends []) := by
    rw [← at_withSpendNames]
    exact reports_checkSpends hspends []
  simp [checkContract, hname, reports_checkContractParams hparams, hchecked]

theorem reports_checkContracts {contracts : List Contract}
    (h : ∀ span ∈ contracts.flatMap Contract.spans, span ∈ spans) (seen : List String) :
    Reports (cx.At spans) (cx.checkContracts contracts seen) := by
  induction contracts generalizing seen with
  | nil => exact reports_pure _
  | cons contract contracts ih =>
    rw [List.flatMap_cons, List.forall_mem_append] at h
    have hname : contract.name.span ∈ spans := h.1 _ List.mem_cons_self
    simp [checkContracts, hname, reports_checkContract h.1, ih h.2]

/-- Every semantic error points at a name or an expression of the program. -/
theorem reports_checkProgram (program : Program) :
    Reports (cx.At program.spans) (cx.checkProgram program) :=
  reports_checkContracts (fun _ h => h) []

end

end Checker

end KaspaScript
