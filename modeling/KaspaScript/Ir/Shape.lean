import KaspaScript.Ir.Application
import KaspaScript.Meaning.Truth
import KaspaScript.Semantic.Accepted

namespace KaspaScript

open Checker
open Library (Collect)

namespace CountSubject

def countName : CountSubject → String
  | .input => "input_count"
  | .output => "output_count"

def callName : CountSubject → String
  | .input => "input"
  | .output => "output"

/-- How many inputs or outputs a transaction has. -/
def count : CountSubject → Transaction → Nat
  | .input, tx => tx.inputs.length
  | .output, tx => tx.outputs.length

end CountSubject

/-- An expression that equates the count with a literal, in either operand order. -/
inductive Equates (subject : CountSubject) (n : Nat) : Expr → Prop
  | left {id span span'} : id.name = subject.countName →
      Equates subject n (.binary (.ident id) .equal (.integer n span) span')
  | right {id span span'} : id.name = subject.countName →
      Equates subject n (.binary (.integer n span) .equal (.ident id) span')

/-- Some conjunct of some `require` equates the count with the literal. -/
def Equated (spend : Spend) (subject : CountSubject) (n : Nat) : Prop :=
  ∃ e ∈ requireExprs spend, ∃ part ∈ conjuncts e, Equates subject n part

/-- Some `require` has a call `input(i)`, or `output(i)`, anywhere in it. -/
def Referenced (spend : Spend) (subject : CountSubject) (i : Nat) : Prop :=
  ∃ e ∈ requireExprs spend, ∃ id span rest span',
    id.name = subject.callName ∧ .call (.ident id) (.integer i span :: rest) span' ∈ e.nodes

theorem countSubject_eq {e : Expr} {subject : CountSubject} :
    countSubject e = some subject ↔ ∃ id, e = .ident id ∧ id.name = subject.countName := by
  unfold countSubject
  split
  · rename_i id
    split
    · rename_i hid
      cases subject <;> simp [CountSubject.countName, hid]
    · rename_i hid
      cases subject <;> simp [CountSubject.countName, hid]
    · rename_i hinput houtput
      cases subject <;> simp_all [CountSubject.countName]
  · rename_i hother
    simp only [reduceCtorEq, false_iff, not_exists, not_and]
    intro id heq
    exact absurd heq (hother id)

theorem exactCountConstraint_eq {e : Expr} {subject : CountSubject} {n : Nat} :
    (∃ span, Checker.exactCountConstraint e = some (subject, n, span)) ↔ Equates subject n e := by
  constructor
  · intro ⟨span, h⟩
    unfold Checker.exactCountConstraint at h
    split at h
    · split at h
      · rename_i hleft
        cases h
        obtain ⟨id, rfl, hid⟩ := countSubject_eq.mp hleft
        exact .left hid
      · split at h
        · rename_i hright _
          cases h
          obtain ⟨id, rfl, hid⟩ := countSubject_eq.mp hright
          exact .right hid
        · cases h
    · cases h
  · intro h
    cases h with
    | @left id span span' hid =>
      refine ⟨span, ?_⟩
      have hsubject : countSubject (.ident id) = some subject := countSubject_eq.mpr ⟨id, rfl, hid⟩
      simp [Checker.exactCountConstraint, hsubject]
    | @right id span span' hid =>
      refine ⟨span, ?_⟩
      have hsubject : countSubject (.ident id) = some subject := countSubject_eq.mpr ⟨id, rfl, hid⟩
      simp only [Checker.exactCountConstraint, hsubject]
      rfl

/-- An index that the facts know of. -/
def Covers (facts : ShapeFacts) (subject : CountSubject) (i : Nat) : Prop :=
  ∃ highest span, (facts.get subject).maxIndex = some (highest, span) ∧ i ≤ highest

/-- Facts are only added: a kept count stays, and a covered index stays covered. -/
structure FactsGrow (facts facts' : ShapeFacts) : Prop where
  exact : ∀ subject kept, (facts.get subject).exact = some kept →
    (facts'.get subject).exact = some kept
  index : ∀ subject i, Covers facts subject i → Covers facts' subject i

theorem FactsGrow.refl (facts : ShapeFacts) : FactsGrow facts facts :=
  ⟨fun _ _ h => h, fun _ _ h => h⟩

theorem FactsGrow.trans {facts facts' facts'' : ShapeFacts} (h : FactsGrow facts facts')
    (h' : FactsGrow facts' facts'') : FactsGrow facts facts'' := by
  constructor
  · intro subject kept hkept
    exact h'.exact subject kept (h.exact subject kept hkept)
  · intro subject i hcovers
    exact h'.index subject i (h.index subject i hcovers)

@[simp] theorem get_set {facts : ShapeFacts} {subject other : CountSubject} {counts : CountFacts} :
    (facts.set subject counts).get other = if other = subject then counts else facts.get other := by
  cases subject <;> cases other <;> rfl

section

variable {cx : Checker} {facts : ShapeFacts}

/-- A count that is recorded without a report fits `u32`, is the kept one, and removes nothing. -/
theorem recordExactCount_spec {subject : CountSubject} {n : Nat} {span : Span}
    (h : (cx.recordExactCount facts subject n span).Clean) :
    n ≤ u32Max ∧ FactsGrow facts (cx.recordExactCount facts subject n span).value ∧
      ∃ span', ((cx.recordExactCount facts subject n span).value.get subject).exact =
        some (n, span') := by
  have hfits : n ≤ u32Max := by
    by_contra hlarge
    simp [recordExactCount, Nat.lt_of_not_le hlarge] at h
  have hnot : ¬ n > u32Max := Nat.not_lt_of_ge hfits
  unfold recordExactCount at h ⊢
  simp only [if_neg hnot] at h ⊢
  refine ⟨hfits, ?_⟩
  cases hexact : (facts.get subject).exact with
  | some kept =>
    obtain ⟨existing, span'⟩ := kept
    by_cases hsame : existing = n
    · subst hsame
      simp only [hexact, ne_eq, not_true_eq_false, if_false, Library.Collect.value_pure]
      exact ⟨FactsGrow.refl facts, span', rfl⟩
    · simp [hexact, hsame] at h
  | none =>
    simp only [Library.Collect.value_pure]
    refine ⟨⟨?_, ?_⟩, span, by simp⟩
    · intro other kept hkept
      by_cases hother : other = subject
      · rw [hother, hexact] at hkept
        cases hkept
      · simpa [hother] using hkept
    · intro other i hcovers
      unfold Covers at hcovers ⊢
      by_cases hother : other = subject
      · rw [get_set, if_pos hother]
        exact hother ▸ hcovers
      · rw [get_set, if_neg hother]
        exact hcovers

theorem collectExactCounts_leaf {e : Expr} (h : NoConjunction e) :
    cx.collectExactCountsFromConjunction e facts =
      (Checker.exactCountConstraint e).elim (pure facts) fun constraint =>
        cx.recordExactCount facts constraint.1 constraint.2.1 constraint.2.2 := by
  rw [collectExactCountsFromConjunction]
  · cases Checker.exactCountConstraint e <;> rfl
  · exact h

/-- One `require`: the count of every equating conjunct fits and is the kept one. -/
theorem collectExactCounts_spec {e : Expr} :
    (cx.collectExactCountsFromConjunction e facts).Clean →
      FactsGrow facts (cx.collectExactCountsFromConjunction e facts).value ∧
      ∀ part ∈ conjuncts e, ∀ subject n, Equates subject n part → n ≤ u32Max ∧ ∃ span,
        ((cx.collectExactCountsFromConjunction e facts).value.get subject).exact =
          some (n, span) := by
  induction e using conjunction_induct generalizing facts with
  | leaf e he =>
    rw [collectExactCounts_leaf he, conjuncts_leaf he]
    simp only [List.mem_singleton]
    cases hconstraint : Checker.exactCountConstraint e with
    | none =>
      intro _
      refine ⟨FactsGrow.refl facts, ?_⟩
      intro part hpart subject n hequates
      subst hpart
      obtain ⟨span, hspan⟩ := exactCountConstraint_eq.mpr hequates
      rw [hconstraint] at hspan
      cases hspan
    | some constraint =>
      obtain ⟨subject, n, span⟩ := constraint
      intro h
      obtain ⟨hfits, hgrow, hkept⟩ := recordExactCount_spec h
      refine ⟨hgrow, ?_⟩
      intro part hpart subject' n' hequates
      subst hpart
      obtain ⟨span', hspan⟩ := exactCountConstraint_eq.mpr hequates
      rw [hconstraint] at hspan
      cases hspan
      exact ⟨hfits, hkept⟩
  | and left right span ihl ihr =>
    intro h
    rw [collectExactCountsFromConjunction, Library.Collect.clean_bind] at h
    rw [collectExactCountsFromConjunction, Library.Collect.value_bind]
    obtain ⟨hgrow, hleft⟩ := ihl h.1
    obtain ⟨hgrow', hright⟩ := ihr h.2
    refine ⟨hgrow.trans hgrow', ?_⟩
    intro part hpart subject n hequates
    rw [conjuncts, List.mem_append] at hpart
    rcases hpart with hpart | hpart
    · obtain ⟨hfits, span', hkept⟩ := hleft part hpart subject n hequates
      exact ⟨hfits, span', hgrow'.exact subject _ hkept⟩
    · exact hright part hpart subject n hequates

/-- An index that is recorded is covered, and what was covered stays so. -/
theorem recordIndex_spec {subject : CountSubject} {i : Nat} {span : Span} :
    FactsGrow facts (recordIndex facts subject i span) ∧
      Covers (recordIndex facts subject i span) subject i := by
  have replaced (h : ∀ j, Covers facts subject j → j ≤ i) :
      let facts' := facts.set subject { facts.get subject with maxIndex := some (i, span) }
      FactsGrow facts facts' ∧ Covers facts' subject i := by
    refine ⟨⟨?_, ?_⟩, ?_⟩
    · intro other kept hkept
      by_cases hother : other = subject
      · rw [get_set, if_pos hother]
        exact hother ▸ hkept
      · rw [get_set, if_neg hother]
        exact hkept
    · intro other j hcovers
      unfold Covers
      by_cases hother : other = subject
      · rw [get_set, if_pos hother]
        exact ⟨i, span, rfl, h j (hother ▸ hcovers)⟩
      · rw [get_set, if_neg hother]
        exact hcovers
    · unfold Covers
      rw [get_set, if_pos rfl]
      exact ⟨i, span, rfl, Nat.le_refl i⟩
  unfold recordIndex
  cases hmax : (facts.get subject).maxIndex with
  | none =>
    apply replaced
    intro j hcovers
    obtain ⟨highest, span', hsome, _⟩ := hcovers
    rw [hmax] at hsome
    cases hsome
  | some current =>
    obtain ⟨highest, span'⟩ := current
    simp only
    by_cases hle : i ≤ highest
    · rw [if_pos hle]
      exact ⟨FactsGrow.refl facts, highest, span', hmax, hle⟩
    · rw [if_neg hle]
      apply replaced
      intro j hcovers
      obtain ⟨highest', span'', hsome, hj⟩ := hcovers
      rw [hmax] at hsome
      cases hsome
      omega

theorem recordCallIndex_spec {callee : Expr} {args : List Expr} :
    FactsGrow facts (recordCallIndex callee args facts) ∧
      ∀ subject id i span rest, id.name = CountSubject.callName subject → callee = .ident id →
        args = .integer i span :: rest → Covers (recordCallIndex callee args facts) subject i := by
  unfold recordCallIndex
  split
  · rename_i id i span rest
    split
    · rename_i hid
      refine ⟨recordIndex_spec.1, ?_⟩
      intro subject id' i' span' rest' hname hcallee hargs
      cases hcallee
      cases hargs
      cases subject with
      | input => exact recordIndex_spec.2
      | output => simp [hid, CountSubject.callName] at hname
    · rename_i hid
      refine ⟨recordIndex_spec.1, ?_⟩
      intro subject id' i' span' rest' hname hcallee hargs
      cases hcallee
      cases hargs
      cases subject with
      | input => simp [hid, CountSubject.callName] at hname
      | output => exact recordIndex_spec.2
    · rename_i hinput houtput
      refine ⟨FactsGrow.refl facts, ?_⟩
      intro subject id' i' span' rest' hname hcallee hargs
      cases hcallee
      cases subject with
      | input => exact absurd hname hinput
      | output => exact absurd hname houtput
  · rename_i hother
    refine ⟨FactsGrow.refl facts, ?_⟩
    intro subject id i span rest _ hcallee hargs
    subst hcallee hargs
    exact (hother id i span rest rfl rfl).elim

/-- Every call `input(i)` or `output(i)` among some nodes is covered. -/
def CoversNodes (facts : ShapeFacts) (nodes : List Expr) : Prop :=
  ∀ subject id i span rest span', id.name = CountSubject.callName subject →
    .call (.ident id) (.integer i span :: rest) span' ∈ nodes → Covers facts subject i

theorem CoversNodes.grow {facts' : ShapeFacts} {nodes : List Expr} (h : CoversNodes facts nodes)
    (hgrow : FactsGrow facts facts') : CoversNodes facts' nodes := by
  intro subject id i span rest span' hname hmem
  exact hgrow.index subject i (h subject id i span rest span' hname hmem)

theorem CoversNodes.append {nodes nodes' : List Expr} (h : CoversNodes facts nodes)
    (h' : CoversNodes facts nodes') : CoversNodes facts (nodes ++ nodes') := by
  intro subject id i span rest span' hname hmem
  rcases List.mem_append.mp hmem with hmem | hmem
  · exact h subject id i span rest span' hname hmem
  · exact h' subject id i span rest span' hname hmem

/-- A node that is no call adds nothing to cover. -/
theorem CoversNodes.cons {node : Expr} {nodes : List Expr}
    (hnode : ∀ callee args span, node ≠ .call callee args span) (h : CoversNodes facts nodes) :
    CoversNodes facts (node :: nodes) := by
  intro subject id i span rest span' hname hmem
  rcases List.mem_cons.mp hmem with heq | hmem
  · exact absurd heq.symm (hnode _ _ _)
  · exact h subject id i span rest span' hname hmem

theorem coversNodes_nil : CoversNodes facts [] := by
  intro subject id i span rest span' _ hmem
  cases hmem

theorem collectAllIndexReferences_spec {es : List Expr}
    (ih : ∀ e ∈ es, ∀ facts, FactsGrow facts (collectIndexReferences e facts) ∧
      CoversNodes (collectIndexReferences e facts) e.nodes) :
    FactsGrow facts (collectAllIndexReferences es facts) ∧
      CoversNodes (collectAllIndexReferences es facts) (allNodes es) := by
  induction es generalizing facts with
  | nil => exact ⟨FactsGrow.refl facts, coversNodes_nil⟩
  | cons e es ihes =>
    rw [collectAllIndexReferences, allNodes]
    obtain ⟨hgrow, hcovers⟩ := ih e (by simp) facts
    obtain ⟨hgrow', hcovers'⟩ :=
      @ihes (collectIndexReferences e facts) (fun e' he' => ih e' (by simp [he']))
    exact ⟨hgrow.trans hgrow', (hcovers.grow hgrow').append hcovers'⟩

/-- The walk over an expression covers every index in it. -/
theorem collectIndexReferences_spec (e : Expr) :
    ∀ facts, FactsGrow facts (collectIndexReferences e facts) ∧
      CoversNodes (collectIndexReferences e facts) e.nodes := by
  induction e using Expr.induct with
  | array elements span ih =>
    intro facts
    rw [collectIndexReferences, Expr.nodes]
    obtain ⟨hgrow, hcovers⟩ := collectAllIndexReferences_spec ih
    exact ⟨hgrow, hcovers.cons (by simp)⟩
  | unary op e span ih =>
    intro facts
    rw [collectIndexReferences, Expr.nodes]
    exact ⟨(ih facts).1, (ih facts).2.cons (by simp)⟩
  | binary left op right span ihl ihr =>
    intro facts
    rw [collectIndexReferences, Expr.nodes]
    obtain ⟨hgrow, hcovers⟩ := ihl facts
    obtain ⟨hgrow', hcovers'⟩ := ihr (collectIndexReferences left facts)
    exact ⟨hgrow.trans hgrow', ((hcovers.grow hgrow').append hcovers').cons (by simp)⟩
  | call callee args span ihc ih =>
    intro facts
    rw [collectIndexReferences, Expr.nodes]
    obtain ⟨hgrow, hself⟩ := @recordCallIndex_spec facts callee args
    obtain ⟨hgrow', hcallee⟩ := ihc (recordCallIndex callee args facts)
    obtain ⟨hgrow'', hargs⟩ := @collectAllIndexReferences_spec
      (collectIndexReferences callee (recordCallIndex callee args facts)) args ih
    refine ⟨hgrow.trans (hgrow'.trans hgrow''), ?_⟩
    intro subject id i span' rest span'' hname hmem
    rcases List.mem_cons.mp hmem with heq | hmem
    · cases heq
      have hcovers := hself subject id i span' rest hname rfl rfl
      exact (hgrow'.trans hgrow'').index subject i hcovers
    · exact ((hcallee.grow hgrow'').append hargs) subject id i span' rest span'' hname hmem
  | field object field span ih =>
    intro facts
    rw [collectIndexReferences, Expr.nodes]
    exact ⟨(ih facts).1, (ih facts).2.cons (by simp)⟩
  | _ =>
    intro facts
    rw [collectIndexReferences, Expr.nodes]
    exact ⟨FactsGrow.refl facts, coversNodes_nil.cons (by simp)⟩

/-- The facts know the counts and the indexes of a `require`. -/
structure Recorded (facts : ShapeFacts) (e : Expr) : Prop where
  counts : ∀ part ∈ conjuncts e, ∀ subject n, Equates subject n part →
    n ≤ u32Max ∧ ∃ span, (facts.get subject).exact = some (n, span)
  indexes : CoversNodes facts e.nodes

theorem Recorded.grow {facts' : ShapeFacts} {e : Expr} (h : Recorded facts e)
    (hgrow : FactsGrow facts facts') : Recorded facts' e := by
  refine ⟨?_, h.indexes.grow hgrow⟩
  intro part hpart subject n hequates
  obtain ⟨hfits, span, hkept⟩ := h.counts part hpart subject n hequates
  exact ⟨hfits, span, hgrow.exact subject _ hkept⟩

theorem checkStmt_shape {st : SpendState} {stmt : Stmt} (h : (cx.checkStmt st stmt).Clean) :
    FactsGrow st.shapeFacts (cx.checkStmt st stmt).value.shapeFacts ∧
      ∀ e span, stmt = .require e span → Recorded (cx.checkStmt st stmt).value.shapeFacts e := by
  cases stmt with
  | «let» name e span =>
    refine ⟨?_, by simp⟩
    have hsame : (cx.checkStmt st (.let name e span)).value.shapeFacts = st.shapeFacts := by
      simp only [checkStmt, Library.Collect.value_bind]
      split_ifs
      · rfl
      · cases (cx.inferExpr st.scope e).value <;> rfl
    rw [hsame]
    exact FactsGrow.refl _
  | require e span =>
    obtain ⟨_, hcounts, _⟩ := clean_checkStmt_require h
    have hfacts : (cx.checkStmt st (.require e span)).value.shapeFacts =
        collectIndexReferences e
          (cx.collectExactCountsFromConjunction e st.shapeFacts).value := by
      simp only [checkStmt, Library.Collect.value_bind]
      split_ifs <;> rfl
    rw [hfacts]
    obtain ⟨hgrow, hkept⟩ := collectExactCounts_spec hcounts
    obtain ⟨hgrow', hcovers⟩ := collectIndexReferences_spec e
      (cx.collectExactCountsFromConjunction e st.shapeFacts).value
    refine ⟨hgrow.trans hgrow', ?_⟩
    intro e' span' heq
    cases heq
    refine ⟨?_, hcovers⟩
    intro part hpart subject n hequates
    obtain ⟨hfits, span'', hexact⟩ := hkept part hpart subject n hequates
    exact ⟨hfits, span'', hgrow'.exact subject _ hexact⟩
  | «return» e span =>
    refine ⟨?_, by simp⟩
    have hsame : (cx.checkStmt st (.return e span)).value.shapeFacts = st.shapeFacts := by
      simp [checkStmt]
    rw [hsame]
    exact FactsGrow.refl _

/-- After the last statement the facts know every `require` of the body. -/
theorem checkStmts_shape {body : List Stmt} {st : SpendState} (h : (cx.checkStmts body st).Clean) :
    FactsGrow st.shapeFacts (cx.checkStmts body st).value.shapeFacts ∧
      ∀ e span, .require e span ∈ body →
        Recorded (cx.checkStmts body st).value.shapeFacts e := by
  induction body generalizing st with
  | nil => exact ⟨FactsGrow.refl _, by simp⟩
  | cons stmt rest ih =>
    rw [checkStmts, Library.Collect.clean_bind] at h
    rw [checkStmts, Library.Collect.value_bind]
    obtain ⟨hgrow, hself⟩ := checkStmt_shape h.1
    obtain ⟨hgrow', hrest⟩ := ih h.2
    refine ⟨hgrow.trans hgrow', ?_⟩
    intro e span hmem
    rcases List.mem_cons.mp hmem with heq | hmem
    · exact (hself e span heq.symm).grow hgrow'
    · exact hrest e span hmem

end

theorem mem_requireExprs {spend : Spend} {e : Expr} :
    e ∈ requireExprs spend ↔ ∃ span, .require e span ∈ spend.body := by
  unfold requireExprs
  rw [List.mem_filterMap]
  constructor
  · intro ⟨stmt, hmem, hstmt⟩
    cases stmt with
    | require e' span =>
      cases hstmt
      exact ⟨span, hmem⟩
    | _ => cases hstmt
  · intro ⟨span, hmem⟩
    exact ⟨_, hmem, rfl⟩

/-- What the checks of a spend establish about its counts and indexes. -/
structure SpendShape (spend : Spend) : Prop where
  unique : ∀ subject n m, Equated spend subject n → Equated spend subject m → n = m
  fits : ∀ subject n, Equated spend subject n → n ≤ u32Max
  above : ∀ subject n i, Equated spend subject n → Referenced spend subject i → i < n

theorem spendShape_of_accepted {cx : Checker} {contract : Contract} {spend : Spend}
    (h : cx.SpendAccepted contract spend) : SpendShape spend := by
  obtain ⟨_, hrecorded⟩ := checkStmts_shape h.body
  have hexact : ∀ subject n, Equated spend subject n → n ≤ u32Max ∧ ∃ span,
      ((cx.spendEnd contract spend).shapeFacts.get subject).exact = some (n, span) := by
    intro subject n ⟨e, he, part, hpart, hequates⟩
    obtain ⟨span, hmem⟩ := mem_requireExprs.mp he
    exact (hrecorded e span hmem).counts part hpart subject n hequates
  have hcovers : ∀ subject i, Referenced spend subject i →
      Covers (cx.spendEnd contract spend).shapeFacts subject i := by
    intro subject i ⟨e, he, id, span, rest, span', hname, hnode⟩
    obtain ⟨span'', hmem⟩ := mem_requireExprs.mp he
    exact (hrecorded e span'' hmem).indexes subject id i span rest span' hname hnode
  have hbelow : ∀ subject exact span highest span',
      ((cx.spendEnd contract spend).shapeFacts.get subject).exact = some (exact, span) →
      ((cx.spendEnd contract spend).shapeFacts.get subject).maxIndex = some (highest, span') →
      highest < exact := by
    intro subject exact span highest span' hcount hindex
    have hshape := h.shape
    rw [checkShapeFacts, Library.Collect.clean_bind] at hshape
    have hclean : ∃ label, (cx.checkCountFacts label
        ((cx.spendEnd contract spend).shapeFacts.get subject)).Clean := by
      cases subject with
      | input => exact ⟨_, hshape.1⟩
      | output => exact ⟨_, hshape.2⟩
    obtain ⟨label, hclean⟩ := hclean
    by_contra hle
    simp [checkCountFacts, hcount, hindex, Nat.le_of_not_lt hle] at hclean
  constructor
  · intro subject n m hn hm
    obtain ⟨_, span, hnexact⟩ := hexact subject n hn
    obtain ⟨_, span', hmexact⟩ := hexact subject m hm
    rw [hnexact] at hmexact
    cases hmexact
    rfl
  · intro subject n hn
    exact (hexact subject n hn).1
  · intro subject n i hn hi
    obtain ⟨_, span, hcount⟩ := hexact subject n hn
    obtain ⟨highest, span', hindex, hle⟩ := hcovers subject i hi
    exact Nat.lt_of_le_of_lt hle (hbelow subject n span highest span' hcount hindex)

def countOf (counts : Option Nat × Option Nat) : CountSubject → Option Nat
  | .input => counts.1
  | .output => counts.2

theorem modelConstraint_eq {e : Expr} {subject : CountSubject} {n : Nat} :
    exactCountConstraint e = some (subject, n) ↔ Equates subject n e ∧ n ≤ u32Max := by
  rw [← exactCountConstraint_eq]
  unfold exactCountConstraint
  cases Checker.exactCountConstraint e with
  | none => simp
  | some constraint =>
    obtain ⟨subject', n', span⟩ := constraint
    simp only
    split_ifs with hfits
    · simp only [Option.some.injEq, Prod.mk.injEq]
      constructor
      · intro ⟨hsubject, hn⟩
        subst hsubject hn
        exact ⟨⟨span, rfl, rfl, rfl⟩, hfits⟩
      · intro ⟨⟨_, hsubject, hn, _⟩, _⟩
        exact ⟨hsubject, hn⟩
    · simp only [false_iff, not_and, Option.some.injEq, Prod.mk.injEq]
      intro ⟨_, _, hn, _⟩
      exact hn ▸ hfits

/-- The model keeps the last count of a conjunction, or what it had. -/
theorem collectExactTransactionCounts_spec {e : Expr} {subject : CountSubject} :
    ∀ counts n, countOf (collectExactTransactionCounts e counts) subject = some n →
      countOf counts subject = some n ∨ ∃ part ∈ conjuncts e, Equates subject n part ∧ n ≤ u32Max := by
  induction e using conjunction_induct with
  | leaf e he =>
    intro counts n h
    rw [conjuncts_leaf he]
    rw [collectExactTransactionCounts] at h
    · cases hconstraint : exactCountConstraint e with
      | none =>
        rw [hconstraint] at h
        exact Or.inl h
      | some constraint =>
        obtain ⟨subject', n'⟩ := constraint
        rw [hconstraint] at h
        by_cases hsubject : subject' = subject
        · right
          subst hsubject
          have hn : n' = n := by
            cases subject' <;> simpa [countOf] using h
          subst hn
          exact ⟨e, by simp, modelConstraint_eq.mp hconstraint⟩
        · left
          cases subject <;> cases subject' <;> simp_all [countOf]
    · exact he
  | and left right span ihl ihr =>
    intro counts n h
    rw [collectExactTransactionCounts] at h
    rw [conjuncts]
    simp only [List.mem_append]
    rcases ihr _ n h with h | ⟨part, hpart, hequates⟩
    · rcases ihl counts n h with h | ⟨part, hpart, hequates⟩
      · exact Or.inl h
      · exact Or.inr ⟨part, Or.inl hpart, hequates⟩
    · exact Or.inr ⟨part, Or.inr hpart, hequates⟩

/-- Once a conjunct equates the count, the model has one. -/
theorem collectExactTransactionCounts_isSome {e : Expr} {subject : CountSubject} :
    ∀ counts, (countOf counts subject ≠ none ∨
        ∃ part ∈ conjuncts e, ∃ n, Equates subject n part ∧ n ≤ u32Max) →
      countOf (collectExactTransactionCounts e counts) subject ≠ none := by
  induction e using conjunction_induct with
  | leaf e he =>
    intro counts h
    rw [conjuncts_leaf he] at h
    rw [collectExactTransactionCounts]
    · cases hconstraint : exactCountConstraint e with
      | none =>
        rcases h with h | ⟨part, hpart, n, hequates⟩
        · exact h
        · rw [List.mem_singleton] at hpart
          subst hpart
          rw [modelConstraint_eq.mpr hequates] at hconstraint
          cases hconstraint
      | some constraint =>
        obtain ⟨subject', n'⟩ := constraint
        rcases h with h | ⟨part, hpart, n, hequates⟩
        · cases subject <;> cases subject' <;> simp_all [countOf]
        · rw [List.mem_singleton] at hpart
          subst hpart
          rw [modelConstraint_eq.mpr hequates] at hconstraint
          cases hconstraint
          cases subject <;> simp [countOf]
    · exact he
  | and left right span ihl ihr =>
    intro counts h
    rw [collectExactTransactionCounts]
    apply ihr
    rcases h with h | ⟨part, hpart, hequates⟩
    · exact Or.inl (ihl counts (Or.inl h))
    · rw [conjuncts, List.mem_append] at hpart
      rcases hpart with hpart | hpart
      · exact Or.inl (ihl counts (Or.inr ⟨part, hpart, hequates⟩))
      · exact Or.inr ⟨part, hpart, hequates⟩

/-- The counts of the model after some `require`s are those of their conjuncts. -/
theorem foldl_counts {es : List Expr} {subject : CountSubject} {n : Nat} :
    ∀ counts, countOf (es.foldl (fun counts e => collectExactTransactionCounts e counts) counts)
        subject = some n →
      countOf counts subject = some n ∨
        ∃ e ∈ es, ∃ part ∈ conjuncts e, Equates subject n part ∧ n ≤ u32Max := by
  induction es with
  | nil => exact fun counts h => Or.inl h
  | cons e es ih =>
    intro counts h
    rcases ih _ h with h | ⟨e', he', hpart⟩
    · rcases collectExactTransactionCounts_spec counts n h with h | hpart
      · exact Or.inl h
      · exact Or.inr ⟨e, by simp, hpart⟩
    · exact Or.inr ⟨e', by simp [he'], hpart⟩

theorem foldl_counts_isSome {es : List Expr} {subject : CountSubject} :
    ∀ counts, (countOf counts subject ≠ none ∨
        ∃ e ∈ es, ∃ part ∈ conjuncts e, ∃ n, Equates subject n part ∧ n ≤ u32Max) →
      countOf (es.foldl (fun counts e => collectExactTransactionCounts e counts) counts)
        subject ≠ none := by
  induction es with
  | nil =>
    intro counts h
    rcases h with h | ⟨e, he, _⟩
    · exact h
    · cases he
  | cons e es ih =>
    intro counts h
    apply ih
    rcases h with h | ⟨e', he', hpart⟩
    · exact Or.inl (collectExactTransactionCounts_isSome counts (Or.inl h))
    · rcases List.mem_cons.mp he' with rfl | he'
      · exact Or.inl (collectExactTransactionCounts_isSome counts (Or.inr hpart))
      · exact Or.inr ⟨e', he', hpart⟩

theorem exactTransactionCounts_iff {spend : Spend} (h : SpendShape spend) {subject : CountSubject}
    {n : Nat} : countOf (exactTransactionCounts spend) subject = some n ↔
      Equated spend subject n := by
  have hnone : countOf (none, none) subject = none := by cases subject <;> rfl
  have hto : ∀ n, countOf (exactTransactionCounts spend) subject = some n →
      Equated spend subject n := by
    intro n hcount
    rcases foldl_counts (none, none) hcount with hstart | ⟨e, he, part, hpart, hequates, _⟩
    · rw [hnone] at hstart
      cases hstart
    · exact ⟨e, he, part, hpart, hequates⟩
  constructor
  · exact hto n
  · intro ⟨e, he, part, hpart, hequates⟩
    have hequated : Equated spend subject n := ⟨e, he, part, hpart, hequates⟩
    have hsome := foldl_counts_isSome (none, none)
      (Or.inr ⟨e, he, part, hpart, n, hequates, h.fits subject n hequated⟩)
    obtain ⟨m, hm⟩ := Option.ne_none_iff_exists'.mp hsome
    rw [h.unique subject n m hequated (hto m hm)]
    exact hm

/-- The exact count that a model states for inputs or outputs. -/
def TransactionShape.exactCount (shape : TransactionShape) : CountSubject → Option Nat
  | .input => shape.exactInputCount
  | .output => shape.exactOutputCount

def TransactionShape.additionalPermitted (shape : TransactionShape) : CountSubject → Bool
  | .input => shape.additionalInputsPermitted
  | .output => shape.additionalOutputsPermitted

theorem exactCount_eq {spend : Spend} {subject : CountSubject} :
    (buildTransitionModel spend).transactionShape.exactCount subject =
        countOf (exactTransactionCounts spend) subject ∧
      (buildTransitionModel spend).transactionShape.additionalPermitted subject =
        (countOf (exactTransactionCounts spend) subject).isNone := by
  cases subject <;> exact ⟨rfl, rfl⟩

/-- The atoms that equate a count with a literal mean what they say of the transaction. -/
def CountsMean (tx : Transaction) (atom : Expr → Bool) : Prop :=
  ∀ subject n e, Equates subject n e → atom e = decide (subject.count tx = n)

theorem noConjunction_of_equates {subject : CountSubject} {n : Nat} {e : Expr}
    (h : Equates subject n e) (atom : Expr → Bool) : holdsUnder atom e = atom e := by
  cases h <;> rfl

/-- Evaluation gives the counting atoms their meaning. -/
theorem countsMean_holds (cx : Context) : CountsMean cx.env.populated.tx cx.holds := by
  intro subject n e h
  have hcount (id : Ident) (hid : id.name = subject.countName) :
      cx.evalIdent id.name = .num (subject.count cx.env.populated.tx) := by
    cases subject <;> simp [Context.evalIdent, hid, CountSubject.countName, CountSubject.count]
  unfold Context.holds
  cases h with
  | left hid => simp [Context.eval, hcount _ hid, evalBinary]
  | right hid =>
    simp only [Context.eval, reduceCtorEq, false_and, if_false, hcount _ hid, Option.bind_some,
      evalBinary, Nat.cast_inj, Option.some.injEq, Val.bool.injEq, decide_eq_true_eq]
    exact decide_eq_decide.mpr eq_comm

/-- The checker and the application model agree on the number of inputs and outputs, and so does
every transaction that satisfies the spend. -/
theorem transactionShape_agrees (program : Program) (source file : String) (analysis : Analysis)
    (h : analyzeProgram program source file = .ok analysis) :
    ∀ contract ∈ program.contracts, ∀ spend ∈ contract.spends, ∀ subject : CountSubject,
      let shape := (buildTransitionModel spend).transactionShape
      (∀ n, shape.exactCount subject = some n ↔ Equated spend subject n) ∧
      (∀ n m, Equated spend subject n → Equated spend subject m → n = m) ∧
      (∀ n, Equated spend subject n → n ≤ u32Max) ∧
      (∀ n i, Equated spend subject n → Referenced spend subject i → i < n) ∧
      (shape.additionalPermitted subject = false ↔ ∃ n, Equated spend subject n) ∧
      ∀ n, Equated spend subject n → ∀ tx atom, CountsMean tx atom →
        (∀ e ∈ requireExprs spend, holdsUnder atom e = true) → subject.count tx = n := by
  intro contract hcontract spend hspend subject
  obtain ⟨haccepted, _⟩ := accepted_of_analyzeProgram h
  have hshape : SpendShape spend :=
    spendShape_of_accepted ((haccepted.contract contract hcontract).spend spend hspend)
  obtain ⟨hexact, hpermitted⟩ := @exactCount_eq spend subject
  have hiff : ∀ n, countOf (exactTransactionCounts spend) subject = some n ↔
      Equated spend subject n := fun n => exactTransactionCounts_iff hshape
  refine ⟨?_, hshape.unique subject, hshape.fits subject, hshape.above subject, ?_, ?_⟩
  · intro n
    rw [hexact]
    exact hiff n
  · rw [hpermitted]
    constructor
    · intro hsome
      obtain ⟨n, hn⟩ := Option.isSome_iff_exists.mp (by simpa using hsome)
      exact ⟨n, (hiff n).mp hn⟩
    · intro ⟨n, hn⟩
      rw [(hiff n).mpr hn]
      rfl
  · intro n ⟨e, he, part, hpart, hequates⟩ tx atom hmean hrequires
    have htrue := holdsUnder_conjuncts (hrequires e he) part hpart
    rw [noConjunction_of_equates hequates, hmean subject n part hequates] at htrue
    exact of_decide_eq_true htrue

theorem transactionShape_agrees_vaultProgram :
    (buildTransitionModel vaultSpend).transactionShape.exactCount .input = some 1 := by
  have hagrees := transactionShape_agrees vaultProgram "" "vault.ks" ⟨vaultProgram, [10], none⟩ rfl
    vaultContract (by simp [vaultProgram]) vaultSpend (by simp [vaultContract]) .input
  have hpart : Equates .input 1
      (.binary (.ident (nameAt "input_count")) .equal (.integer 1 ⟨0, 0⟩) ⟨0, 0⟩) := .left rfl
  apply (hagrees.1 1).mpr
  refine ⟨_, mem_requireExprs.mpr ⟨⟨0, 0⟩, List.mem_cons_of_mem _ List.mem_cons_self⟩, _, ?_, hpart⟩
  exact List.mem_append_right _ List.mem_cons_self

end KaspaScript
