import KaspaScript.Parser.Progress

namespace KaspaScript

/-- The expression is derived from a segment of the tokens. -/
def Phrased (tokens : List Token) (e : Expr) : Prop :=
  ∃ ts, ts <:+: tokens ∧ Parser.Spells 0 ts e

/-- The names and expressions of a statement come from the tokens. -/
def Stmt.Spelled (tokens : List Token) : Stmt → Prop
  | .let name expr _ => Marks tokens name.span ∧ Phrased tokens expr
  | .require expr _ | .return expr _ => Phrased tokens expr

def Param.Spelled (tokens : List Token) (param : Param) : Prop := Marks tokens param.name.span

structure Spend.Spelled (tokens : List Token) (spend : Spend) : Prop where
  name : Marks tokens spend.name.span
  params : ∀ param ∈ spend.params, param.Spelled tokens
  body : ∀ stmt ∈ spend.body, stmt.Spelled tokens

structure Contract.Spelled (tokens : List Token) (contract : Contract) : Prop where
  name : Marks tokens contract.name.span
  params : ∀ param ∈ contract.params, param.Spelled tokens
  spends : ∀ spend ∈ contract.spends, spend.Spelled tokens

namespace Parser

open Library (Takes isInfix_of_drop_eq takes_nothing takes_of_error takes_pure takes_token)

section

variable {p : Parser} {c : Nat}

/-- A segment of the tokens that stands at a cursor. -/
theorem phrased_of_spells {ts : List Token} {c' : Nat} {e : Expr}
    (hdrop : p.tokens.drop c = ts ++ p.tokens.drop c') (h : Spells 0 ts e) :
    Phrased p.tokens e :=
  ⟨ts, isInfix_of_drop_eq hdrop, h⟩

theorem marks_of_named {ts : List Token} {c' : Nat} {id : Ident}
    (hdrop : p.tokens.drop c = ts ++ p.tokens.drop c')
    (h : ∃ token, ts = [token] ∧ Named token id) : Marks p.tokens id.span := by
  obtain ⟨token, rfl, hnamed⟩ := h
  exact hnamed.marks ((isInfix_of_drop_eq hdrop).subset (List.mem_singleton_self token))

/-- What parses takes at least one token and yields something that the tokens spell. -/
def Yields {α : Type} (p : Parser) (m : ParseM α) (good : α → Prop) : Prop :=
  ∀ c, p.Parses m c fun ts _ a => 0 < ts.length ∧ good a

/-- The rest of a `require` or `return` behind its keyword. -/
theorem parses_keywordStatement (stmt : Expr → Span → Stmt) {keyword : Token}
    (hstmt : ∀ e span, Phrased p.tokens e → (stmt e span).Spelled p.tokens)
    (hprevious : p.previousSpan c = .ok (keyword.span, c)) :
    p.Parses (do
      let start := (← p.previousSpan).start
      let expr ← p.parseExpression
      let stop := (← p.expectExact .semicolon "`;`").span.stop
      return stmt expr ⟨start, stop⟩) c
      fun ts _ s => 0 < ([keyword] ++ ts).length ∧ s.Spelled p.tokens := by
  have hspan : p.Parses p.previousSpan c fun ts c' span =>
      ts = [] ∧ c' = c ∧ span = keyword.span := takes_nothing hprevious ⟨rfl, rfl, rfl⟩
  apply hspan.bind
  intro _ _ _ _ _ hsame
  obtain ⟨rfl, rfl, rfl⟩ := hsame
  apply parses_parseExpression.bind
  intro ts c₁ e hdrop _ hspells
  apply (parses_expectExact _ _).bind
  intro ts' c₂ semicolon _ _ hsemicolon
  exact takes_pure ⟨by simp, hstmt e _ (phrased_of_spells hdrop hspells)⟩

theorem yields_parseStatement : p.Yields p.parseStatement (Stmt.Spelled p.tokens) := by
  intro c
  rw [parseStatement]
  apply (parses_matchExact _).bind
  intro ts c₁ hit hdrop _ hmatch
  rcases hmatch with hhit | hmiss
  · obtain ⟨rfl, keyword, rfl, _, hprevious⟩ := hhit
    have hspan : p.Parses p.previousSpan c₁ fun ts c' span =>
        ts = [] ∧ c' = c₁ ∧ span = keyword.span := takes_nothing hprevious ⟨rfl, rfl, rfl⟩
    apply hspan.bind
    intro _ _ _ _ _ hsame
    obtain ⟨rfl, rfl, rfl⟩ := hsame
    apply parses_parseIdentifier.bind
    intro ts c₂ name hdrop₂ _ hname
    apply (parses_expectExact _ _).bind
    intro ts' c₃ equal _ _ _
    apply parses_parseExpression.bind
    intro ts'' c₄ e hdrop₄ _ hspells
    apply (parses_expectExact _ _).bind
    intro ts''' c₅ semicolon _ _ _
    exact takes_pure ⟨by simp, marks_of_named hdrop₂ hname, phrased_of_spells hdrop₄ hspells⟩
  · obtain ⟨rfl, rfl, rfl, _⟩ := hmiss
    apply (parses_matchExact _).bind
    intro ts c₂ hit hdrop₂ _ hmatch
    rcases hmatch with hhit | hmiss
    · obtain ⟨rfl, keyword, rfl, _, hprevious⟩ := hhit
      exact parses_keywordStatement .require (fun _ _ h => h) hprevious
    · obtain ⟨rfl, rfl, rfl, _⟩ := hmiss
      apply (parses_matchExact _).bind
      intro ts c₃ hit hdrop₃ _ hmatch
      rcases hmatch with hhit | hmiss
      · obtain ⟨rfl, keyword, rfl, _, hprevious⟩ := hhit
        exact parses_keywordStatement .return (fun _ _ h => h) hprevious
      · obtain ⟨rfl, rfl, rfl, _⟩ := hmiss
        exact parses_errorHere _

/-- A loop whose rounds take a token each ends where its test holds. -/
theorem parses_rounds {α : Type} {stop : ParseM Bool} {round : ParseM α}
    {loop : Nat → ParseM (List α)} {item : α → Prop}
    (hsucc : ∀ n, loop (n + 1) = listLoop stop round (loop n))
    (hstop : ∀ c, ∃ b, stop c = .ok (b, c)) (hround : p.Yields round item) {n : Nat}
    (hn : p.tokens.length - c < n) :
    p.Parses (loop n) c fun _ c' items => (∀ a ∈ items, item a) ∧ stop c' = .ok (true, c') := by
  induction n generalizing c with
  | zero => omega
  | succ n ih =>
    rw [hsucc, listLoop]
    obtain ⟨b, hb⟩ := hstop c
    have htest : p.Parses stop c fun ts c' b' => ts = [] ∧ c' = c ∧ stop c = .ok (b', c) :=
      takes_nothing hb ⟨rfl, rfl, hb⟩
    apply htest.bind
    intro _ _ b _ _ hsame
    obtain ⟨rfl, rfl, hb⟩ := hsame
    cases b with
    | true => exact takes_pure ⟨by simp, hb⟩
    | false =>
      apply (hround _).bind
      intro ts c₁ a hdrop _ hitem
      have hfewer := left_of_drop_eq hdrop
      apply (ih (c := c₁) (by omega)).bind
      intro rest c₂ items _ _ hrest
      exact takes_pure ⟨List.forall_mem_cons.mpr ⟨hitem.2, hrest.1⟩, hrest.2⟩

theorem parses_typeOf {token : Token} (h : token ∈ p.tokens) :
    p.Parses (p.typeOf token) c fun ts _ _ => ts = [] := by
  have hfail : p.Parses (p.errorAt token.span "expected type" : ParseM TypeName) c
      fun ts _ _ => ts = [] := parses_errorAt h _
  rw [typeOf]
  cases hkind : token.kind with
  | type ty => exact takes_pure rfl
  | _ => exact hfail

theorem parses_depthOf {token : Token} (h : token ∈ p.tokens) :
    p.Parses (p.depthOf token) c fun ts _ _ => ts = [] := by
  have hfail : p.Parses (p.errorAt token.span "expected integer literal" : ParseM Nat) c
      fun ts _ _ => ts = [] := parses_errorAt h _
  rw [depthOf]
  cases hkind : token.kind with
  | integer text =>
    refine (parses_parseU64 h text).mono ?_
    intro ts _ value hvalue
    exact hvalue.1
  | _ => exact hfail

theorem yields_typedParam (terminator : TokenKind) :
    p.Yields (p.typedParam terminator) (Param.Spelled p.tokens) := by
  intro c
  apply parses_parseIdentifier.bind
  intro ts c₁ name hdrop _ hname
  have hmarks := marks_of_named hdrop hname
  obtain ⟨token, rfl, _⟩ := hname
  apply (parses_expectExact _ _).bind
  intro ts c₂ colon _ _ _
  apply (parses_advanceOrError _).bind
  intro ts c₃ token _ _ htoken
  apply (parses_typeOf htoken.2).bind
  intro ts c₄ ty _ _ _
  apply (parses_separator _ _).bind
  intro ts c₅ _ _ _ _
  exact takes_pure ⟨by simp, hmarks⟩

theorem yields_statementRound : p.Yields p.statementRound (Stmt.Spelled p.tokens) := by
  intro c
  have hget : p.Parses get c fun ts c' cursor => ts = [] ∧ c' = c ∧ cursor = c :=
    takes_nothing rfl ⟨rfl, rfl, rfl⟩
  rw [statementRound]
  apply hget.bind
  intro ts c₁ cursor _ _ hsame
  obtain ⟨rfl, rfl, rfl⟩ := hsame
  cases p.isAtEnd cursor with
  | true => exact parses_errorHere _
  | false => exact yields_parseStatement cursor

/-- The bound of the parser's loops exceeds the tokens left. -/
theorem left_lt_fuel : p.tokens.length - c < p.fuel := by
  unfold fuel
  omega

theorem parses_parseTypedParams (terminator : TokenKind) :
    p.Parses (p.parseTypedParams terminator p.fuel) c
      fun _ _ params => ∀ param ∈ params, param.Spelled p.tokens := by
  have hrounds := parses_rounds (c := c) (fun n => p.parseTypedParams_succ n terminator)
    (fun _ => ⟨_, rfl⟩) (p.yields_typedParam terminator) left_lt_fuel
  refine hrounds.mono ?_
  intro _ _ params hparams
  exact hparams.1

theorem parses_parseBody :
    p.Parses (p.parseBody p.fuel) c fun _ _ body => ∀ stmt ∈ body, stmt.Spelled p.tokens := by
  have hrounds := parses_rounds (c := c) p.parseBody_succ (fun _ => ⟨_, rfl⟩)
    p.yields_statementRound left_lt_fuel
  refine hrounds.mono ?_
  intro _ _ body hbody
  exact hbody.1

theorem yields_parseSpend : p.Yields p.parseSpend (Spend.Spelled p.tokens) := by
  intro c
  apply parses_parseIdentifier.bind
  intro ts c₁ name hdrop _ hname
  have hmarks := marks_of_named hdrop hname
  obtain ⟨token, rfl, _⟩ := hname
  apply (parses_expectExact _ _).bind
  intro ts c₂ _ _ _ _
  apply (parses_parseTypedParams _).bind
  intro ts c₃ params _ _ hparams
  apply (parses_expectExact _ _).bind
  intro ts c₄ _ _ _ _
  apply (parses_expectExact _ _).bind
  intro ts c₅ _ _ _ _
  apply parses_parseBody.bind
  intro ts c₆ body _ _ hbody
  apply (parses_expectExact _ _).bind
  intro ts c₇ _ _ _ _
  exact takes_pure ⟨by simp, hmarks, hparams, hbody⟩

def ParamEntry.Spelled (tokens : List Token) : ParamEntry → Prop
  | .finalityDepth _ => True
  | .param declared => declared.Spelled tokens

theorem yields_paramEntry : p.Yields p.paramEntry (ParamEntry.Spelled p.tokens) := by
  intro c
  apply parses_parseIdentifier.bind
  intro ts c₁ name hdrop _ hname
  have hmarks := marks_of_named hdrop hname
  obtain ⟨token, rfl, _⟩ := hname
  apply (parses_expectExact _ _).bind
  intro ts c₂ colon _ _ _
  split
  · apply (parses_advanceOrError _).bind
    intro ts c₃ token _ _ htoken
    apply (parses_depthOf htoken.2).bind
    intro ts c₄ value _ _ _
    apply (parses_separator _ _).bind
    intro ts c₅ _ _ _ _
    exact takes_pure ⟨by simp, trivial⟩
  · apply (parses_advanceOrError _).bind
    intro ts c₃ token _ _ htoken
    apply (parses_typeOf htoken.2).bind
    intro ts c₄ ty _ _ _
    have hspan : p.Parses p.previousSpan c₄ fun _ _ _ => True := takes_nothing rfl trivial
    apply hspan.bind
    intro ts c₅ span _ _ _
    apply (parses_separator _ _).bind
    intro ts c₆ _ _ _ _
    exact takes_pure ⟨by simp, hmarks⟩

theorem parses_parseParamEntries {n : Nat} {finalityDepth : Option Nat}
    (hn : p.tokens.length - c < n) :
    p.Parses (p.parseParamEntries n finalityDepth) c
      fun _ _ entries => ∀ param ∈ entries.1, param.Spelled p.tokens := by
  induction n generalizing c finalityDepth with
  | zero => omega
  | succ n ih =>
    rw [parseParamEntries_succ]
    apply (parses_checkExact _).bind
    intro ts c₁ stop _ _ hcheck
    obtain ⟨rfl, rfl, _⟩ := hcheck
    cases stop with
    | true => exact takes_pure (by simp)
    | false =>
      apply (p.yields_paramEntry c₁).bind
      intro ts c₂ entry hdrop _ hentry
      have hfewer := left_of_drop_eq hdrop
      cases entry with
      | finalityDepth value => exact ih (by omega)
      | param param =>
        apply (ih (c := c₂) (by omega)).bind
        intro rest c₃ entries _ _ hrest
        exact takes_pure (List.forall_mem_cons.mpr ⟨hentry.2, hrest⟩)

theorem yields_parseParamsBlock :
    p.Yields p.parseParamsBlock fun entries => ∀ param ∈ entries.1, param.Spelled p.tokens := by
  intro c
  apply (parses_expectExact _ _).bind
  intro ts c₁ opening _ _ hopening
  obtain ⟨rfl, _⟩ := hopening
  apply (parses_parseParamEntries left_lt_fuel).bind
  intro ts c₂ entries _ _ hentries
  apply (parses_expectExact _ _).bind
  intro ts c₃ closing _ _ _
  exact takes_pure ⟨by simp, hentries⟩

def Members.Spelled (tokens : List Token) (members : Members) : Prop :=
  (∀ param ∈ members.1, param.Spelled tokens) ∧ ∀ spend ∈ members.2.2, spend.Spelled tokens

theorem yields_memberRound {members : Members} (h : members.Spelled p.tokens) :
    p.Yields (p.memberRound members) (Members.Spelled p.tokens) := by
  intro c
  have hget : p.Parses get c fun ts c' cursor => ts = [] ∧ c' = c ∧ cursor = c :=
    takes_nothing rfl ⟨rfl, rfl, rfl⟩
  rw [memberRound]
  apply hget.bind
  intro ts c₁ cursor _ _ hsame
  obtain ⟨rfl, rfl, rfl⟩ := hsame
  cases p.isAtEnd cursor with
  | true => exact parses_errorHere _
  | false =>
    apply (parses_matchExact _).bind
    intro ts c₁ hit hdrop _ hmatch
    rcases hmatch with hhit | hmiss
    · obtain ⟨rfl, keyword, rfl, _⟩ := hhit
      apply (p.yields_parseParamsBlock c₁).bind
      intro ts c₂ parsed _ _ hparsed
      refine takes_pure ⟨by simp, ?_, h.2⟩
      exact List.forall_mem_append.mpr ⟨h.1, hparsed.2⟩
    · obtain ⟨rfl, rfl, rfl, _⟩ := hmiss
      apply (parses_matchExact _).bind
      intro ts c₂ hit hdrop₂ _ hmatch
      rcases hmatch with hhit | hmiss
      · obtain ⟨rfl, keyword, rfl, _⟩ := hhit
        apply (p.yields_parseSpend c₂).bind
        intro ts c₃ spend _ _ hspend
        refine takes_pure ⟨by simp, h.1, ?_⟩
        exact List.forall_mem_append.mpr ⟨h.2, List.forall_mem_singleton.mpr hspend.2⟩
      · obtain ⟨rfl, rfl, rfl, _⟩ := hmiss
        exact parses_errorHere _

theorem parses_parseMembers {n : Nat} {members : Members} (h : members.Spelled p.tokens)
    (hn : p.tokens.length - c < n) :
    p.Parses (p.parseMembers n members) c fun _ _ members => Members.Spelled p.tokens members := by
  induction n generalizing c members with
  | zero => omega
  | succ n ih =>
    rw [parseMembers_succ]
    apply (parses_checkExact _).bind
    intro ts c₁ stop _ _ hcheck
    obtain ⟨rfl, rfl, _⟩ := hcheck
    cases stop with
    | true => exact takes_pure h
    | false =>
      apply (yields_memberRound h c₁).bind
      intro ts c₂ members hdrop _ hmembers
      have hfewer := left_of_drop_eq hdrop
      exact ih hmembers.2 (by omega)

theorem yields_parseContract : p.Yields p.parseContract (Contract.Spelled p.tokens) := by
  intro c
  apply (parses_expectExact _ _).bind
  intro ts c₁ keyword _ _ hkeyword
  obtain ⟨rfl, _⟩ := hkeyword
  apply parses_parseIdentifier.bind
  intro ts c₂ name hdrop _ hname
  apply (parses_expectExact _ _).bind
  intro ts c₃ _ _ _ _
  apply (parses_parseMembers ⟨by simp, by simp⟩ left_lt_fuel).bind
  intro ts c₄ members _ _ hmembers
  apply (parses_expectExact _ _).bind
  intro ts c₅ _ _ _ _
  exact takes_pure ⟨by simp, marks_of_named hdrop hname, hmembers.1, hmembers.2⟩

/-- The names and expressions of a parsed program come from the tokens, and the parser leaves none
of these behind. -/
theorem parses_parseProgram :
    p.Parses p.parseProgram 0 fun _ c' program =>
      p.tokens.length ≤ c' ∧ ∀ contract ∈ program.contracts, contract.Spelled p.tokens := by
  have hrounds := parses_rounds (c := 0) p.parseContracts_succ (fun _ => ⟨_, rfl⟩)
    p.yields_parseContract left_lt_fuel
  apply hrounds.bind
  intro ts c' contracts _ _ hcontracts
  refine takes_pure ⟨?_, hcontracts.1⟩
  have hend : Except.ok (p.isAtEnd c', c') = Except.ok (true, c') := hcontracts.2
  simpa [isAtEnd] using hend

end

end Parser

end KaspaScript
