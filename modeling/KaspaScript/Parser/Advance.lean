import KaspaScript.Parser.Spelled

namespace KaspaScript.Parser

open Library (Takes takes_nothing takes_of_error takes_pure le_of_drop_eq)

/-- Where the run succeeds, it takes at least that many tokens. -/
def Advances {α : Type} (p : Parser) (m : ParseM α) (least : Nat) : Prop :=
  ∀ c, Takes p.tokens (fun _ => True) m c fun ts _ _ => least ≤ ts.length

section

variable {p : Parser} {α β : Type} {m m' : ParseM α} {j k : Nat}

theorem Advances.mono (h : p.Advances m j) (hle : k ≤ j) : p.Advances m k := by
  intro c
  refine (h c).mono ?_
  intro ts _ _ hj
  exact Nat.le_trans hle hj

theorem Advances.bind {f : α → ParseM β} (h : p.Advances m j) (hf : ∀ a, p.Advances (f a) k) :
    p.Advances (m >>= f) (j + k) := by
  intro c
  apply (h c).bind
  intro ts c' a _ _ hj
  refine (hf a c').mono ?_
  intro rest _ _ hk
  rw [List.length_append]
  exact Nat.add_le_add hj hk

/-- The second part takes all that is asked for. -/
theorem Advances.then {f : α → ParseM β} (h : p.Advances m 0) (hf : ∀ a, p.Advances (f a) k) :
    p.Advances (m >>= f) k := by
  have hboth := h.bind hf
  rwa [Nat.zero_add] at hboth

/-- The first part takes all that is asked for. -/
theorem Advances.first {f : α → ParseM β} (h : p.Advances m k) (hf : ∀ a, p.Advances (f a) 0) :
    p.Advances (m >>= f) k :=
  h.bind hf

theorem Advances.ite {condition : Prop} [Decidable condition] (h : p.Advances m k)
    (h' : p.Advances m' k) : p.Advances (if condition then m else m') k := by
  by_cases hcondition : condition
  · rwa [if_pos hcondition]
  · rwa [if_neg hcondition]

theorem advances_pure (a : α) : p.Advances (pure a) 0 := fun _ => takes_pure (Nat.zero_le _)

theorem advances_get : p.Advances get 0 := fun _ => takes_nothing rfl (Nat.zero_le _)

theorem advances_outOfFuel : p.Advances (outOfFuel : ParseM α) k :=
  fun _ => takes_of_error rfl trivial

theorem advances_errorAt (span : Span) (message : String) :
    p.Advances (p.errorAt span message : ParseM α) k :=
  fun _ => takes_of_error rfl trivial

theorem advances_errorHere (message : String) :
    p.Advances (p.errorHere message : ParseM α) k :=
  fun _ => takes_of_error rfl trivial

theorem advances_of_parses {good : Nat → List Token → Nat → α → Prop}
    (h : ∀ c, p.Parses m c (good c)) (hgood : ∀ c ts c' a, good c ts c' a → k ≤ ts.length) :
    p.Advances m k := by
  intro c
  exact ((h c).mono (hgood c)).imp_fail fun _ _ => trivial

theorem advances_advanceOrError (message : String) :
    p.Advances (p.advanceOrError message) 1 :=
  advances_of_parses (fun _ => parses_advanceOrError message) fun _ ts _ _ htoken => by
    simp [htoken.1]

theorem advances_expectExact (kind : TokenKind) (label : String) :
    p.Advances (p.expectExact kind label) 1 :=
  advances_of_parses (fun _ => parses_expectExact kind label) fun _ ts _ _ htoken => by
    simp [htoken.1]

theorem advances_parseIdentifier : p.Advances p.parseIdentifier 1 :=
  advances_of_parses (fun _ => parses_parseIdentifier) fun _ ts _ _ hnamed => by
    obtain ⟨token, rfl, _⟩ := hnamed
    simp

theorem advances_matchExact (kind : TokenKind) : p.Advances (p.matchExact kind) 0 :=
  advances_of_parses (fun _ => parses_matchExact kind) fun _ _ _ _ _ => Nat.zero_le _

theorem advances_checkExact (kind : TokenKind) : p.Advances (p.checkExact kind) 0 :=
  advances_of_parses (fun _ => parses_checkExact kind) fun _ _ _ _ _ => Nat.zero_le _

theorem advances_separator (close : TokenKind) (message : String) :
    p.Advances (p.separator close message) 0 :=
  advances_of_parses (fun _ => parses_separator close message) fun _ _ _ _ _ => Nat.zero_le _

theorem advances_previousSpan : p.Advances p.previousSpan 0 :=
  fun _ => takes_nothing rfl (Nat.zero_le _)

theorem advances_parseU64 (text : String) (span : Span) : p.Advances (p.parseU64 text span) 0 :=
  (advances_pure _).ite (advances_errorAt _ _)

theorem advances_typeOf (token : Token) : p.Advances (p.typeOf token) 0 := by
  rw [typeOf]
  split
  · exact advances_pure _
  · exact advances_errorAt _ _

theorem advances_depthOf (token : Token) : p.Advances (p.depthOf token) 0 := by
  rw [depthOf]
  split
  · exact advances_parseU64 _ _
  · exact advances_errorAt _ _

theorem advances_listLoop {stop : ParseM Bool} {round : ParseM α} {loop : ParseM (List α)}
    (hstop : p.Advances stop 0) (hround : p.Advances round 1) (hloop : p.Advances loop 0) :
    p.Advances (listLoop stop round loop) 0 := by
  apply hstop.then
  intro b
  apply (advances_pure _).ite
  have hmore := hround.first fun item => hloop.then fun rest => advances_pure (item :: rest)
  exact hmore.mono (Nat.zero_le _)

end

/-- What the functions on expressions take with the fuel `n`. -/
structure Advancing (p : Parser) (n : Nat) : Prop where
  precedence : ∀ min, p.Advances (p.parsePrecedence n min) 1
  rest : ∀ min left, p.Advances (p.parseBinaryRest n min left) 0
  unary : p.Advances (p.parseUnary n) 1
  operand : p.Advances (p.parsePostfix n) 1
  operandRest : ∀ object, p.Advances (p.parsePostfixRest n object) 0
  primary : p.Advances (p.parsePrimary n) 1
  arguments : p.Advances (p.parseArguments n) 0
  elements : p.Advances (p.parseElements n) 0

theorem advancing_zero (p : Parser) : Advancing p 0 := by
  constructor
  all_goals
    intros
    exact advances_outOfFuel

section Step

variable {p : Parser} {n : Nat} (h : Advancing p n)

include h

theorem Advancing.rest_succ (min : Nat) (left : Expr) :
    p.Advances (p.parseBinaryRest (n + 1) min left) 0 := by
  intro c
  by_cases hbelow : Below min (p.ahead c)
  · exact takes_nothing (parseBinaryRest_stop hbelow) (Nat.zero_le _)
  · obtain ⟨k, hk, op, precedence, hop, hmore⟩ : ∃ k ∈ (p.ahead c).head?, ∃ op precedence,
        binaryOpOf k = some (op, precedence) ∧ min ≤ precedence := by
      simpa [Below] using hbelow
    obtain ⟨rfl, rfl⟩ := binaryOpOf_eq_some hop
    obtain ⟨rest, hahead⟩ := List.head?_eq_some_iff.mp hk
    obtain ⟨token, htoken, _⟩ := token_of_ahead hahead
    apply Takes.skip (parseBinaryRest_operator hahead hmore) htoken
    have hoperand : p.Advances (do
        let right ← p.parsePrecedence n (binaryPrecedence op + 1)
        p.parseBinaryRest n min (.binary left op right ⟨left.span.start, right.span.stop⟩)) 0 :=
      ((h.precedence _).first fun right => h.rest min _).mono (Nat.zero_le _)
    refine (hoperand (c + 1)).mono ?_
    intros
    exact Nat.zero_le _

theorem Advancing.unary_succ : p.Advances (p.parseUnary (n + 1)) 1 := by
  have hoperator (op : UnaryOp) : p.Advances (do
      let start := (← p.previousSpan).start
      let expr ← p.parseUnary n
      return Expr.unary op expr ⟨start, expr.span.stop⟩) 1 :=
    advances_previousSpan.then fun _ => h.unary.first fun _ => advances_pure _
  rw [parseUnary]
  apply (advances_matchExact _).then
  intro hit
  apply (hoperator .not).ite
  apply (advances_matchExact _).then
  intro hit
  exact (hoperator .negate).ite h.operand

theorem Advancing.operandRest_succ (object : Expr) :
    p.Advances (p.parsePostfixRest (n + 1) object) 0 := by
  rw [parsePostfixRest]
  apply (advances_matchExact _).then
  intro hit
  apply Advances.ite
  · apply h.arguments.then
    intro args
    have hclosed := (advances_expectExact .rightParen "`)`").first fun closing =>
      h.operandRest (.call object args ⟨object.span.start, closing.span.stop⟩)
    exact hclosed.mono (Nat.zero_le _)
  · apply (advances_matchExact _).then
    intro hit
    apply Advances.ite
    · have hfield := advances_parseIdentifier.first fun field =>
        h.operandRest (.field object field ⟨object.span.start, field.span.stop⟩)
      exact hfield.mono (Nat.zero_le _)
    · exact advances_pure _

theorem Advancing.primary_succ : p.Advances (p.parsePrimary (n + 1)) 1 := by
  rw [parsePrimary]
  apply (advances_advanceOrError _).first
  intro token
  split
  · exact advances_pure _
  · exact (advances_parseU64 _ _).then fun _ => advances_pure _
  · exact advances_pure _
  · exact advances_pure _
  · exact advances_pure _
  · have hinner := (h.precedence 0).first fun e =>
      ((advances_expectExact .rightParen "`)`").mono (Nat.zero_le _)).first fun _ =>
        advances_pure e
    exact hinner.mono (Nat.zero_le _)
  · apply h.elements.then
    intro elements
    have hclosed := (advances_expectExact (p := p) .rightBracket "`]`").first fun closing =>
      advances_pure (Expr.array elements ⟨token.span.start, closing.span.stop⟩)
    exact hclosed.mono (Nat.zero_le _)
  · exact (advances_pure _).ite (advances_errorAt _ _)

theorem Advancing.argumentRound : p.Advances (p.argumentRound n) 1 :=
  (h.precedence 0).first fun _ => (advances_separator _ _).then fun _ => advances_pure _

theorem Advancing.elementRound : p.Advances (p.elementRound n) 1 :=
  (h.precedence 0).first fun _ => (advances_separator _ _).then fun _ => advances_pure _

theorem advancing_succ : Advancing p (n + 1) where
  precedence min := by
    rw [parsePrecedence]
    exact h.unary.first fun left => h.rest min left
  rest := h.rest_succ
  unary := h.unary_succ
  operand := by
    rw [parsePostfix]
    exact h.primary.first fun e => h.operandRest e
  operandRest := h.operandRest_succ
  primary := h.primary_succ
  arguments := by
    rw [parseArguments_succ]
    exact advances_listLoop (advances_checkExact _) h.argumentRound h.arguments
  elements := by
    rw [parseElements_succ]
    exact advances_listLoop (advances_checkExact _) h.elementRound h.elements

end Step

theorem advancing (p : Parser) (n : Nat) : Advancing p n := by
  induction n with
  | zero => exact advancing_zero p
  | succ n ih => exact advancing_succ ih

section

variable {p : Parser}

theorem advances_parseExpression : p.Advances p.parseExpression 1 :=
  (advancing p p.fuel).precedence 0

theorem advances_parseStatement : p.Advances p.parseStatement 1 :=
  advances_of_parses p.yields_parseStatement fun _ _ _ _ hgood => hgood.1

theorem advances_statementRound : p.Advances p.statementRound 1 :=
  advances_of_parses p.yields_statementRound fun _ _ _ _ hgood => hgood.1

theorem advances_typedParam (terminator : TokenKind) : p.Advances (p.typedParam terminator) 1 :=
  advances_of_parses (p.yields_typedParam terminator) fun _ _ _ _ hgood => hgood.1

theorem advances_paramEntry : p.Advances p.paramEntry 1 :=
  advances_of_parses p.yields_paramEntry fun _ _ _ _ hgood => hgood.1

theorem advances_parseParamsBlock : p.Advances p.parseParamsBlock 1 :=
  advances_of_parses p.yields_parseParamsBlock fun _ _ _ _ hgood => hgood.1

theorem advances_parseSpend : p.Advances p.parseSpend 1 :=
  advances_of_parses p.yields_parseSpend fun _ _ _ _ hgood => hgood.1

theorem advances_parseContract : p.Advances p.parseContract 1 :=
  advances_of_parses p.yields_parseContract fun _ _ _ _ hgood => hgood.1

theorem advances_memberRound (members : Members) : p.Advances (p.memberRound members) 1 := by
  apply advances_get.then
  intro cursor
  cases p.isAtEnd cursor with
  | true => exact advances_errorHere _
  | false =>
    apply (advances_matchExact _).then
    intro hit
    apply (advances_parseParamsBlock.first fun _ => advances_pure _).ite
    apply (advances_matchExact _).then
    intro hit
    exact (advances_parseSpend.first fun _ => advances_pure _).ite (advances_errorHere _)

/-- A loop of the parser, from any fuel on. -/
theorem advances_loop {α : Type} {stop : ParseM Bool} {round : ParseM α}
    {loop : Nat → ParseM (List α)} (hzero : loop 0 = outOfFuel)
    (hsucc : ∀ n, loop (n + 1) = listLoop stop round (loop n)) (hstop : p.Advances stop 0)
    (hround : p.Advances round 1) (n : Nat) : p.Advances (loop n) 0 := by
  induction n with
  | zero =>
    rw [hzero]
    exact advances_outOfFuel
  | succ n ih =>
    rw [hsucc]
    exact advances_listLoop hstop hround ih

theorem advances_parseParamEntries (n : Nat) (finalityDepth : Option Nat) :
    p.Advances (p.parseParamEntries n finalityDepth) 0 := by
  induction n generalizing finalityDepth with
  | zero => exact advances_outOfFuel
  | succ n ih =>
    rw [parseParamEntries_succ]
    apply (advances_checkExact _).then
    intro stop
    apply (advances_pure _).ite
    have hmore : p.Advances p.paramEntry 0 := advances_paramEntry.mono (Nat.zero_le _)
    apply hmore.then
    intro entry
    cases entry with
    | finalityDepth value => exact ih _
    | param param => exact (ih _).then fun _ => advances_pure _

theorem advances_parseMembers (n : Nat) (members : Members) :
    p.Advances (p.parseMembers n members) 0 := by
  induction n generalizing members with
  | zero => exact advances_outOfFuel
  | succ n ih =>
    rw [parseMembers_succ]
    apply (advances_checkExact _).then
    intro stop
    apply (advances_pure _).ite
    have hmore := (advances_memberRound members).first fun members => ih members
    exact hmore.mono (Nat.zero_le _)

theorem advances_isAtEnd : p.Advances (p.isAtEnd <$> get) 0 :=
  fun _ => takes_nothing rfl (Nat.zero_le _)

theorem advances_parseProgram : p.Advances p.parseProgram 0 :=
  (advances_loop rfl p.parseContracts_succ advances_isAtEnd advances_parseContract _).then
    fun _ => advances_pure _

end

/-- The functions of the parser and the rounds of its loops, each with the number of tokens that it
takes at least; the loops take any fuel. -/
inductive Call (p : Parser) : {α : Type} → ParseM α → Nat → Prop
  | advanceOrError (message : String) : Call p (p.advanceOrError message) 1
  | expectExact (kind : TokenKind) (label : String) : Call p (p.expectExact kind label) 1
  | matchExact (kind : TokenKind) : Call p (p.matchExact kind) 0
  | checkExact (kind : TokenKind) : Call p (p.checkExact kind) 0
  | parseIdentifier : Call p p.parseIdentifier 1
  | parsePrimary (n : Nat) : Call p (p.parsePrimary n) 1
  | argumentRound (n : Nat) : Call p (p.argumentRound n) 1
  | parseArguments (n : Nat) : Call p (p.parseArguments n) 0
  | elementRound (n : Nat) : Call p (p.elementRound n) 1
  | parseElements (n : Nat) : Call p (p.parseElements n) 0
  | parsePostfix (n : Nat) : Call p (p.parsePostfix n) 1
  | parsePostfixRest (n : Nat) (object : Expr) : Call p (p.parsePostfixRest n object) 0
  | parseUnary (n : Nat) : Call p (p.parseUnary n) 1
  | parsePrecedence (n min : Nat) : Call p (p.parsePrecedence n min) 1
  | parseBinaryRest (n min : Nat) (left : Expr) : Call p (p.parseBinaryRest n min left) 0
  | parseExpression : Call p p.parseExpression 1
  | parseStatement : Call p p.parseStatement 1
  | statementRound : Call p p.statementRound 1
  | parseBody (n : Nat) : Call p (p.parseBody n) 0
  | typedParam (terminator : TokenKind) : Call p (p.typedParam terminator) 1
  | parseTypedParams (terminator : TokenKind) (n : Nat) :
      Call p (p.parseTypedParams terminator n) 0
  | parseSpend : Call p p.parseSpend 1
  | paramEntry : Call p p.paramEntry 1
  | parseParamEntries (n : Nat) (depth : Option Nat) : Call p (p.parseParamEntries n depth) 0
  | parseParamsBlock : Call p p.parseParamsBlock 1
  | memberRound (members : Members) : Call p (p.memberRound members) 1
  | parseMembers (n : Nat) (members : Members) : Call p (p.parseMembers n members) 0
  | parseContract : Call p p.parseContract 1
  | parseContracts (n : Nat) : Call p (p.parseContracts n) 0
  | parseProgram : Call p p.parseProgram 0

theorem advances_of_call {p : Parser} {α : Type} {m : ParseM α} {least : Nat}
    (h : Call p m least) : p.Advances m least := by
  cases h with
  | advanceOrError message => exact advances_advanceOrError message
  | expectExact kind label => exact advances_expectExact kind label
  | matchExact kind => exact advances_matchExact kind
  | checkExact kind => exact advances_checkExact kind
  | parseIdentifier => exact advances_parseIdentifier
  | parsePrimary n => exact (advancing p n).primary
  | argumentRound n => exact (advancing p n).argumentRound
  | parseArguments n => exact (advancing p n).arguments
  | elementRound n => exact (advancing p n).elementRound
  | parseElements n => exact (advancing p n).elements
  | parsePostfix n => exact (advancing p n).operand
  | parsePostfixRest n object => exact (advancing p n).operandRest object
  | parseUnary n => exact (advancing p n).unary
  | parsePrecedence n min => exact (advancing p n).precedence min
  | parseBinaryRest n min left => exact (advancing p n).rest min left
  | parseExpression => exact advances_parseExpression
  | parseStatement => exact advances_parseStatement
  | statementRound => exact advances_statementRound
  | parseBody n =>
    exact advances_loop rfl p.parseBody_succ (advances_checkExact _) advances_statementRound n
  | typedParam terminator => exact advances_typedParam terminator
  | parseTypedParams terminator n =>
    exact advances_loop rfl (fun n => p.parseTypedParams_succ n terminator)
      (advances_checkExact _) (advances_typedParam terminator) n
  | parseSpend => exact advances_parseSpend
  | paramEntry => exact advances_paramEntry
  | parseParamEntries n depth => exact advances_parseParamEntries n depth
  | parseParamsBlock => exact advances_parseParamsBlock
  | memberRound members => exact advances_memberRound members
  | parseMembers n members => exact advances_parseMembers n members
  | parseContract => exact advances_parseContract
  | parseContracts n =>
    exact advances_loop rfl p.parseContracts_succ advances_isAtEnd advances_parseContract n
  | parseProgram => exact advances_parseProgram

theorem Advances.le {p : Parser} {α : Type} {m : ParseM α} {least : Nat} (h : p.Advances m least)
    {c c' : Nat} {a : α} (hle : c ≤ p.tokens.length) (hok : m c = .ok (a, c')) :
    c + least ≤ c' ∧ c' ≤ p.tokens.length := by
  obtain ⟨ts, hdrop, hc, hleast⟩ := (h c).of_ok hok
  have hwithin := le_of_drop_eq hdrop hc hle
  omega

/-- Parsing ends on every token list, no call moves the cursor back or past the end, each call and
each round of a loop moves it as far as it must, and no token is left behind. -/
theorem parseProgram_ends_at_end (p : Parser) :
    p.parseProgram 0 ≠ .error .outOfFuel ∧
      (∀ program c, p.parseProgram 0 = .ok (program, c) → c = p.tokens.length) ∧
      ∀ (α : Type) (m : ParseM α) (least : Nat), Call p m least →
        ∀ c c' a, c ≤ p.tokens.length → m c = .ok (a, c') →
          c + least ≤ c' ∧ c' ≤ p.tokens.length := by
  refine ⟨?_, ?_, ?_⟩
  · intro hfuel
    obtain ⟨error, hreported, _⟩ := p.parses_parseProgram.of_error hfuel
    cases hreported
  · intro program c hok
    obtain ⟨_, _, _, hend, _⟩ := p.parses_parseProgram.of_ok hok
    have hwithin := advances_parseProgram.le (Nat.zero_le _) hok
    omega
  · intro α m least hcall c c' a hle hok
    exact (advances_of_call hcall).le hle hok

end KaspaScript.Parser
