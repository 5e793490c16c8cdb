import KaspaScript.Parser.Grammar
import KaspaScript.Parser.RoundTrip
import KaspaScript.Parser.Rounds

namespace KaspaScript

namespace Parser

open Library (Takes isInfix_of_drop_eq takes_nothing takes_of_error takes_pure takes_token)

/-- A diagnostic gives the place where its span starts, and the span is that of a token. -/
structure Located (p : Parser) (error : ParseError) : Prop where
  location : ⟨error.file, error.line, error.column⟩ = locate p.source p.file error.span.start
  token : p.tokens ≠ [] → ∃ token ∈ p.tokens, error.span = token.span

/-- The parser fails with a diagnostic of the source, never for want of fuel. -/
def Reported (p : Parser) (failure : ParseFailure) : Prop :=
  ∃ error, failure = .error error ∧ p.Located error

abbrev Parses {α : Type} (p : Parser) (m : ParseM α) (c : Nat)
    (good : List Token → Nat → α → Prop) : Prop :=
  Takes p.tokens p.Reported m c good

section

variable {p : Parser} {α : Type} {c : Nat} {good : List Token → Nat → α → Prop}

theorem parses_errorAt {token : Token} (h : token ∈ p.tokens) (message : String) :
    p.Parses (p.errorAt token.span message) c good :=
  takes_of_error rfl ⟨_, rfl, rfl, fun _ => ⟨token, h, rfl⟩⟩

theorem parses_errorHere (message : String) : p.Parses (p.errorHere message) c good := by
  have hspan : ∃ span, (p.errorHere message : ParseM α) c = p.errorAt span message c ∧
      (p.tokens ≠ [] → ∃ token ∈ p.tokens, span = token.span) := by
    rw [errorHere]
    cases htoken : p.tokens[c]? with
    | some token => exact ⟨token.span, rfl, fun _ => ⟨token, List.mem_of_getElem? htoken, rfl⟩⟩
    | none =>
      cases hlast : p.tokens.getLast? with
      | some token =>
        exact ⟨token.span, rfl, fun _ => ⟨token, List.mem_of_getLast? hlast, rfl⟩⟩
      | none =>
        refine ⟨⟨0, 0⟩, rfl, ?_⟩
        intro hsome
        exact absurd (List.getLast?_eq_none_iff.mp hlast) hsome
  obtain ⟨span, herror, htoken⟩ := hspan
  exact takes_of_error (herror.trans rfl) ⟨_, rfl, rfl, htoken⟩

theorem parses_advanceOrError (message : String) :
    p.Parses (p.advanceOrError message) c fun ts _ token => ts = [token] ∧ token ∈ p.tokens := by
  cases htoken : p.tokens[c]? with
  | some token =>
    exact takes_token (advanceOrError_hit htoken message) htoken
      ⟨rfl, List.mem_of_getElem? htoken⟩
  | none =>
    have herror : p.advanceOrError message c = p.errorHere message c := by
      rw [advanceOrError, htoken]
    have hfails : p.Parses (p.errorHere message : ParseM Token) c fun _ _ _ => False :=
      parses_errorHere message
    cases hrun : (p.errorHere message : ParseM Token) c with
    | ok r =>
      obtain ⟨token, c'⟩ := r
      obtain ⟨_, _, _, hfalse⟩ := hfails.of_ok hrun
      exact hfalse.elim
    | error e => exact takes_of_error (herror.trans hrun) (hfails.of_error hrun)

theorem parses_expectExact (kind : TokenKind) (label : String) :
    p.Parses (p.expectExact kind label) c fun ts _ token => ts = [token] ∧ token.kind = kind := by
  apply (parses_advanceOrError _).bind
  intro ts c' token _ _ htoken
  obtain ⟨rfl, hmem⟩ := htoken
  by_cases hkind : token.kind = kind
  · rw [if_pos hkind]
    exact takes_pure ⟨rfl, hkind⟩
  · rw [if_neg hkind]
    exact parses_errorAt hmem _

/-- A match takes the token it asks for; the span behind the cursor is then that token's. -/
theorem parses_matchExact (kind : TokenKind) :
    p.Parses (p.matchExact kind) c fun ts c' hit =>
      (hit = true ∧ ∃ token, ts = [token] ∧ token.kind = kind ∧
        p.previousSpan c' = .ok (token.span, c')) ∨
      (hit = false ∧ ts = [] ∧ c' = c ∧ p.currentKind c ≠ some kind) := by
  by_cases hkind : p.currentKind c = some kind
  · obtain ⟨token, htoken, hsame⟩ := Option.map_eq_some_iff.mp hkind
    have hprevious : p.previousSpan (c + 1) = .ok (token.span, c + 1) := by
      simp [previousSpan, htoken]
    have hmatch : p.matchExact kind c = .ok (true, c + 1) := by rw [matchExact, if_pos hkind]
    exact takes_token hmatch htoken (.inl ⟨rfl, token, rfl, hsame, hprevious⟩)
  · refine takes_nothing ?_ (.inr ⟨rfl, rfl, rfl, hkind⟩)
    rw [matchExact, if_neg hkind]

theorem parses_checkExact (kind : TokenKind) :
    p.Parses (p.checkExact kind) c fun ts c' hit =>
      ts = [] ∧ c' = c ∧ (hit = true ↔ p.currentKind c = some kind) :=
  takes_nothing rfl ⟨rfl, rfl, by simp⟩

theorem parses_parseU64 {token : Token} (h : token ∈ p.tokens) (text : String) :
    p.Parses (p.parseU64 text token.span) c fun ts _ value =>
      ts = [] ∧ value = decimalValue text ∧ decimalValue text ≤ u64Max := by
  rw [parseU64]
  by_cases hfits : decimalValue text ≤ u64Max
  · rw [if_pos hfits]
    exact takes_pure ⟨rfl, rfl, hfits⟩
  · rw [if_neg hfits]
    exact parses_errorAt h _

theorem parses_parseIdentifier :
    p.Parses p.parseIdentifier c fun ts _ id => ∃ token, ts = [token] ∧ Named token id := by
  apply (parses_advanceOrError _).bind
  intro ts c' token _ _ htoken
  obtain ⟨rfl, hmem⟩ := htoken
  have hkeyword : p.Parses (if isValueKeyword token.kind then
        pure ⟨tokenText token.kind, token.span⟩
      else p.errorAt token.span "expected identifier") c'
      fun rest _ id => ∃ token', [token] ++ rest = [token'] ∧ Named token' id := by
    by_cases hvalue : isValueKeyword token.kind = true
    · rw [if_pos hvalue]
      exact takes_pure ⟨token, rfl, .keyword hvalue⟩
    · rw [if_neg hvalue]
      exact parses_errorAt hmem _
  cases hkind : token.kind with
  | identifier name => exact takes_pure ⟨token, rfl, .identifier hkind⟩
  | _ => simpa only [hkind] using hkeyword

/-- A separator takes a comma, or nothing before the closing token. -/
theorem parses_separator (close : TokenKind) (message : String) :
    p.Parses (p.separator close message) c fun ts c' _ =>
      (∃ comma : Token, ts = [comma] ∧ comma.kind = .comma) ∨
        (ts = [] ∧ p.currentKind c' = some close) := by
  apply (parses_matchExact _).bind
  intro ts c' hit _ _ hmatch
  rcases hmatch with hhit | hmiss
  · obtain ⟨rfl, comma, rfl, hkind, _⟩ := hhit
    exact takes_pure (.inl ⟨comma, rfl, hkind⟩)
  · obtain ⟨rfl, rfl, rfl, _⟩ := hmiss
    apply (parses_checkExact _).bind
    intro ts c'' hit _ _ hcheck
    obtain ⟨rfl, rfl, hiff⟩ := hcheck
    cases hit with
    | true => exact takes_pure (.inr ⟨rfl, hiff.mp rfl⟩)
    | false => exact parses_errorHere _

end

/-- An expression as a segment of the tokens, bound at least as tightly as `min`. -/
def Spells (min : Nat) (ts : List Token) (e : Expr) : Prop :=
  ∃ level first last, min ≤ level ∧ Derives ts (.expr level first last e)

/-- A round of an argument or element loop took an expression and its separator. -/
def SpellsItem (p : Parser) (close : TokenKind) (ts : List Token) (c' : Nat) (e : Expr) : Prop :=
  (∃ item, ∃ comma : Token, ts = item ++ [comma] ∧ comma.kind = .comma ∧ Spells 0 item e) ∨
    (Spells 0 ts e ∧ p.currentKind c' = some close)

/-- The list from cursor `c` on; before the closing token it is empty. -/
def SpellsList (p : Parser) (close : TokenKind) (c : Nat) (ts : List Token) (es : List Expr) :
    Prop :=
  Derives ts (.list es) ∧ (p.currentKind c = some close → ts = [] ∧ es = [])

/-- What the functions of the parser take with the fuel `n`, where it pays for the tokens left:
five calls for each of them. -/
structure Sound (p : Parser) (n : Nat) : Prop where
  precedence : ∀ {c min}, min ≤ 7 → 5 * (p.tokens.length - c) + 4 ≤ n →
    p.Parses (p.parsePrecedence n min) c fun ts c' e => Below min (p.ahead c') ∧ Spells min ts e
  rest : ∀ {c min done level first last left}, min ≤ level →
    Derives done (.expr level first last left) → Below (level + 1) (p.ahead c) →
    5 * (p.tokens.length - c) + 1 ≤ n →
    p.Parses (p.parseBinaryRest n min left) c fun ts c' e =>
      Below min (p.ahead c') ∧ Spells min (done ++ ts) e
  unary : ∀ {c}, 5 * (p.tokens.length - c) + 3 ≤ n →
    p.Parses (p.parseUnary n) c fun ts _ e => Spells 7 ts e
  operand : ∀ {c}, 5 * (p.tokens.length - c) + 2 ≤ n →
    p.Parses (p.parsePostfix n) c fun ts _ e => Spells 8 ts e
  operandRest : ∀ {c done object}, Spells 8 done object → 5 * (p.tokens.length - c) + 1 ≤ n →
    p.Parses (p.parsePostfixRest n object) c fun ts _ e => Spells 8 (done ++ ts) e
  primary : ∀ {c}, 5 * (p.tokens.length - c) + 1 ≤ n →
    p.Parses (p.parsePrimary n) c fun ts _ e => Spells 9 ts e
  arguments : ∀ {c}, 5 * (p.tokens.length - c) + 5 ≤ n →
    p.Parses (p.parseArguments n) c fun ts _ es => SpellsList p .rightParen c ts es
  elements : ∀ {c}, 5 * (p.tokens.length - c) + 5 ≤ n →
    p.Parses (p.parseElements n) c fun ts _ es => SpellsList p .rightBracket c ts es

theorem sound_zero (p : Parser) : Sound p 0 := by
  constructor
  all_goals
    intros
    omega

/-- A segment leaves that many tokens fewer. -/
theorem left_of_drop_eq {p : Parser} {c c' : Nat} {ts : List Token}
    (h : p.tokens.drop c = ts ++ p.tokens.drop c') :
    p.tokens.length - c = ts.length + (p.tokens.length - c') := by
  have hlength := congrArg List.length h
  rwa [List.length_append, List.length_drop, List.length_drop] at hlength

theorem Spells.length_pos {min : Nat} {ts : List Token} {e : Expr} (h : Spells min ts e) :
    0 < ts.length := by
  obtain ⟨_, _, _, _, hderives⟩ := h
  exact length_pos_of_derives hderives

section Step

variable {p : Parser} {n c : Nat} (h : Sound p n)

include h

theorem Sound.precedence_succ {min : Nat} (hmin : min ≤ 7)
    (hn : 5 * (p.tokens.length - c) + 4 ≤ n + 1) :
    p.Parses (p.parsePrecedence (n + 1) min) c fun ts c' e =>
      Below min (p.ahead c') ∧ Spells min ts e := by
  rw [parsePrecedence]
  apply (h.unary (by omega)).bind
  intro ts c' left hdrop _ hleft
  have hpos := hleft.length_pos
  have hfewer := left_of_drop_eq hdrop
  obtain ⟨level, first, last, hlevel, hderives⟩ := hleft
  apply h.rest (by omega) hderives _ (by omega)
  intro k hk op precedence hop
  obtain ⟨_, rfl⟩ := binaryOpOf_eq_some hop
  have hle := binaryPrecedence_le op
  omega

/-- The right operand stops before any operator that binds more loosely than this one does, so
the operator behind it finds the whole left side as its operand. -/
theorem Sound.rest_succ {min level : Nat} {done : List Token} {first last : Bool} {left : Expr}
    (hmin : min ≤ level) (hdone : Derives done (.expr level first last left))
    (hnext : Below (level + 1) (p.ahead c)) (hn : 5 * (p.tokens.length - c) + 1 ≤ n + 1) :
    p.Parses (p.parseBinaryRest (n + 1) min left) c fun ts c' e =>
      Below min (p.ahead c') ∧ Spells min (done ++ ts) e := by
  by_cases hbelow : Below min (p.ahead c)
  · have hstop : p.parseBinaryRest (n + 1) min left c = .ok (left, c) := parseBinaryRest_stop hbelow
    refine takes_nothing hstop ⟨hbelow, level, first, last, hmin, ?_⟩
    rwa [List.append_nil]
  · obtain ⟨k, hk, op, precedence, hop, hmore⟩ : ∃ k ∈ (p.ahead c).head?, ∃ op precedence,
        binaryOpOf k = some (op, precedence) ∧ min ≤ precedence := by
      simpa [Below] using hbelow
    have hlevel := hnext k hk op precedence hop
    obtain ⟨rfl, rfl⟩ := binaryOpOf_eq_some hop
    obtain ⟨rest, hahead⟩ := List.head?_eq_some_iff.mp hk
    obtain ⟨token, htoken, hkind⟩ := token_of_ahead hahead
    have hlt := (List.getElem?_eq_some_iff.mp htoken).1
    apply Takes.skip (parseBinaryRest_operator hahead hmore) htoken
    have hle := binaryPrecedence_le op
    apply (h.precedence (by omega) (by omega)).bind
    intro ts c' right hdrop _ hright
    obtain ⟨hbelow', level', first', last', hlevel', hderives⟩ := hright
    have hfewer := left_of_drop_eq hdrop
    have hbinary := Derives.binary hkind (Nat.lt_succ_iff.mp hlevel) hlevel' hdone hderives
    refine (h.rest hmore hbinary hbelow' (by omega)).mono ?_
    intro ts' c'' e hgood
    simpa using hgood

theorem Sound.unary_succ (hn : 5 * (p.tokens.length - c) + 3 ≤ n + 1) :
    p.Parses (p.parseUnary (n + 1)) c fun ts _ e => Spells 7 ts e := by
  have hoperator (op : UnaryOp) {c' : Nat} {token : Token}
      (hdrop : p.tokens.drop c = [token] ++ p.tokens.drop c') (hkind : token.kind = unaryToken op)
      (hprevious : p.previousSpan c' = .ok (token.span, c')) :
      p.Parses (do
        let start := (← p.previousSpan).start
        let expr ← p.parseUnary n
        return .unary op expr ⟨start, expr.span.stop⟩) c'
        fun ts _ e => Spells 7 ([token] ++ ts) e := by
    have hspan : p.Parses p.previousSpan c' fun ts c'' span =>
        ts = [] ∧ c'' = c' ∧ span = token.span := takes_nothing hprevious ⟨rfl, rfl, rfl⟩
    have hfewer := left_of_drop_eq hdrop
    rw [List.length_singleton] at hfewer
    apply hspan.bind
    intro _ _ _ _ _ hsame
    obtain ⟨rfl, rfl, rfl⟩ := hsame
    apply (h.unary (by omega)).bind
    intro ts _ e _ _ hinner
    obtain ⟨level, first, last, hlevel, hderives⟩ := hinner
    refine takes_pure ⟨7, false, last, Nat.le_refl _, ?_⟩
    simpa using Derives.unary hkind hlevel hderives
  rw [parseUnary]
  apply (parses_matchExact _).bind
  intro ts c' hit hdrop _ hmatch
  rcases hmatch with hhit | hmiss
  · obtain ⟨rfl, token, rfl, hkind, hprevious⟩ := hhit
    exact hoperator .not hdrop hkind hprevious
  · obtain ⟨rfl, rfl, rfl, _⟩ := hmiss
    apply (parses_matchExact _).bind
    intro ts c'' hit hdrop' _ hmatch
    rcases hmatch with hhit | hmiss
    · obtain ⟨rfl, token, rfl, hkind, hprevious⟩ := hhit
      exact hoperator .negate hdrop' hkind hprevious
    · obtain ⟨rfl, rfl, rfl, _⟩ := hmiss
      refine (h.operand (by omega)).mono ?_
      intro ts _ e hoperand
      obtain ⟨level, first, last, hlevel, hderives⟩ := hoperand
      exact ⟨level, first, last, by omega, hderives⟩

theorem Sound.operand_succ (hn : 5 * (p.tokens.length - c) + 2 ≤ n + 1) :
    p.Parses (p.parsePostfix (n + 1)) c fun ts _ e => Spells 8 ts e := by
  rw [parsePostfix]
  apply (h.primary (by omega)).bind
  intro ts c' e hdrop _ hprimary
  have hpos := hprimary.length_pos
  have hfewer := left_of_drop_eq hdrop
  obtain ⟨level, first, last, hlevel, hderives⟩ := hprimary
  exact h.operandRest ⟨level, first, last, by omega, hderives⟩ (by omega)

theorem Sound.operandRest_succ {done : List Token} {object : Expr} (hdone : Spells 8 done object)
    (hn : 5 * (p.tokens.length - c) + 1 ≤ n + 1) :
    p.Parses (p.parsePostfixRest (n + 1) object) c fun ts _ e => Spells 8 (done ++ ts) e := by
  obtain ⟨level, first, last, hlevel, hderives⟩ := hdone
  rw [parsePostfixRest]
  apply (parses_matchExact _).bind
  intro ts c₁ hit hdrop _ hmatch
  rcases hmatch with hhit | hmiss
  · obtain ⟨rfl, opening, rfl, hopening, _⟩ := hhit
    have hfewer := left_of_drop_eq hdrop
    rw [List.length_singleton] at hfewer
    apply (h.arguments (by omega)).bind
    intro args c₂ es hdrop₂ _ hargs
    have hfewer₂ := left_of_drop_eq hdrop₂
    apply (parses_expectExact _ _).bind
    intro ts c₃ closing hdrop₃ _ hclosing
    obtain ⟨rfl, hclosing⟩ := hclosing
    have hfewer₃ := left_of_drop_eq hdrop₃
    have hcall := Derives.call hlevel hopening hclosing hderives hargs.1
    refine (h.operandRest ⟨8, first, false, Nat.le_refl _, hcall⟩ (by omega)).mono ?_
    intro rest _ e hgood
    simpa using hgood
  · obtain ⟨rfl, rfl, rfl, _⟩ := hmiss
    apply (parses_matchExact _).bind
    intro ts c₂ hit hdrop₂ _ hmatch
    rcases hmatch with hhit | hmiss
    · obtain ⟨rfl, dot, rfl, hdot, _⟩ := hhit
      have hfewer₂ := left_of_drop_eq hdrop₂
      rw [List.length_singleton] at hfewer₂
      apply parses_parseIdentifier.bind
      intro ts c₃ field hdrop₃ _ hfield
      obtain ⟨token, rfl, hnamed⟩ := hfield
      have hfewer₃ := left_of_drop_eq hdrop₃
      have hfield := Derives.field hlevel hdot hnamed hderives
      refine (h.operandRest ⟨8, first, false, Nat.le_refl _, hfield⟩ (by omega)).mono ?_
      intro rest _ e hgood
      simpa using hgood
    · obtain ⟨rfl, rfl, rfl, _⟩ := hmiss
      refine takes_pure ⟨level, first, last, hlevel, ?_⟩
      simpa using hderives

theorem Sound.primary_succ (hn : 5 * (p.tokens.length - c) + 1 ≤ n + 1) :
    p.Parses (p.parsePrimary (n + 1)) c fun ts _ e => Spells 9 ts e := by
  rw [parsePrimary]
  apply (parses_advanceOrError _).bind
  intro ts c₁ token hdrop _ htoken
  obtain ⟨rfl, hmem⟩ := htoken
  have hfewer := left_of_drop_eq hdrop
  rw [List.length_singleton] at hfewer
  have hatom {e : Expr} (h : Atom token e) : Spells 9 ([token] ++ []) e :=
    ⟨9, false, false, Nat.le_refl _, .atom h⟩
  have hkeyword : p.Parses (if isValueKeyword token.kind then
        pure (.ident ⟨tokenText token.kind, token.span⟩)
      else p.errorAt token.span "expected expression") c₁
      fun rest _ e => Spells 9 ([token] ++ rest) e := by
    by_cases hvalue : isValueKeyword token.kind = true
    · rw [if_pos hvalue]
      exact takes_pure (hatom (.ident (.keyword hvalue)))
    · rw [if_neg hvalue]
      exact parses_errorAt hmem _
  cases hkind : token.kind with
  | identifier name => exact takes_pure (hatom (.ident (.identifier hkind)))
  | integer text =>
    apply (parses_parseU64 hmem text).bind
    intro ts _ value _ _ hvalue
    obtain ⟨rfl, rfl, hfits⟩ := hvalue
    exact takes_pure (hatom (.integer hkind hfits))
  | string value => exact takes_pure (hatom (.string hkind))
  | «true» => exact takes_pure (hatom (.true hkind))
  | «false» => exact takes_pure (hatom (.false hkind))
  | leftParen =>
    apply (h.precedence (Nat.zero_le _) (by omega)).bind
    intro ts c₂ e hdrop₂ _ hinner
    obtain ⟨_, level, first, last, _, hderives⟩ := hinner
    apply (parses_expectExact _ _).bind
    intro ts c₃ closing _ _ hclosing
    obtain ⟨rfl, hclosing⟩ := hclosing
    refine takes_pure ⟨9, true, true, Nat.le_refl _, ?_⟩
    simpa using Derives.paren hkind hclosing hderives
  | leftBracket =>
    apply (h.elements (by omega)).bind
    intro ts c₂ es hdrop₂ _ hinner
    apply (parses_expectExact _ _).bind
    intro ts c₃ closing _ _ hclosing
    obtain ⟨rfl, hclosing⟩ := hclosing
    refine takes_pure ⟨9, false, false, Nat.le_refl _, ?_⟩
    simpa using Derives.array hkind hclosing hinner.1
  | _ => simpa only [hkind] using hkeyword

/-- A round takes an expression and what separates it from the next one. -/
theorem Sound.item {close : TokenKind} {message : String}
    (hn : 5 * (p.tokens.length - c) + 4 ≤ n) :
    p.Parses (do
      let item ← p.parsePrecedence n 0
      p.separator close message
      pure item) c (SpellsItem p close) := by
  apply (h.precedence (Nat.zero_le _) hn).bind
  intro ts c₁ e _ _ hexpr
  apply (parses_separator _ _).bind
  intro ts c₂ _ _ _ hseparator
  rcases hseparator with hcomma | hclose
  · obtain ⟨comma, rfl, hkind⟩ := hcomma
    refine takes_pure (.inl ⟨_, comma, ?_, hkind, hexpr.2⟩)
    simp
  · obtain ⟨rfl, hclose⟩ := hclose
    refine takes_pure (.inr ⟨?_, ?_⟩)
    · simpa using hexpr.2
    · exact hclose

end Step

/-- One round after the other, until the closing token. -/
theorem parses_listLoop {p : Parser} {c : Nat} {close : TokenKind} {round : ParseM Expr}
    {loop : ParseM (List Expr)} (hround : p.Parses round c (SpellsItem p close))
    (hloop : ∀ c', p.tokens.length - c' < p.tokens.length - c →
      p.Parses loop c' fun ts _ es => SpellsList p close c' ts es) :
    p.Parses (listLoop (p.checkExact close) round loop) c fun ts _ es =>
      SpellsList p close c ts es := by
  rw [listLoop]
  apply (parses_checkExact _).bind
  intro ts c₁ stop _ _ hcheck
  obtain ⟨rfl, rfl, hstop⟩ := hcheck
  cases stop with
  | true => exact takes_pure ⟨.nil, fun _ => ⟨rfl, rfl⟩⟩
  | false =>
    have hopen : p.currentKind c₁ ≠ some close := fun hclose => by simp [hclose] at hstop
    apply hround.bind
    intro ts c₂ e hdrop _ hitem
    have hfewer := left_of_drop_eq hdrop
    have hpos : 0 < ts.length := by
      rcases hitem with hcomma | hlast
      · obtain ⟨item, comma, rfl, _, hspells⟩ := hcomma
        simp
      · exact hlast.1.length_pos
    apply (hloop c₂ (by omega)).bind
    intro rest c₃ es _ _ hrest
    refine takes_pure ⟨?_, fun hclose => absurd hclose hopen⟩
    rcases hitem with hcomma | hlast
    · obtain ⟨item, comma, rfl, hkind, _, _, _, _, hderives⟩ := hcomma
      simpa using Derives.more hkind hderives hrest.1
    · obtain ⟨⟨_, _, _, _, hderives⟩, hclose⟩ := hlast
      obtain ⟨rfl, rfl⟩ := hrest.2 hclose
      simpa using Derives.one hderives

theorem sound_succ {p : Parser} {n : Nat} (h : Sound p n) : Sound p (n + 1) where
  precedence := h.precedence_succ
  rest := h.rest_succ
  unary := h.unary_succ
  operand := h.operand_succ
  operandRest := h.operandRest_succ
  primary := h.primary_succ
  arguments := by
    intro c hn
    rw [parseArguments_succ]
    exact parses_listLoop (h.item (by omega)) fun c' hless => h.arguments (by omega)
  elements := by
    intro c hn
    rw [parseElements_succ]
    exact parses_listLoop (h.item (by omega)) fun c' hless => h.elements (by omega)

theorem sound (p : Parser) (n : Nat) : Sound p n := by
  induction n with
  | zero => exact sound_zero p
  | succ n ih => exact sound_succ ih

theorem parses_parseExpression {p : Parser} {c : Nat} :
    p.Parses p.parseExpression c fun ts _ e => Spells 0 ts e := by
  have hfuel : 5 * (p.tokens.length - c) + 4 ≤ p.fuel := by
    unfold fuel
    omega
  refine ((sound p p.fuel).precedence (Nat.zero_le _) hfuel).mono ?_
  intro ts _ e hgood
  exact hgood.2

end Parser

end KaspaScript
