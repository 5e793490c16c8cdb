import KaspaScript.Parser.Printed

namespace KaspaScript

namespace Parser

variable {p : Parser} {c n : Nat} {k : TokenKind} {rest : List TokenKind}

/-- The kinds of the tokens from the cursor on. -/
def ahead (p : Parser) (cursor : Nat) : List TokenKind := (p.tokens.drop cursor).map Token.kind

theorem pure_run {α : Type} (a : α) : (pure a : ParseM α) c = .ok (a, c) := rfl

theorem currentKind_eq (p : Parser) (c : Nat) : p.currentKind c = (p.ahead c).head? := by
  simp [currentKind, ahead, List.head?_drop]

theorem ahead_add {ks : List TokenKind} (h : p.ahead c = ks ++ rest) :
    p.ahead (c + ks.length) = rest := by
  have hdrop : p.ahead (c + ks.length) = (p.ahead c).drop ks.length := by
    simp [ahead, List.map_drop]
  rw [hdrop, h, List.drop_left]

theorem ahead_succ (h : p.ahead c = k :: rest) : p.ahead (c + 1) = rest := by
  have hlist : p.ahead c = [k] ++ rest := h
  exact ahead_add hlist

theorem token_of_ahead (h : p.ahead c = k :: rest) :
    ∃ token, p.tokens[c]? = some token ∧ token.kind = k := by
  have hkind := p.currentKind_eq c
  simp only [h, List.head?_cons, currentKind, Option.map_eq_some_iff] at hkind
  exact hkind

theorem matchExact_hit (h : p.ahead c = k :: rest) : p.matchExact k c = .ok (true, c + 1) := by
  simp [matchExact, currentKind_eq, h]

theorem matchExact_miss (h : (p.ahead c).head? ≠ some k) :
    p.matchExact k c = .ok (false, c) := by
  simp [matchExact, currentKind_eq, h]

theorem checkExact_hit (h : p.ahead c = k :: rest) : p.checkExact k c = .ok (true, c) := by
  simp [checkExact, currentKind_eq, h]

theorem checkExact_miss (h : (p.ahead c).head? ≠ some k) :
    p.checkExact k c = .ok (false, c) := by
  simp [checkExact, currentKind_eq, h]

theorem advanceOrError_hit {token : Token} (h : p.tokens[c]? = some token) (message : String) :
    p.advanceOrError message c = .ok (token, c + 1) := by
  simp [advanceOrError, h]

theorem expectExact_hit (h : p.ahead c = k :: rest) (label : String) :
    ∃ token, p.expectExact k label c = .ok (token, c + 1) := by
  obtain ⟨token, htoken, hkind⟩ := token_of_ahead h
  refine ⟨token, ?_⟩
  simp only [expectExact, bind, StateT.bind, Except.bind, advanceOrError_hit htoken, hkind,
    if_true]
  rfl

/-- The tokens that read as a name: its identifier, or the value keyword of that text. -/
def NameKind (name : String) (k : TokenKind) : Prop :=
  k = .identifier name ∨ (isValueKeyword k = true ∧ tokenText k = name)

theorem nameKind_nameToken (name : String) : NameKind name (nameToken name) := nameToken_cases name

theorem NameKind.ne {name : String} (h : NameKind name k) :
    k ≠ .rightParen ∧ k ≠ .rightBracket ∧ k ≠ .bang ∧ k ≠ .minus := by
  rcases h with rfl | ⟨hvalue, -⟩
  · simp
  · cases k <;> simp_all [isValueKeyword]

theorem parseIdentifier_hit {name : String} (hk : NameKind name k) (h : p.ahead c = k :: rest) :
    ∃ span, p.parseIdentifier c = .ok (⟨name, span⟩, c + 1) := by
  obtain ⟨token, htoken, hkind⟩ := token_of_ahead h
  refine ⟨token.span, ?_⟩
  simp only [parseIdentifier, bind, StateT.bind, Except.bind, advanceOrError_hit htoken, hkind]
  rcases hk with rfl | ⟨hvalue, htext⟩
  · rfl
  · cases k <;> simp_all [isValueKeyword] <;> rfl

/-! One step of each parser function, where the next token decides it. -/

section Step

variable {e : Expr} {es : List Expr} {c' c'' min : Nat} {rest' : List TokenKind}

theorem parsePrecedence_step (h : p.parseUnary n c = .ok (e, c')) :
    p.parsePrecedence (n + 1) min c = p.parseBinaryRest n min e c' := by
  simp [parsePrecedence, bind, StateT.bind, Except.bind, h]

theorem parseBinaryRest_stop (h : ∀ k ∈ (p.ahead c).head?, ∀ op precedence,
    binaryOpOf k = some (op, precedence) → precedence < min) :
    p.parseBinaryRest (n + 1) min e c = .ok (e, c) := by
  simp only [parseBinaryRest, bind, StateT.bind, Except.bind, get, getThe, MonadStateOf.get,
    StateT.get, pure, Except.pure, currentKind_eq]
  cases hop : (p.ahead c).head?.bind binaryOpOf with
  | none => rfl
  | some found =>
    obtain ⟨k, hk, hfound⟩ := Option.bind_eq_some_iff.mp hop
    have hless := h k hk found.1 found.2 hfound
    simp [hless]
    rfl

theorem parseBinaryRest_operator {op : BinaryOp} (h : p.ahead c = binaryToken op :: rest)
    (hmin : min ≤ binaryPrecedence op) :
    p.parseBinaryRest (n + 1) min e c =
      (p.parsePrecedence n (binaryPrecedence op + 1) >>= fun right =>
        p.parseBinaryRest n min (.binary e op right ⟨e.span.start, right.span.stop⟩)) (c + 1) := by
  have hless : ¬ binaryPrecedence op < min := Nat.not_lt_of_ge hmin
  simp only [parseBinaryRest, bind, StateT.bind, Except.bind, get, getThe, MonadStateOf.get,
    StateT.get, pure, Except.pure, currentKind_eq, h, List.head?_cons, Option.bind_some,
    binaryOpOf_binaryToken, if_neg hless, modify, modifyGet, MonadStateOf.modifyGet,
    StateT.modifyGet]

theorem parseBinaryRest_more {op : BinaryOp} {right : Expr}
    (h : p.ahead c = binaryToken op :: rest) (hmin : min ≤ binaryPrecedence op)
    (hright : p.parsePrecedence n (binaryPrecedence op + 1) (c + 1) = .ok (right, c')) :
    p.parseBinaryRest (n + 1) min e c =
      p.parseBinaryRest n min (.binary e op right ⟨e.span.start, right.span.stop⟩) c' := by
  rw [parseBinaryRest_operator h hmin]
  simp only [bind, StateT.bind, Except.bind, hright]

theorem parseUnary_operator {op : UnaryOp} (h : p.ahead c = unaryToken op :: rest)
    (he : p.parseUnary n (c + 1) = .ok (e, c')) :
    ∃ span, p.parseUnary (n + 1) c = .ok (.unary op e span, c') := by
  cases op with
  | not =>
    have hbang : p.ahead c = .bang :: rest := h
    simp [parseUnary, bind, StateT.bind, Except.bind, matchExact_hit hbang, previousSpan, he,
      pure_run]
  | negate =>
    have hminus : p.ahead c = .minus :: rest := h
    have hbang : (p.ahead c).head? ≠ some .bang := by simp [hminus]
    simp [parseUnary, bind, StateT.bind, Except.bind, matchExact_miss hbang,
      matchExact_hit hminus, previousSpan, he, pure_run]

theorem parseUnary_operand (hbang : (p.ahead c).head? ≠ some .bang)
    (hminus : (p.ahead c).head? ≠ some .minus) :
    p.parseUnary (n + 1) c = p.parsePostfix n c := by
  simp [parseUnary, bind, StateT.bind, Except.bind, matchExact_miss hbang,
    matchExact_miss hminus]

theorem parsePostfix_step (h : p.parsePrimary n c = .ok (e, c')) :
    p.parsePostfix (n + 1) c = p.parsePostfixRest n e c' := by
  simp [parsePostfix, bind, StateT.bind, Except.bind, h]

theorem parsePostfixRest_stop (hparen : (p.ahead c).head? ≠ some .leftParen)
    (hdot : (p.ahead c).head? ≠ some .dot) :
    p.parsePostfixRest (n + 1) e c = .ok (e, c) := by
  simp [parsePostfixRest, bind, StateT.bind, Except.bind, matchExact_miss hparen,
    matchExact_miss hdot, pure_run]

theorem parsePostfixRest_call (h : p.ahead c = .leftParen :: rest)
    (hargs : p.parseArguments n (c + 1) = .ok (es, c'))
    (hclose : p.ahead c' = .rightParen :: rest') :
    ∃ span, p.parsePostfixRest (n + 1) e c = p.parsePostfixRest n (.call e es span) (c' + 1) := by
  obtain ⟨token, htoken⟩ := expectExact_hit hclose "`)`"
  refine ⟨⟨e.span.start, token.span.stop⟩, ?_⟩
  simp [parsePostfixRest, bind, StateT.bind, Except.bind, matchExact_hit h, hargs, htoken]

theorem parsePostfixRest_field {name : String} (hk : NameKind name k)
    (h : p.ahead c = .dot :: k :: rest) :
    ∃ field : Ident, ∃ span, field.name = name ∧
      p.parsePostfixRest (n + 1) e c = p.parsePostfixRest n (.field e field span) (c + 1 + 1) := by
  have hparen : (p.ahead c).head? ≠ some .leftParen := by simp [h]
  obtain ⟨span, hname⟩ := parseIdentifier_hit hk (ahead_succ h)
  refine ⟨⟨name, span⟩, ⟨e.span.start, span.stop⟩, rfl, ?_⟩
  simp [parsePostfixRest, bind, StateT.bind, Except.bind, matchExact_miss hparen,
    matchExact_hit h, hname]

theorem parseArguments_stop (h : p.ahead c = .rightParen :: rest) :
    p.parseArguments (n + 1) c = .ok ([], c) := by
  simp [parseArguments, bind, StateT.bind, Except.bind, checkExact_hit h, pure_run]

theorem parseArguments_comma (hopen : (p.ahead c).head? ≠ some .rightParen)
    (he : p.parsePrecedence n 0 c = .ok (e, c')) (hcomma : p.ahead c' = .comma :: rest)
    (hes : p.parseArguments n (c' + 1) = .ok (es, c'')) :
    p.parseArguments (n + 1) c = .ok (e :: es, c'') := by
  simp [parseArguments, bind, StateT.bind, Except.bind, checkExact_miss hopen, he,
    matchExact_hit hcomma, hes, pure_run]

theorem parseArguments_last (hopen : (p.ahead c).head? ≠ some .rightParen)
    (he : p.parsePrecedence n 0 c = .ok (e, c')) (hclose : p.ahead c' = .rightParen :: rest)
    (hn : 0 < n) :
    p.parseArguments (n + 1) c = .ok ([e], c') := by
  obtain ⟨n, rfl⟩ := Nat.exists_eq_succ_of_ne_zero (Nat.ne_of_gt hn)
  have hcomma : (p.ahead c').head? ≠ some .comma := by simp [hclose]
  have hstop : p.parseArguments (n + 1) c' = .ok ([], c') := parseArguments_stop hclose
  rw [parseArguments]
  simp [bind, StateT.bind, Except.bind, checkExact_miss hopen, he, matchExact_miss hcomma,
    checkExact_hit hclose, hstop, pure_run]

theorem parseElements_stop (h : p.ahead c = .rightBracket :: rest) :
    p.parseElements (n + 1) c = .ok ([], c) := by
  simp [parseElements, bind, StateT.bind, Except.bind, checkExact_hit h, pure_run]

theorem parseElements_comma (hopen : (p.ahead c).head? ≠ some .rightBracket)
    (he : p.parsePrecedence n 0 c = .ok (e, c')) (hcomma : p.ahead c' = .comma :: rest)
    (hes : p.parseElements n (c' + 1) = .ok (es, c'')) :
    p.parseElements (n + 1) c = .ok (e :: es, c'') := by
  simp [parseElements, bind, StateT.bind, Except.bind, checkExact_miss hopen, he,
    matchExact_hit hcomma, hes, pure_run]

theorem parseElements_last (hopen : (p.ahead c).head? ≠ some .rightBracket)
    (he : p.parsePrecedence n 0 c = .ok (e, c')) (hclose : p.ahead c' = .rightBracket :: rest)
    (hn : 0 < n) :
    p.parseElements (n + 1) c = .ok ([e], c') := by
  obtain ⟨n, rfl⟩ := Nat.exists_eq_succ_of_ne_zero (Nat.ne_of_gt hn)
  have hcomma : (p.ahead c').head? ≠ some .comma := by simp [hclose]
  have hstop : p.parseElements (n + 1) c' = .ok ([], c') := parseElements_stop hclose
  rw [parseElements]
  simp [bind, StateT.bind, Except.bind, checkExact_miss hopen, he, matchExact_miss hcomma,
    checkExact_hit hclose, hstop, pure_run]

theorem parsePrimary_name {name : String} (hk : NameKind name k) (h : p.ahead c = k :: rest) :
    ∃ span, p.parsePrimary (n + 1) c = .ok (.ident ⟨name, span⟩, c + 1) := by
  obtain ⟨token, htoken, hkind⟩ := token_of_ahead h
  refine ⟨token.span, ?_⟩
  simp only [parsePrimary, bind, StateT.bind, Except.bind, advanceOrError_hit htoken, hkind]
  rcases hk with rfl | ⟨hvalue, htext⟩
  · rfl
  · cases k <;> simp_all [isValueKeyword] <;> rfl

theorem parsePrimary_integer {text : String} {value : Nat}
    (h : p.ahead c = .integer text :: rest) (htext : decimalValue text = value)
    (hfits : value ≤ u64Max) :
    ∃ span, p.parsePrimary (n + 1) c = .ok (.integer value span, c + 1) := by
  obtain ⟨token, htoken, hkind⟩ := token_of_ahead h
  refine ⟨token.span, ?_⟩
  simp [parsePrimary, bind, StateT.bind, Except.bind, advanceOrError_hit htoken, hkind,
    parseU64, htext, hfits, pure_run]

theorem parsePrimary_string {value : String} (h : p.ahead c = .string value :: rest) :
    ∃ span, p.parsePrimary (n + 1) c = .ok (.string value span, c + 1) := by
  obtain ⟨token, htoken, hkind⟩ := token_of_ahead h
  refine ⟨token.span, ?_⟩
  simp [parsePrimary, bind, StateT.bind, Except.bind, advanceOrError_hit htoken, hkind, pure_run]

theorem parsePrimary_bool {value : Bool}
    (h : p.ahead c = (if value then .true else .false) :: rest) :
    ∃ span, p.parsePrimary (n + 1) c = .ok (.bool value span, c + 1) := by
  obtain ⟨token, htoken, hkind⟩ := token_of_ahead h
  refine ⟨token.span, ?_⟩
  cases value <;>
    simp_all [parsePrimary, bind, StateT.bind, Except.bind, advanceOrError_hit htoken, pure_run]

theorem parsePrimary_enclosed (h : p.ahead c = .leftParen :: rest)
    (he : p.parsePrecedence n 0 (c + 1) = .ok (e, c'))
    (hclose : p.ahead c' = .rightParen :: rest') :
    p.parsePrimary (n + 1) c = .ok (e, c' + 1) := by
  obtain ⟨token, htoken, hkind⟩ := token_of_ahead h
  obtain ⟨close, hexpect⟩ := expectExact_hit hclose "`)`"
  simp [parsePrimary, bind, StateT.bind, Except.bind, advanceOrError_hit htoken, hkind, he,
    hexpect, pure_run]

theorem parsePrimary_array (h : p.ahead c = .leftBracket :: rest)
    (hes : p.parseElements n (c + 1) = .ok (es, c'))
    (hclose : p.ahead c' = .rightBracket :: rest') :
    ∃ span, p.parsePrimary (n + 1) c = .ok (.array es span, c' + 1) := by
  obtain ⟨token, htoken, hkind⟩ := token_of_ahead h
  obtain ⟨close, hexpect⟩ := expectExact_hit hclose "`]`"
  refine ⟨⟨token.span.start, close.span.stop⟩, ?_⟩
  simp [parsePrimary, bind, StateT.bind, Except.bind, advanceOrError_hit htoken, hkind, hes,
    hexpect, pure_run]

end Step

/-- No call or field access continues here. -/
def EndsPostfix (rest : List TokenKind) : Prop :=
  rest.head? ≠ some .leftParen ∧ rest.head? ≠ some .dot

/-- An operator that continues here has a precedence below `bound`. -/
def Below (bound : Nat) (rest : List TokenKind) : Prop :=
  ∀ k ∈ rest.head?, ∀ op precedence, binaryOpOf k = some (op, precedence) → precedence < bound

/-- `parse_postfix` reads `ks` as `e` and is then in its loop, whatever follows. Each token pays
for eight calls, and what is left over pays for the loop. -/
def ReadsPostfix (p : Parser) (e : Expr) (ks : List TokenKind) : Prop :=
  ∀ n c rest, p.ahead c = ks ++ rest → 8 * ks.length ≤ n + 2 →
    ∃ m e', e'.erased = e.erased ∧ n + 4 ≤ m + 8 * ks.length ∧
      p.parsePostfix n c = p.parsePostfixRest m e' (c + ks.length)

/-- `parse_unary` reads `ks` as `e` where no call or field access follows. -/
def ReadsUnary (p : Parser) (e : Expr) (ks : List TokenKind) : Prop :=
  ∀ n c rest, p.ahead c = ks ++ rest → EndsPostfix rest → 8 * ks.length ≤ n + 1 →
    ∃ e', e'.erased = e.erased ∧ p.parseUnary n c = .ok (e', c + ks.length)

/-- `parse_precedence` reads `ks` as `e` and is then in its loop, for every minimum up to `level`
and where no tighter operator follows. -/
def ReadsBinary (p : Parser) (e : Expr) (ks : List TokenKind) (level : Nat) : Prop :=
  ∀ min n c rest, min ≤ level → p.ahead c = ks ++ rest → EndsPostfix rest →
    Below (level + 1) rest → 8 * ks.length ≤ n →
    ∃ m e', e'.erased = e.erased ∧ n + 1 ≤ m + 8 * ks.length ∧
      p.parsePrecedence n min c = p.parseBinaryRest m min e' (c + ks.length)

/-- What the parser does with the tokens `ks` of an expression that binds at `level`. -/
structure Reads (p : Parser) (e : Expr) (ks : List TokenKind) (level : Nat) : Prop where
  head : ∃ k tail, ks = k :: tail ∧ k ≠ .rightParen ∧ k ≠ .rightBracket ∧
    (8 ≤ level → k ≠ .bang ∧ k ≠ .minus)
  atPostfix : 8 ≤ level → ReadsPostfix p e ks
  atUnary : 7 ≤ level → ReadsUnary p e ks
  atBinary : ReadsBinary p e ks level

section Reads

variable {e : Expr} {ks : List TokenKind} {level : Nat}

theorem ReadsPostfix.readsUnary (h : ReadsPostfix p e ks)
    (hbang : ∀ rest, (ks ++ rest).head? ≠ some .bang)
    (hminus : ∀ rest, (ks ++ rest).head? ≠ some .minus) (hks : 0 < ks.length) :
    ReadsUnary p e ks := by
  intro n c rest hahead hends hn
  obtain ⟨n, rfl⟩ := Nat.exists_eq_succ_of_ne_zero (show n ≠ 0 by omega)
  obtain ⟨m, e', herased, hm, hread⟩ := h n c rest hahead (by omega)
  have hrest : p.ahead (c + ks.length) = rest := ahead_add hahead
  obtain ⟨m, rfl⟩ := Nat.exists_eq_succ_of_ne_zero (show m ≠ 0 by omega)
  refine ⟨e', herased, ?_⟩
  rw [parseUnary_operand (hahead ▸ hbang rest) (hahead ▸ hminus rest), hread]
  exact parsePostfixRest_stop (hrest ▸ hends.1) (hrest ▸ hends.2)

theorem ReadsUnary.readsBinary (h : ReadsUnary p e ks) (hks : 0 < ks.length) :
    ReadsBinary p e ks level := by
  intro min n c rest _ hahead hends _ hn
  obtain ⟨n, rfl⟩ := Nat.exists_eq_succ_of_ne_zero (show n ≠ 0 by omega)
  obtain ⟨e', herased, hread⟩ := h n c rest hahead hends (by omega)
  exact ⟨n, e', herased, by omega, parsePrecedence_step hread⟩

/-- Where only looser operators follow, `parse_precedence` stops after `ks`. -/
theorem Reads.parsePrecedence (h : Reads p e ks level) {min : Nat} (hmin : min ≤ level)
    (hahead : p.ahead c = ks ++ rest) (hends : EndsPostfix rest) (hbelow : Below min rest)
    (hn : 8 * ks.length ≤ n) :
    ∃ e', e'.erased = e.erased ∧ p.parsePrecedence n min c = .ok (e', c + ks.length) := by
  have hloose : Below (level + 1) rest := by
    intro k hk op precedence hop
    have := hbelow k hk op precedence hop
    omega
  obtain ⟨m, e', herased, hm, hread⟩ := h.atBinary min n c rest hmin hahead hends hloose hn
  obtain ⟨m, rfl⟩ := Nat.exists_eq_succ_of_ne_zero (show m ≠ 0 by omega)
  have hrest : p.ahead (c + ks.length) = rest := ahead_add hahead
  exact ⟨e', herased, hread.trans (parseBinaryRest_stop (hrest ▸ hbelow))⟩

/-- An expression that stands on its own or ends in a call or a field access. -/
theorem Reads.ofPostfix {k : TokenKind} {tail : List TokenKind} (hks : ks = k :: tail)
    (hparen : k ≠ .rightParen) (hbracket : k ≠ .rightBracket) (hbang : k ≠ .bang)
    (hminus : k ≠ .minus) (h : ReadsPostfix p e ks) : Reads p e ks level := by
  have hpos : 0 < ks.length := by simp [hks]
  have hunary : ReadsUnary p e ks :=
    h.readsUnary (by simp [hks, hbang]) (by simp [hks, hminus]) hpos
  exact ⟨⟨k, tail, hks, hparen, hbracket, fun _ => ⟨hbang, hminus⟩⟩, fun _ => h, fun _ => hunary,
    hunary.readsBinary hpos⟩

/-- One token that `parse_primary` takes. -/
theorem readsPostfix_token {k : TokenKind}
    (h : ∀ n c rest, p.ahead c = k :: rest →
      ∃ e', e'.erased = e.erased ∧ p.parsePrimary (n + 1) c = .ok (e', c + 1)) :
    ReadsPostfix p e [k] := by
  intro n c rest hahead hn
  simp only [List.length_singleton] at hn ⊢
  obtain ⟨n, rfl⟩ := Nat.exists_eq_add_of_le (show 2 ≤ n by omega)
  obtain ⟨e', herased, hread⟩ := h n c rest hahead
  refine ⟨n + 1, e', herased, by omega, ?_⟩
  rw [show 2 + n = n + 1 + 1 by omega]
  exact parsePostfix_step hread

/-- Parentheses make of any expression one that stands on its own. -/
theorem Reads.parenthesized (h : Reads p e ks level) :
    ReadsPostfix p e (.leftParen :: ks ++ [.rightParen]) := by
  intro n c rest hahead hn
  simp only [List.cons_append, List.append_assoc] at hahead
  simp only [List.length_cons, List.length_append, List.cons_append, List.length_nil] at hn ⊢
  obtain ⟨n, rfl⟩ := Nat.exists_eq_add_of_le (show 2 ≤ n by omega)
  have hinner : p.ahead (c + 1) = ks ++ .rightParen :: rest := ahead_succ hahead
  obtain ⟨e', herased, hread⟩ := h.parsePrecedence (n := n) (Nat.zero_le level) hinner
    ⟨by simp, by simp⟩ (by simp [Below, binaryOpOf]) (by omega)
  have hclose : p.ahead (c + 1 + ks.length) = .rightParen :: rest := ahead_add hinner
  refine ⟨n + 1, e', herased, by omega, ?_⟩
  rw [show 2 + n = n + 1 + 1 by omega,
    parsePostfix_step (parsePrimary_enclosed hahead hread hclose)]
  congr 1
  omega

/-- The parenthesis rule raises the level to what the context needs. -/
theorem Reads.enclosed (h : Reads p e ks level) {needed : Nat} (hneeded : needed ≤ 9) :
    ∃ level', needed ≤ level' ∧ Reads p e (enclosed needed level ks) level' := by
  by_cases hlevel : level < needed
  · refine ⟨9, hneeded, ?_⟩
    simp only [KaspaScript.enclosed, if_pos hlevel]
    exact Reads.ofPostfix rfl (by simp) (by simp) (by simp) (by simp) h.parenthesized
  · refine ⟨level, Nat.le_of_not_lt hlevel, ?_⟩
    simpa only [KaspaScript.enclosed, if_neg hlevel] using h

end Reads

/-- The loop over the expressions of an argument or element list that `close` ends. -/
structure ListLoop (p : Parser) (loop : Nat → ParseM (List Expr)) (close : TokenKind) : Prop where
  stop : ∀ {n c rest}, p.ahead c = close :: rest → loop (n + 1) c = .ok ([], c)
  comma : ∀ {n c c' c'' e es rest}, (p.ahead c).head? ≠ some close →
    p.parsePrecedence n 0 c = .ok (e, c') → p.ahead c' = .comma :: rest →
    loop n (c' + 1) = .ok (es, c'') → loop (n + 1) c = .ok (e :: es, c'')
  last : ∀ {n c c' e rest}, (p.ahead c).head? ≠ some close →
    p.parsePrecedence n 0 c = .ok (e, c') → p.ahead c' = close :: rest → 0 < n →
    loop (n + 1) c = .ok ([e], c')

theorem argumentsLoop (p : Parser) : ListLoop p p.parseArguments .rightParen :=
  ⟨parseArguments_stop, parseArguments_comma, parseArguments_last⟩

theorem elementsLoop (p : Parser) : ListLoop p p.parseElements .rightBracket :=
  ⟨parseElements_stop, parseElements_comma, parseElements_last⟩

/-- Either list loop reads `ks` as `es` before its closing token. -/
def ReadsList (p : Parser) (es : List Expr) (ks : List TokenKind) : Prop :=
  ∀ loop close, ListLoop p loop close → close = .rightParen ∨ close = .rightBracket →
    ∀ n c rest, p.ahead c = ks ++ close :: rest → 8 * ks.length + 1 ≤ n →
      ∃ es', erasedList es' = erasedList es ∧ loop n c = .ok (es', c + ks.length)

section Lists

variable {e : Expr} {es : List Expr} {ks more : List TokenKind} {level : Nat}

theorem readsList_nil : ReadsList p [] [] := by
  intro loop close h _ n c rest hahead hn
  obtain ⟨n, rfl⟩ := Nat.exists_eq_add_of_le hn
  rw [Nat.add_comm]
  exact ⟨[], rfl, h.stop hahead⟩

/-- The expressions do not begin with what closes a list. -/
theorem Reads.head_ne (h : Reads p e ks level) {close : TokenKind}
    (hclose : close = .rightParen ∨ close = .rightBracket) (hahead : p.ahead c = ks ++ rest) :
    (p.ahead c).head? ≠ some close := by
  obtain ⟨k, tail, hks, hparen, hbracket, -⟩ := h.head
  rcases hclose with rfl | rfl <;> simp [hahead, hks, hparen, hbracket]

theorem readsList_last (he : Reads p e ks level) : ReadsList p [e] ks := by
  intro loop close h hclose n c rest hahead hn
  obtain ⟨n, rfl⟩ := Nat.exists_eq_succ_of_ne_zero (show n ≠ 0 by omega)
  obtain ⟨k, tail, hks, -⟩ := he.head
  have hlength : 0 < ks.length := by simp [hks]
  obtain ⟨e', herased, hread⟩ := he.parsePrecedence (n := n) (Nat.zero_le _) hahead
    (by rcases hclose with rfl | rfl <;> simp [EndsPostfix])
    (by rcases hclose with rfl | rfl <;> simp [Below, binaryOpOf]) (by omega)
  refine ⟨[e'], by simp [erasedList, herased], ?_⟩
  exact h.last (he.head_ne hclose hahead) hread (ahead_add hahead) (by omega)

theorem readsList_more (he : Reads p e ks level) (hes : ReadsList p es more) :
    ReadsList p (e :: es) (ks ++ .comma :: more) := by
  intro loop close h hclose n c rest hahead hn
  simp only [List.append_assoc, List.cons_append] at hahead
  rw [List.length_append, List.length_cons] at hn ⊢
  obtain ⟨n, rfl⟩ := Nat.exists_eq_succ_of_ne_zero (show n ≠ 0 by omega)
  obtain ⟨e', herased, hread⟩ := he.parsePrecedence (n := n) (Nat.zero_le _) hahead
    (by simp [EndsPostfix]) (by simp [Below, binaryOpOf]) (by omega)
  have hcomma := ahead_add hahead
  obtain ⟨es', herased', hread'⟩ :=
    hes loop close h hclose n _ rest (ahead_succ hcomma) (by omega)
  refine ⟨e' :: es', by simp only [erasedList, herased, herased'], ?_⟩
  rw [h.comma (he.head_ne hclose hahead) hread hcomma hread']
  congr 2
  omega

theorem readsList_printed (hes : ∀ e ∈ es, Reads p e e.printed e.level) :
    ReadsList p es (printedList es) := by
  induction es with
  | nil => exact readsList_nil
  | cons e es ih =>
    have he := hes e List.mem_cons_self
    cases es with
    | nil =>
      rw [printedList, List.isEmpty_nil, if_pos rfl, List.append_nil]
      exact readsList_last he
    | cons e₂ es =>
      rw [printedList, List.isEmpty_cons, if_neg Bool.false_ne_true]
      exact readsList_more he (ih fun e' h' => hes e' (List.mem_cons_of_mem _ h'))

end Lists

section Reads

variable {e : Expr} {level : Nat}

theorem readsPostfix_array {es : List Expr} {ks : List TokenKind} {span : Span}
    (hes : ReadsList p es ks) :
    ReadsPostfix p (.array es span) (.leftBracket :: ks ++ [.rightBracket]) := by
  intro n c rest hahead hn
  simp only [List.length_cons, List.length_append, List.cons_append, List.length_nil] at hn ⊢
  simp only [List.cons_append, List.append_assoc, List.nil_append] at hahead
  obtain ⟨n, rfl⟩ := Nat.exists_eq_add_of_le (show 2 ≤ n by omega)
  obtain ⟨es', herased, hread⟩ :=
    hes _ _ (elementsLoop p) (.inr rfl) n _ rest (ahead_succ hahead) (by omega)
  have hclose := ahead_add (ahead_succ hahead)
  obtain ⟨span', hprimary⟩ := parsePrimary_array hahead hread hclose
  refine ⟨n + 1, .array es' span', by simp [Expr.erased, herased], by omega, ?_⟩
  rw [show 2 + n = n + 1 + 1 by omega, parsePostfix_step hprimary]
  congr 1
  omega

theorem readsPostfix_call {callee : Expr} {ks ks' : List TokenKind} {args : List Expr}
    {span : Span} (hcallee : ReadsPostfix p callee ks) (hargs : ReadsList p args ks') :
    ReadsPostfix p (.call callee args span) (ks ++ .leftParen :: ks' ++ [.rightParen]) := by
  intro n c rest hahead hn
  simp only [List.length_cons, List.length_append, List.length_nil] at hn ⊢
  simp only [List.cons_append, List.append_assoc, List.nil_append] at hahead
  obtain ⟨m, callee', herased, hm, hread⟩ := hcallee n c _ hahead (by omega)
  obtain ⟨m, rfl⟩ := Nat.exists_eq_succ_of_ne_zero (show m ≠ 0 by omega)
  have hopen := ahead_add hahead
  obtain ⟨args', herased', hread'⟩ :=
    hargs _ _ (argumentsLoop p) (.inl rfl) m _ rest (ahead_succ hopen) (by omega)
  have hclose := ahead_add (ahead_succ hopen)
  obtain ⟨span', hcall⟩ := parsePostfixRest_call (e := callee') hopen hread' hclose
  refine ⟨m, .call callee' args' span', by simp [Expr.erased, herased, herased'], by omega, ?_⟩
  rw [hread, hcall]
  congr 1
  omega

theorem readsPostfix_field {object : Expr} {ks : List TokenKind} {field : Ident} {span : Span}
    (hobject : ReadsPostfix p object ks) (hk : NameKind field.name k) :
    ReadsPostfix p (.field object field span) (ks ++ [.dot, k]) := by
  intro n c rest hahead hn
  simp only [List.length_cons, List.length_append, List.length_nil] at hn ⊢
  simp only [List.cons_append, List.append_assoc, List.nil_append] at hahead
  obtain ⟨m, object', herased, hm, hread⟩ := hobject n c _ hahead (by omega)
  obtain ⟨m, rfl⟩ := Nat.exists_eq_succ_of_ne_zero (show m ≠ 0 by omega)
  obtain ⟨field', span', hname, hfield⟩ :=
    parsePostfixRest_field (e := object') (n := m) hk (ahead_add hahead)
  refine ⟨m, .field object' field' span', by simp [Expr.erased, herased, hname], by omega, ?_⟩
  rw [hread, hfield]
  rfl

theorem readsUnary_operator {op : UnaryOp} {ks : List TokenKind} {span : Span}
    (he : ReadsUnary p e ks) : ReadsUnary p (.unary op e span) (unaryToken op :: ks) := by
  intro n c rest hahead hends hn
  simp only [List.length_cons] at hn ⊢
  obtain ⟨n, rfl⟩ := Nat.exists_eq_succ_of_ne_zero (show n ≠ 0 by omega)
  obtain ⟨e', herased, hread⟩ := he n (c + 1) rest (ahead_succ hahead) hends (by omega)
  obtain ⟨span', hunary⟩ := parseUnary_operator hahead hread
  refine ⟨.unary op e' span', by simp [Expr.erased, herased], ?_⟩
  rw [hunary]
  congr 2
  omega

/-- The left operand is read in the same loop; the right one stops before any operator that
binds no more tightly than this one. -/
theorem readsBinary_operator {left right : Expr} {op : BinaryOp} {ls rs : List TokenKind}
    {l r : Nat} {span : Span} (hl : binaryPrecedence op ≤ l) (hr : binaryPrecedence op + 1 ≤ r)
    (hleft : Reads p left ls l) (hright : Reads p right rs r) :
    ReadsBinary p (.binary left op right span) (ls ++ binaryToken op :: rs)
      (binaryPrecedence op) := by
  intro min n c rest hmin hahead hends hbelow hn
  simp only [List.length_cons, List.length_append] at hn ⊢
  simp only [List.cons_append, List.append_assoc] at hahead
  have hop : Below (l + 1) (binaryToken op :: (rs ++ rest)) := by
    intro k hk op' precedence hop'
    obtain rfl : binaryToken op = k := by simpa using hk
    obtain ⟨rfl, rfl⟩ : op = op' ∧ binaryPrecedence op = precedence := by simpa using hop'
    omega
  have hopEnds : EndsPostfix (binaryToken op :: (rs ++ rest)) := by
    cases op <;> simp [EndsPostfix, binaryToken]
  obtain ⟨m, left', herased, hm, hread⟩ :=
    hleft.atBinary min n c _ (by omega) hahead hopEnds hop (by omega)
  obtain ⟨m, rfl⟩ := Nat.exists_eq_succ_of_ne_zero (show m ≠ 0 by omega)
  have hmore := ahead_add hahead
  obtain ⟨right', herased', hread'⟩ :=
    hright.parsePrecedence hr (ahead_succ hmore) hends hbelow (n := m) (by omega)
  refine ⟨m, .binary left' op right' ⟨left'.span.start, right'.span.stop⟩,
    by simp [Expr.erased, herased, herased'], by omega, ?_⟩
  rw [hread, parseBinaryRest_more hmore hmin hread']
  congr 1
  omega

end Reads

theorem decimalValue_toString (value : Nat) : decimalValue (toString value) = value := by
  have hdigits : (toString value).toList = Nat.toDigits 10 value := Nat.toList_repr
  rw [decimalValue, hdigits, ← Nat.ofDigitChars_eq_foldl, Nat.ofDigitChars_ten_toDigits]

/-- No binary operator, call or field access continues here. -/
def EndsExpression (rest : List TokenKind) : Prop :=
  ∀ k ∈ rest.head?, binaryOpOf k = none ∧ k ≠ .leftParen ∧ k ≠ .dot

theorem EndsExpression.endsPostfix (h : EndsExpression rest) : EndsPostfix rest := by
  constructor
  · intro hhead
    exact (h _ hhead).2.1 rfl
  · intro hhead
    exact (h _ hhead).2.2 rfl

theorem EndsExpression.below (h : EndsExpression rest) (bound : Nat) : Below bound rest := by
  intro k hk op precedence hop
  simp [(h k hk).1] at hop

/-- A tighter operand in front decides the head of what is printed. -/
theorem Reads.head_append {e : Expr} {ks : List TokenKind} {level : Nat} (h : Reads p e ks level)
    (hlevel : 8 ≤ level) (more : List TokenKind) : ∃ k tail, ks ++ more = k :: tail ∧
      k ≠ .rightParen ∧ k ≠ .rightBracket ∧ k ≠ .bang ∧ k ≠ .minus := by
  obtain ⟨k, tail, hks, hparen, hbracket, hoperator⟩ := h.head
  obtain ⟨hbang, hminus⟩ := hoperator hlevel
  exact ⟨k, tail ++ more, by simp [hks], hparen, hbracket, hbang, hminus⟩

/-- The induction over the tree: whatever level a node binds at, its tokens read back as it. -/
theorem reads_printed (p : Parser) (e : Expr) (hfits : e.IntegersFit) :
    Reads p e e.printed e.level := by
  induction e using Expr.induct with
  | ident id =>
    obtain ⟨hparen, hbracket, hbang, hminus⟩ := (nameKind_nameToken id.name).ne
    apply Reads.ofPostfix rfl hparen hbracket hbang hminus
    apply readsPostfix_token
    intro n c rest hahead
    obtain ⟨span, h⟩ := parsePrimary_name (nameKind_nameToken id.name) hahead
    exact ⟨.ident ⟨id.name, span⟩, rfl, h⟩
  | integer value span =>
    apply Reads.ofPostfix rfl (by simp) (by simp) (by simp) (by simp)
    apply readsPostfix_token
    intro n c rest hahead
    have hvalue : value ≤ u64Max := hfits value span (by simp [Expr.nodes])
    obtain ⟨span, h⟩ := parsePrimary_integer hahead (decimalValue_toString value) hvalue
    exact ⟨.integer value span, rfl, h⟩
  | string value span =>
    apply Reads.ofPostfix rfl (by simp) (by simp) (by simp) (by simp)
    apply readsPostfix_token
    intro n c rest hahead
    obtain ⟨span, h⟩ := parsePrimary_string hahead
    exact ⟨.string value span, rfl, h⟩
  | bool value span =>
    apply Reads.ofPostfix (k := if value then .true else .false) rfl
      (by cases value <;> simp) (by cases value <;> simp) (by cases value <;> simp)
      (by cases value <;> simp)
    apply readsPostfix_token
    intro n c rest hahead
    obtain ⟨span, h⟩ := parsePrimary_bool hahead
    exact ⟨.bool value span, rfl, h⟩
  | array elements span ih =>
    apply Reads.ofPostfix rfl (by simp) (by simp) (by simp) (by simp)
    apply readsPostfix_array
    apply readsList_printed
    intro e he
    apply ih e he
    intro value span hvalue
    exact hfits value span (by simp [Expr.nodes, mem_allNodes]; exact ⟨e, he, hvalue⟩)
  | unary op e span ih =>
    have he : e.IntegersFit := fun value span h => hfits value span (by simp [Expr.nodes, h])
    obtain ⟨level, hlevel, hread⟩ := (ih he).enclosed (show 7 ≤ 9 by decide)
    have hunary : ReadsUnary p (.unary op e span) (Expr.unary op e span).printed :=
      readsUnary_operator (hread.atUnary hlevel)
    refine ⟨⟨unaryToken op, _, rfl, ?_, ?_, by simp [Expr.level]⟩, by simp [Expr.level],
      fun _ => hunary, hunary.readsBinary (by simp [Expr.printed])⟩
    · cases op <;> simp [unaryToken]
    · cases op <;> simp [unaryToken]
  | binary left op right span ihl ihr =>
    have hl : left.IntegersFit := fun value span h => hfits value span (by simp [Expr.nodes, h])
    have hr : right.IntegersFit := fun value span h => hfits value span (by simp [Expr.nodes, h])
    have hop := binaryPrecedence_le op
    obtain ⟨l, hlevel, hleft⟩ := (ihl hl).enclosed (show binaryPrecedence op ≤ 9 by omega)
    obtain ⟨r, hlevel', hright⟩ := (ihr hr).enclosed (show binaryPrecedence op + 1 ≤ 9 by omega)
    obtain ⟨k, tail, hks, hparen, hbracket, -⟩ := hleft.head
    refine ⟨⟨k, tail ++ _, by rw [Expr.printed, hks]; rfl, hparen, hbracket, ?_⟩, ?_, ?_,
      readsBinary_operator hlevel hlevel' hleft hright⟩
    all_goals
      intro h
      simp only [Expr.level] at h
      omega
  | call callee args span ihc iha =>
    have hc : callee.IntegersFit := fun value span h => hfits value span (by simp [Expr.nodes, h])
    obtain ⟨level, hlevel, hread⟩ := (ihc hc).enclosed (show 8 ≤ 9 by decide)
    obtain ⟨k, tail, hks, hparen, hbracket, hbang, hminus⟩ :=
      hread.head_append hlevel (.leftParen :: printedList args ++ [.rightParen])
    apply Reads.ofPostfix (by rw [Expr.printed, List.append_assoc, hks])
      hparen hbracket hbang hminus
    apply readsPostfix_call (hread.atPostfix hlevel)
    apply readsList_printed
    intro e he
    apply iha e he
    intro value span hvalue
    exact hfits value span (by
      simp only [Expr.nodes, List.mem_cons, List.mem_append, mem_allNodes]
      exact .inr (.inr ⟨e, he, hvalue⟩))
  | field object field span ih =>
    have ho : object.IntegersFit := fun value span h => hfits value span (by simp [Expr.nodes, h])
    obtain ⟨level, hlevel, hread⟩ := (ih ho).enclosed (show 8 ≤ 9 by decide)
    obtain ⟨k, tail, hks, hparen, hbracket, hbang, hminus⟩ :=
      hread.head_append hlevel [.dot, nameToken field.name]
    apply Reads.ofPostfix (by rw [Expr.printed, hks]) hparen hbracket hbang hminus
    exact readsPostfix_field (hread.atPostfix hlevel) (nameKind_nameToken field.name)

theorem ahead_length (p : Parser) (c : Nat) : (p.ahead c).length = p.tokens.length - c := by
  simp [ahead]

/-- `parse_expression` reads the printed tokens as their tree and stops after them. -/
theorem parseExpression_of_printed {e : Expr} (hfits : e.IntegersFit)
    (hahead : p.ahead c = e.printed ++ rest) (hrest : EndsExpression rest) :
    ∃ e', e'.erased = e.erased ∧ p.parseExpression c = .ok (e', c + e.printed.length) := by
  have hlength := p.ahead_length c
  rw [hahead, List.length_append] at hlength
  apply (reads_printed p e hfits).parsePrecedence (Nat.zero_le _) hahead hrest.endsPostfix
    (hrest.below 0)
  simp only [fuel]
  omega

/-- Printing and parsing are inverse up to spans, whatever stands before the expression and
whatever ends it; so no two trees are printed alike. -/
theorem parseExpression_printed (e : Expr) (hfits : e.IntegersFit) :
    (∀ (p : Parser) (cursor : Nat) (rest : List TokenKind),
      p.ahead cursor = e.printed ++ rest → EndsExpression rest →
        ∃ e', e'.erased = e.erased ∧
          p.parseExpression cursor = .ok (e', cursor + e.printed.length)) ∧
    ∀ other : Expr, other.IntegersFit → other.printed = e.printed → other.erased = e.erased := by
  refine ⟨fun p cursor rest hahead hrest => parseExpression_of_printed hfits hahead hrest, ?_⟩
  intro other hother hprinted
  let p : Parser := ⟨e.printed.map (⟨·, ⟨0, 0⟩⟩), "", ""⟩
  have hahead : p.ahead 0 = e.printed ++ [] := by simp [p, ahead, Function.comp_def]
  have hrest : EndsExpression [] := by simp [EndsExpression]
  obtain ⟨e', herased, hread⟩ := parseExpression_of_printed hfits hahead hrest
  obtain ⟨e'', herased', hread'⟩ :=
    parseExpression_of_printed (p := p) (c := 0) hother (hprinted ▸ hahead) hrest
  rw [hread, hprinted] at hread'
  injection hread' with hpair
  injection hpair with hsame
  rw [← herased, ← herased', hsame]

/-- `!paid && total - (fee - 1) == sum(a, b).value` -/
def precedenceExpr : Expr :=
  let name (text : String) : Expr := .ident ⟨text, ⟨0, 0⟩⟩
  let rest : Expr := .binary (name "fee") .sub (.integer 1 ⟨0, 0⟩) ⟨0, 0⟩
  let value : Expr := .field (.call (name "sum") [name "a", name "b"] ⟨0, 0⟩) ⟨"value", ⟨0, 0⟩⟩ ⟨0, 0⟩
  .binary (.unary .not (name "paid") ⟨0, 0⟩) .and
    (.binary (.binary (name "total") .sub rest ⟨0, 0⟩) .equal value ⟨0, 0⟩) ⟨0, 0⟩

def precedenceTokens : List TokenKind :=
  [.require, .bang, .identifier "paid", .andAnd, .identifier "total", .minus, .leftParen,
    .identifier "fee", .minus, .integer "1", .rightParen, .equalEqual, .identifier "sum",
    .leftParen, .identifier "a", .comma, .identifier "b", .rightParen, .dot, .identifier "value",
    .semicolon]

theorem parseExpression_printed_precedenceExpr :
    ∃ e', e'.erased = precedenceExpr.erased ∧
      (⟨precedenceTokens.map (⟨·, ⟨0, 0⟩⟩), "", ""⟩ : Parser).parseExpression 1 =
        .ok (e', 20) := by
  have hfits : precedenceExpr.IntegersFit := by
    intro value span h
    simp [precedenceExpr, Expr.nodes, allNodes] at h
    simp [h.1, u64Max]
  have hprinted : precedenceTokens = .require :: precedenceExpr.printed ++ [.semicolon] := by
    decide
  apply (parseExpression_printed precedenceExpr hfits).1 _ 1 [.semicolon]
  · rw [hprinted]
    simp [ahead, Function.comp_def]
  · simp [EndsExpression, binaryOpOf]

end Parser

end KaspaScript
