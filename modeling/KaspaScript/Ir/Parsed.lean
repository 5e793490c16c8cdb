import KaspaScript.Ir.Pieces
import KaspaScript.Parser.RoundTrip

namespace KaspaScript

/-- Every piece of the expression is one that the lexer can have read. -/
def Expr.Lexable (e : Expr) : Prop := ∀ piece ∈ e.pieces, piece.Lexable

/-- The number of tokens that the expression needs where the context binds at `needed`. -/
def Expr.width (needed : Nat) (e : Expr) : Nat := (enclosed needed e.level e.printed).length

theorem width_of_le {needed : Nat} {e : Expr} (h : needed ≤ e.level) :
    e.width needed = e.printed.length := by
  simp [Expr.width, enclosed, Nat.not_lt_of_ge h]

theorem width_le (needed : Nat) (e : Expr) : e.width needed ≤ e.printed.length + 2 := by
  simp only [Expr.width, enclosed]
  split_ifs <;> simp

theorem width_mono {needed more : Nat} (h : needed ≤ more) (e : Expr) :
    e.width needed ≤ e.width more := by
  simp only [Expr.width, enclosed]
  split_ifs with hneeded hmore
  · exact Nat.le_refl _
  · omega
  · simp
    omega
  · exact Nat.le_refl _

theorem lexable_pieces_iff {es : List Expr} :
    (∀ piece ∈ piecesList es, piece.Lexable) ↔ ∀ e ∈ es, e.Lexable := by
  induction es with
  | nil => simp [piecesList]
  | cons e es ih =>
    cases es with
    | nil => simp [piecesList, Expr.Lexable]
    | cons e₂ es =>
      rw [piecesList_cons, List.forall_mem_append, List.forall_mem_cons, ih]
      simp [Expr.Lexable, Piece.Lexable]

/-- The names of the token list are those of the lexer. -/
def Parser.Lexed (p : Parser) : Prop :=
  ∀ token ∈ p.tokens, ∀ name, token.kind = .identifier name →
    IsWord name.toList ∧ wordKind name = .identifier name

theorem nameToken_of_wordKind {name : String} (h : wordKind name = .identifier name) :
    nameToken name = .identifier name := by
  rcases nameToken_cases name with hname | ⟨hvalue, htext⟩
  · exact hname
  · cases hkind : nameToken name <;> simp [hkind, isValueKeyword] at hvalue <;>
      rw [hkind] at htext <;> simp only [tokenText] at htext <;> subst htext <;>
      exact absurd h (by decide)

theorem lexable_of_valueKeyword {kind : TokenKind} (h : isValueKeyword kind = true) :
    (Piece.name (tokenText kind)).Lexable := by
  have hmem : ∃ fixed ∈ wordTokens, fixed.1 = tokenText kind := by
    cases kind <;> simp_all [isValueKeyword, wordTokens, tokenText]
  obtain ⟨fixed, hfixed, htext⟩ := hmem
  refine ⟨htext ▸ isWord_of_mem hfixed, ?_⟩
  cases kind <;> rfl

namespace Parser

variable {p : Parser} {n c c' : Nat} {e : Expr}

theorem bind_eq_ok {α β : Type} {x : ParseM α} {f : α → ParseM β} {b : β} :
    (x >>= f) c = .ok (b, c') ↔ ∃ a c₁, x c = .ok (a, c₁) ∧ f a c₁ = .ok (b, c') := by
  simp only [bind, StateT.bind, Except.bind]
  cases h : x c with
  | error failure => simp
  | ok pair => simp [Prod.ext_iff]

theorem bind_of_ok {α β : Type} {x : ParseM α} {a : α} {c₁ : Nat} (h : x c = .ok (a, c₁))
    (f : α → ParseM β) : (x >>= f) c = f a c₁ := by
  simp only [bind, StateT.bind, Except.bind, h]

theorem pure_eq_ok {α : Type} {a b : α} :
    (pure a : ParseM α) c = .ok (b, c') ↔ a = b ∧ c = c' := by
  simp [pure_run]

theorem previousSpan_eq_ok {span : Span} (h : p.previousSpan c = .ok (span, c')) : c' = c := by
  simp only [previousSpan, Except.ok.injEq, Prod.mk.injEq] at h
  exact h.2.symm

theorem matchExact_true {kind : TokenKind} (h : p.currentKind c = some kind) :
    p.matchExact kind c = .ok (true, c + 1) := by
  simp [matchExact, h]

theorem matchExact_false {kind : TokenKind} (h : p.currentKind c ≠ some kind) :
    p.matchExact kind c = .ok (false, c) := by
  simp [matchExact, h]

theorem advanceOrError_eq_ok {message : String} {token : Token}
    (h : p.advanceOrError message c = .ok (token, c')) :
    c' = c + 1 ∧ p.tokens[c]? = some token := by
  rw [advanceOrError] at h
  cases htoken : p.tokens[c]? with
  | none => simp [htoken, errorHere, errorAt] at h
  | some found =>
    obtain ⟨rfl, rfl⟩ : found = token ∧ c + 1 = c' := by simpa [htoken] using h
    exact ⟨rfl, rfl⟩

theorem expectExact_eq_ok {kind : TokenKind} {label : String} {token : Token}
    (h : p.expectExact kind label c = .ok (token, c')) : c' = c + 1 := by
  obtain ⟨found, c₁, hfound, h⟩ := bind_eq_ok.mp h
  obtain ⟨rfl, -⟩ := advanceOrError_eq_ok hfound
  split_ifs at h with hkind
  · obtain ⟨-, rfl⟩ := pure_eq_ok.mp h
    rfl
  · simp [errorAt] at h

theorem lexable_of_identifier (hlexed : p.Lexed) {token : Token} (h : p.tokens[c]? = some token)
    {name : String} (hkind : token.kind = .identifier name) : (Piece.name name).Lexable := by
  obtain ⟨hword, hname⟩ := hlexed token (List.mem_of_getElem? h) name hkind
  exact ⟨hword, hname.trans (nameToken_of_wordKind hname).symm⟩

/-- An identifier is taken from one token. -/
theorem parseIdentifier_eq_ok (hlexed : p.Lexed) {id : Ident}
    (h : p.parseIdentifier c = .ok (id, c')) :
    c' = c + 1 ∧ (Piece.name id.name).Lexable := by
  obtain ⟨token, c₁, htoken, h⟩ := bind_eq_ok.mp h
  obtain ⟨rfl, hmem⟩ := advanceOrError_eq_ok htoken
  cases hkind : token.kind with
  | identifier name =>
    simp only [hkind] at h
    obtain ⟨rfl, rfl⟩ := pure_eq_ok.mp h
    exact ⟨rfl, lexable_of_identifier hlexed hmem hkind⟩
  | _ =>
    simp only [hkind] at h
    split_ifs at h with hvalue
    · obtain ⟨rfl, rfl⟩ := pure_eq_ok.mp h
      exact ⟨rfl, lexable_of_valueKeyword hvalue⟩
    · simp [errorAt] at h

/-- What the parser returns is lexable and took at least as many tokens as it is printed with:
for each function of the parser, with the fuel `n`. -/
structure Returns (p : Parser) (n : Nat) : Prop where
  precedence : ∀ {min c e c'}, min ≤ 7 → p.parsePrecedence n min c = .ok (e, c') →
    e.Lexable ∧ c + e.width min ≤ c' ∧ Below min (p.ahead c')
  rest : ∀ {min left c e c' start}, min ≤ 7 → left.Lexable → start + left.width min ≤ c →
    (∀ k ∈ (p.ahead c).head?, ∀ op precedence, binaryOpOf k = some (op, precedence) →
      start + left.width precedence ≤ c) →
    p.parseBinaryRest n min left c = .ok (e, c') →
    e.Lexable ∧ start + e.width min ≤ c' ∧ Below min (p.ahead c')
  unary : ∀ {c e c'}, p.parseUnary n c = .ok (e, c') → e.Lexable ∧ c + e.width 7 ≤ c'
  operand : ∀ {c e c'}, p.parsePostfix n c = .ok (e, c') → e.Lexable ∧ c + e.width 8 ≤ c'
  operandRest : ∀ {object c e c' start}, object.Lexable → start + object.width 8 ≤ c →
    p.parsePostfixRest n object c = .ok (e, c') → e.Lexable ∧ start + e.width 8 ≤ c'
  primary : ∀ {c e c'}, p.parsePrimary n c = .ok (e, c') → e.Lexable ∧ c + e.width 9 ≤ c'
  arguments : ∀ {c es c'}, p.parseArguments n c = .ok (es, c') →
    (∀ e ∈ es, e.Lexable) ∧ c + (printedList es).length ≤ c'
  elements : ∀ {c es c'}, p.parseElements n c = .ok (es, c') →
    (∀ e ∈ es, e.Lexable) ∧ c + (printedList es).length ≤ c'

theorem returns_zero (p : Parser) : Returns p 0 := by
  constructor
  all_goals
    intros
    first
    | simp [parsePrecedence, parseBinaryRest, parseUnary, parsePostfix, parsePostfixRest,
        parsePrimary, parseArguments, parseElements, outOfFuel] at *

section Step

variable (h : Returns p n)

include h

theorem Returns.precedence_succ {min : Nat} (hmin : min ≤ 7)
    (hok : p.parsePrecedence (n + 1) min c = .ok (e, c')) :
    e.Lexable ∧ c + e.width min ≤ c' ∧ Below min (p.ahead c') := by
  obtain ⟨left, c₁, hleft, hrest⟩ := bind_eq_ok.mp hok
  obtain ⟨hlexable, hwidth⟩ := h.unary hleft
  apply h.rest hmin hlexable _ _ hrest
  · have := width_mono hmin left
    omega
  · intro k hk op precedence hop
    obtain ⟨-, rfl⟩ := binaryOpOf_eq_some hop
    have hle := binaryPrecedence_le op
    have := width_mono (show binaryPrecedence op ≤ 7 by omega) left
    omega

/-- The right operand was read above the operator's level, so the operator after it is no tighter
and takes the whole left side as its operand. -/
theorem Returns.rest_succ {min start : Nat} {left : Expr} (hmin : min ≤ 7) (hleft : left.Lexable)
    (hwidth : start + left.width min ≤ c)
    (hnext : ∀ k ∈ (p.ahead c).head?, ∀ op precedence, binaryOpOf k = some (op, precedence) →
      start + left.width precedence ≤ c)
    (hok : p.parseBinaryRest (n + 1) min left c = .ok (e, c')) :
    e.Lexable ∧ start + e.width min ≤ c' ∧ Below min (p.ahead c') := by
  by_cases hbelow : Below min (p.ahead c)
  · rw [parseBinaryRest_stop hbelow] at hok
    obtain ⟨rfl, rfl⟩ : left = e ∧ c = c' := by simpa using hok
    exact ⟨hleft, hwidth, hbelow⟩
  · obtain ⟨k, hk, op, precedence, hop, hmore⟩ : ∃ k ∈ (p.ahead c).head?, ∃ op precedence,
        binaryOpOf k = some (op, precedence) ∧ min ≤ precedence := by
      simpa [Below] using hbelow
    have hstart := hnext k hk op precedence hop
    obtain ⟨rfl, rfl⟩ := binaryOpOf_eq_some hop
    obtain ⟨rest, hahead⟩ := List.head?_eq_some_iff.mp hk
    have hle := binaryPrecedence_le op
    rw [parseBinaryRest_operator hahead hmore] at hok
    obtain ⟨right, c₁, hright, hrest⟩ := bind_eq_ok.mp hok
    obtain ⟨hlexable, hwidth', hstops⟩ := h.precedence (by omega) hright
    have hprinted : start + (Expr.binary left op right
        ⟨left.span.start, right.span.stop⟩).printed.length ≤ c₁ := by
      simp only [Expr.printed, List.length_append, List.length_cons]
      simp only [Expr.width] at hstart hwidth'
      omega
    apply h.rest hmin _ _ _ hrest
    · intro piece hpiece
      simp only [Expr.pieces, List.mem_append, List.mem_cons] at hpiece
      rcases hpiece with hpiece | rfl | hpiece
      · exact hleft piece hpiece
      · trivial
      · exact hlexable piece hpiece
    · rwa [width_of_le hmore]
    · intro k' hk' op' precedence' hop'
      have hlt := hstops k' hk' op' precedence' hop'
      rwa [width_of_le (show precedence' ≤ binaryPrecedence op by omega)]

theorem Returns.unary_succ (hok : p.parseUnary (n + 1) c = .ok (e, c')) :
    e.Lexable ∧ c + e.width 7 ≤ c' := by
  have hoperator {op : UnaryOp} {inner : Expr} {span : Span}
      (hinner : p.parseUnary n (c + 1) = .ok (inner, c')) :
      (Expr.unary op inner span).Lexable ∧ c + (Expr.unary op inner span).width 7 ≤ c' := by
    obtain ⟨hlexable, hwidth⟩ := h.unary hinner
    constructor
    · intro piece hpiece
      rcases List.mem_cons.mp hpiece with rfl | hpiece
      · trivial
      · exact hlexable piece hpiece
    · rw [width_of_le (show 7 ≤ (Expr.unary op inner span).level from le_rfl)]
      simp only [Expr.printed, List.length_cons]
      simp only [Expr.width] at hwidth
      omega
  rw [parseUnary] at hok
  by_cases hbang : p.currentKind c = some .bang
  · rw [bind_of_ok (matchExact_true hbang), if_pos rfl] at hok
    obtain ⟨span, c₁, hspan, hok⟩ := bind_eq_ok.mp hok
    obtain rfl := previousSpan_eq_ok hspan
    obtain ⟨inner, c₂, hinner, hok⟩ := bind_eq_ok.mp hok
    obtain ⟨rfl, rfl⟩ := pure_eq_ok.mp hok
    exact hoperator hinner
  · rw [bind_of_ok (matchExact_false hbang), if_neg Bool.false_ne_true] at hok
    by_cases hminus : p.currentKind c = some .minus
    · rw [bind_of_ok (matchExact_true hminus), if_pos rfl] at hok
      obtain ⟨span, c₁, hspan, hok⟩ := bind_eq_ok.mp hok
      obtain rfl := previousSpan_eq_ok hspan
      obtain ⟨inner, c₂, hinner, hok⟩ := bind_eq_ok.mp hok
      obtain ⟨rfl, rfl⟩ := pure_eq_ok.mp hok
      exact hoperator hinner
    · rw [bind_of_ok (matchExact_false hminus), if_neg Bool.false_ne_true] at hok
      obtain ⟨hlexable, hwidth⟩ := h.operand hok
      exact ⟨hlexable, (Nat.add_le_add_left (width_mono (by omega) e) c).trans hwidth⟩

theorem Returns.operand_succ (hok : p.parsePostfix (n + 1) c = .ok (e, c')) :
    e.Lexable ∧ c + e.width 8 ≤ c' := by
  obtain ⟨object, c₁, hobject, hrest⟩ := bind_eq_ok.mp hok
  obtain ⟨hlexable, hwidth⟩ := h.primary hobject
  have hmono := width_mono (show 8 ≤ 9 by omega) object
  exact h.operandRest hlexable (by omega) hrest

theorem Returns.operandRest_succ (hlexed : p.Lexed) {object : Expr} {start : Nat}
    (hobject : object.Lexable) (hwidth : start + object.width 8 ≤ c)
    (hok : p.parsePostfixRest (n + 1) object c = .ok (e, c')) :
    e.Lexable ∧ start + e.width 8 ≤ c' := by
  rw [parsePostfixRest] at hok
  by_cases hparen : p.currentKind c = some .leftParen
  · rw [bind_of_ok (matchExact_true hparen), if_pos rfl] at hok
    obtain ⟨args, c₁, hargs, hok⟩ := bind_eq_ok.mp hok
    obtain ⟨close, c₂, hclose, hrest⟩ := bind_eq_ok.mp hok
    obtain rfl := expectExact_eq_ok hclose
    obtain ⟨hlexable, hlength⟩ := h.arguments hargs
    apply h.operandRest _ _ hrest
    · intro piece hpiece
      simp only [Expr.pieces, List.mem_append, List.mem_cons, List.not_mem_nil, or_false] at hpiece
      rcases hpiece with (hpiece | rfl | hpiece) | rfl
      · exact hobject piece hpiece
      · trivial
      · exact lexable_pieces_iff.mpr hlexable piece hpiece
      · trivial
    · rw [width_of_le (by simp [Expr.level])]
      simp only [Expr.printed, List.length_append, List.length_cons, List.length_nil]
      simp only [Expr.width] at hwidth
      omega
  · rw [bind_of_ok (matchExact_false hparen), if_neg Bool.false_ne_true] at hok
    by_cases hdot : p.currentKind c = some .dot
    · rw [bind_of_ok (matchExact_true hdot), if_pos rfl] at hok
      obtain ⟨field, c₁, hfield, hrest⟩ := bind_eq_ok.mp hok
      obtain ⟨rfl, hname⟩ := parseIdentifier_eq_ok hlexed hfield
      apply h.operandRest _ _ hrest
      · intro piece hpiece
        simp only [Expr.pieces, List.mem_append, List.mem_cons, List.not_mem_nil,
          or_false] at hpiece
        rcases hpiece with hpiece | rfl | rfl
        · exact hobject piece hpiece
        · trivial
        · exact hname
      · rw [width_of_le (by simp [Expr.level])]
        simp only [Expr.printed, List.length_append, List.length_cons, List.length_nil]
        simp only [Expr.width] at hwidth
        omega
    · rw [bind_of_ok (matchExact_false hdot), if_neg Bool.false_ne_true] at hok
      obtain ⟨rfl, rfl⟩ := pure_eq_ok.mp hok
      exact ⟨hobject, hwidth⟩

theorem Returns.primary_succ (hlexed : p.Lexed) (hok : p.parsePrimary (n + 1) c = .ok (e, c')) :
    e.Lexable ∧ c + e.width 9 ≤ c' := by
  -- what one token yields stands on its own
  have hsingle {e : Expr} {piece : Piece} (hpieces : e.pieces = [piece]) (hpiece : piece.Lexable)
      (hlevel : e.level = 9) (hprinted : e.printed.length = 1) :
      e.Lexable ∧ c + e.width 9 ≤ c + 1 := by
    constructor
    · intro other hother
      obtain rfl : other = piece := by simpa [hpieces] using hother
      exact hpiece
    · rw [width_of_le hlevel.ge, hprinted]
  rw [parsePrimary] at hok
  obtain ⟨token, c₁, htoken, hok⟩ := bind_eq_ok.mp hok
  obtain ⟨rfl, hmem⟩ := advanceOrError_eq_ok htoken
  cases hkind : token.kind with
  | identifier name =>
    simp only [hkind] at hok
    obtain ⟨rfl, rfl⟩ := pure_eq_ok.mp hok
    exact hsingle rfl (lexable_of_identifier hlexed hmem hkind) rfl rfl
  | integer text =>
    simp only [hkind] at hok
    obtain ⟨value, c₁, hvalue, hok⟩ := bind_eq_ok.mp hok
    obtain ⟨rfl, rfl⟩ := pure_eq_ok.mp hok
    rw [parseU64] at hvalue
    split_ifs at hvalue with hfits
    · obtain ⟨rfl, rfl⟩ := pure_eq_ok.mp hvalue
      exact hsingle rfl hfits rfl rfl
    · simp [errorAt] at hvalue
  | string value =>
    simp only [hkind] at hok
    obtain ⟨rfl, rfl⟩ := pure_eq_ok.mp hok
    exact hsingle rfl trivial rfl rfl
  | true =>
    simp only [hkind] at hok
    obtain ⟨rfl, rfl⟩ := pure_eq_ok.mp hok
    exact hsingle rfl trivial rfl rfl
  | false =>
    simp only [hkind] at hok
    obtain ⟨rfl, rfl⟩ := pure_eq_ok.mp hok
    exact hsingle rfl trivial rfl rfl
  | leftParen =>
    simp only [hkind] at hok
    obtain ⟨inner, c₁, hinner, hok⟩ := bind_eq_ok.mp hok
    obtain ⟨close, c₂, hclose, hok⟩ := bind_eq_ok.mp hok
    obtain rfl := expectExact_eq_ok hclose
    obtain ⟨rfl, rfl⟩ := pure_eq_ok.mp hok
    obtain ⟨hlexable, hwidth, -⟩ := h.precedence (Nat.zero_le 7) hinner
    rw [width_of_le (Nat.zero_le _)] at hwidth
    have := width_le 9 inner
    exact ⟨hlexable, by omega⟩
  | leftBracket =>
    simp only [hkind] at hok
    obtain ⟨elements, c₁, helements, hok⟩ := bind_eq_ok.mp hok
    obtain ⟨close, c₂, hclose, hok⟩ := bind_eq_ok.mp hok
    obtain rfl := expectExact_eq_ok hclose
    obtain ⟨rfl, rfl⟩ := pure_eq_ok.mp hok
    obtain ⟨hlexable, hlength⟩ := h.elements helements
    constructor
    · intro piece hpiece
      simp only [Expr.pieces, List.mem_append, List.mem_cons, List.not_mem_nil, or_false] at hpiece
      rcases hpiece with (rfl | hpiece) | rfl
      · trivial
      · exact lexable_pieces_iff.mpr hlexable piece hpiece
      · trivial
    · rw [width_of_le (by simp [Expr.level])]
      simp only [Expr.printed, List.length_append, List.length_cons, List.length_nil]
      omega
  | _ =>
    simp only [hkind] at hok
    split_ifs at hok with hvalue
    · obtain ⟨rfl, rfl⟩ := pure_eq_ok.mp hok
      exact hsingle rfl (lexable_of_valueKeyword hvalue) rfl rfl
    · simp [errorAt] at hok

end Step

theorem checkExact_eq (kind : TokenKind) :
    p.checkExact kind c = .ok (decide (p.currentKind c = some kind), c) := rfl

/-- After an expression of a list comes a comma or the end of the list. -/
theorem list_step {loop : ParseM (List Expr)} {close : TokenKind} {message : String}
    {es : List Expr} (hok : (do
      if !(← p.matchExact .comma) then
        if !(← p.checkExact close) then
          (p.errorHere message : ParseM Unit)
      let rest ← loop
      pure (e :: rest) : ParseM (List Expr)) c = .ok (es, c')) :
    ∃ rest, es = e :: rest ∧ (loop (c + 1) = .ok (rest, c') ∨
      p.currentKind c = some close ∧ loop c = .ok (rest, c')) := by
  by_cases hcomma : p.currentKind c = some .comma
  · rw [bind_of_ok (matchExact_true hcomma)] at hok
    obtain ⟨rest, c₁, hrest, hok⟩ := bind_eq_ok.mp hok
    obtain ⟨rfl, rfl⟩ := pure_eq_ok.mp hok
    exact ⟨rest, rfl, .inl hrest⟩
  · rw [bind_of_ok (matchExact_false hcomma)] at hok
    by_cases hclose : p.currentKind c = some close
    · simp only [Bool.not_false, if_true] at hok
      rw [bind_of_ok (checkExact_eq close)] at hok
      simp only [hclose, decide_true, Bool.not_true, Bool.false_eq_true, if_false] at hok
      obtain ⟨rest, c₁, hrest, hok⟩ := bind_eq_ok.mp hok
      obtain ⟨rfl, rfl⟩ := pure_eq_ok.mp hok
      exact ⟨rest, rfl, .inr ⟨hclose, hrest⟩⟩
    · simp only [Bool.not_false, if_true] at hok
      rw [bind_of_ok (checkExact_eq close)] at hok
      simp [hclose, errorHere, errorAt, bind, StateT.bind, Except.bind] at hok

/-- What one round of a list loop adds to what the rounds after it return. -/
theorem list_returns {es rest : List Expr} (hlexable : e.Lexable) (hwidth : c + e.width 0 ≤ c')
    (hes : es = e :: rest) {c₁ : Nat} (hrest : (∀ e ∈ rest, e.Lexable) ∧
      (rest = [] ∧ c' ≤ c₁ ∨ c' + 1 + (printedList rest).length ≤ c₁)) :
    (∀ e ∈ es, e.Lexable) ∧ c + (printedList es).length ≤ c₁ := by
  rw [width_of_le (Nat.zero_le _)] at hwidth
  subst hes
  refine ⟨List.forall_mem_cons.mpr ⟨hlexable, hrest.1⟩, ?_⟩
  rw [printedList, List.length_append]
  cases rest with
  | nil =>
    have hend : c' ≤ c₁ := by
      rcases hrest.2 with h | h
      · exact h.2
      · omega
    simp only [List.isEmpty_nil, if_true, List.length_nil]
    omega
  | cons e₂ rest =>
    have hmore : c' + 1 + (printedList (e₂ :: rest)).length ≤ c₁ := by
      rcases hrest.2 with h | h
      · cases h.1
      · exact h
    simp only [List.isEmpty_cons, Bool.false_eq_true, if_false, List.length_cons]
    omega

/-- The two list loops differ in what closes them and in their message. -/
theorem Returns.list_succ {loop : Nat → ParseM (List Expr)} {close : TokenKind} {message : String}
    (h : Returns p n) (hzero : loop 0 = outOfFuel)
    (hsucc : ∀ n, loop (n + 1) = do
      if ← p.checkExact close then return []
      let e ← p.parsePrecedence n 0
      if !(← p.matchExact .comma) then
        if !(← p.checkExact close) then
          (p.errorHere message : ParseM Unit)
      let rest ← loop n
      pure (e :: rest))
    (hloop : ∀ {c es c'}, loop n c = .ok (es, c') →
      (∀ e ∈ es, e.Lexable) ∧ c + (printedList es).length ≤ c')
    {es : List Expr} (hok : loop (n + 1) c = .ok (es, c')) :
    (∀ e ∈ es, e.Lexable) ∧ c + (printedList es).length ≤ c' := by
  rw [hsucc, bind_of_ok (checkExact_eq close)] at hok
  by_cases hclose : p.currentKind c = some close
  · simp only [hclose, decide_true, if_true] at hok
    obtain ⟨rfl, rfl⟩ := pure_eq_ok.mp hok
    simp [printedList]
  · simp only [hclose, decide_false, Bool.false_eq_true, if_false] at hok
    obtain ⟨first, c₁, hfirst, hok⟩ := bind_eq_ok.mp hok
    obtain ⟨hlexable, hwidth, -⟩ := h.precedence (Nat.zero_le 7) hfirst
    obtain ⟨rest, hes, hrest⟩ := list_step hok
    apply list_returns hlexable hwidth hes
    rcases hrest with hrest | ⟨hend, hrest⟩
    · obtain ⟨hall, hlength⟩ := hloop hrest
      exact ⟨hall, .inr hlength⟩
    · cases n with
      | zero => simp [hzero, outOfFuel] at hrest
      | succ n =>
        rw [hsucc, bind_of_ok (checkExact_eq close)] at hrest
        simp only [hend, decide_true, if_true] at hrest
        obtain ⟨rfl, rfl⟩ := pure_eq_ok.mp hrest
        exact ⟨by simp, .inl ⟨rfl, Nat.le_refl _⟩⟩

theorem returns_of_lexed (hlexed : p.Lexed) (n : Nat) : Returns p n := by
  induction n with
  | zero => exact returns_zero p
  | succ n ih =>
    exact ⟨ih.precedence_succ, ih.rest_succ, ih.unary_succ, ih.operand_succ,
      ih.operandRest_succ hlexed, ih.primary_succ hlexed, ih.list_succ rfl (fun _ => rfl) ih.arguments,
      ih.list_succ rfl (fun _ => rfl) ih.elements⟩

/-- What the parser makes of lexed tokens is lexable, and they are as many as it is printed with
at least. -/
theorem parseExpression_eq_ok (hlexed : p.Lexed) (h : p.parseExpression c = .ok (e, c')) :
    e.Lexable ∧ c + e.printed.length ≤ c' := by
  obtain ⟨hlexable, hwidth, -⟩ := (returns_of_lexed hlexed p.fuel).precedence (Nat.zero_le 7) h
  rw [width_of_le (Nat.zero_le _)] at hwidth
  exact ⟨hlexable, hwidth⟩

theorem lexed_of_lexFile {source file : String} {tokens : List Token}
    (h : lexFile source file = .ok tokens) : (⟨tokens, source, file⟩ : Parser).Lexed :=
  word_of_lexLoop (lexFile_eq_ok.mp h).2.2

end Parser

end KaspaScript
