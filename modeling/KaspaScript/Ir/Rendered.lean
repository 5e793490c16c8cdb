import KaspaScript.Ir.Parsed
import KaspaScript.Ir.Regroup
import KaspaScript.Lexer.Prescan

namespace KaspaScript

/-- An operator of the expression stands outside all brackets of its rendering. -/
def Expr.exposed : Expr → Bool
  | .unary _ _ _ | .binary _ _ _ _ => true
  | .call callee _ _ => callee.exposed
  | .field object _ _ => object.exposed
  | .ident _ | .integer _ _ | .string _ _ | .bool _ _ | .array _ _ => false

mutual

/-- A rendering without parentheses loses nothing: every operand binds as tightly as its place
needs, and a callee, of which only the text is kept, shows no operator outside brackets. -/
def Expr.Parenless : Expr → Prop
  | .array elements _ => allParenless elements
  | .unary _ e _ => 7 ≤ e.level ∧ e.Parenless
  | .binary left op right _ =>
      (binaryPrecedence op ≤ left.level ∧ left.Parenless) ∧
        binaryPrecedence op + 1 ≤ right.level ∧ right.Parenless
  | .call callee args _ => callee.exposed = false ∧ allParenless args
  | .field object _ _ => 8 ≤ object.level ∧ object.Parenless
  | .ident _ | .integer _ _ | .string _ _ | .bool _ _ => True

def allParenless : List Expr → Prop
  | [] => True
  | e :: rest => e.Parenless ∧ allParenless rest

end

theorem allParenless_iff {es : List Expr} : allParenless es ↔ ∀ e ∈ es, e.Parenless := by
  induction es with
  | nil => simp [allParenless]
  | cons e es ih => simp [allParenless, ih]

/-- Whether the lexer's search for comments is inside one after `cs`. -/
def leavesComment : Bool → List Char → Bool
  | opened, [] => opened
  | false, '/' :: '*' :: rest => leavesComment true rest
  | true, '*' :: '/' :: rest => leavesComment false rest
  | opened, _ :: rest => leavesComment opened rest

def Piece.literal : Piece → Option String
  | .string value => some value
  | _ => none

/-- The string literals of an expression in the order of its rendering. -/
def Expr.literals (e : Expr) : List String := e.pieces.filterMap Piece.literal

/-- The string literals, printed one after the other, leave no comment open: the lexer looks for
comments inside strings too. -/
def Expr.CommentsClosed (e : Expr) : Prop :=
  leavesComment false (e.literals.flatMap fun value => (debugString value).toList) = false

theorem leavesComment_cons {opened : Bool} {c : Char} {cs : List Char}
    (hopen : opened = false → c = '/' → cs.head? ≠ some '*')
    (hclose : opened = true → c = '*' → cs.head? ≠ some '/') :
    leavesComment opened (c :: cs) = leavesComment opened cs := by
  conv_lhs => unfold leavesComment
  split <;> simp_all

theorem openBlockComment_eq_none {cs : List Char} {offset : Nat} {opened : Option Nat} :
    openBlockComment cs offset opened = none ↔ leavesComment opened.isSome cs = false := by
  fun_induction openBlockComment cs offset opened with
  | case1 offset opened => cases opened <;> simp [leavesComment]
  | case2 rest offset ih => simpa [leavesComment] using ih
  | case3 rest offset start ih => simpa [leavesComment] using ih
  | case4 ch rest offset opened hopen hclose ih =>
    rw [ih, leavesComment_cons]
    · intro hnone hslash hstar
      obtain ⟨more, rfl⟩ := List.head?_eq_some_iff.mp hstar
      cases opened with
      | none => exact hopen more rfl hslash rfl
      | some start => cases hnone
    · intro hsome hstar hslash
      obtain ⟨more, rfl⟩ := List.head?_eq_some_iff.mp hslash
      cases opened with
      | none => cases hsome
      | some start => exact hclose more start rfl hstar rfl

/-- Text without the two characters of comments changes nothing. -/
theorem leavesComment_plain {opened : Bool} {cs rest : List Char}
    (h : cs.all (fun c => c != '/' && c != '*') = true) :
    leavesComment opened (cs ++ rest) = leavesComment opened rest := by
  induction cs with
  | nil => rfl
  | cons c cs ih =>
    simp only [List.all_cons, Bool.and_eq_true, bne_iff_ne] at h
    obtain ⟨⟨hslash, hstar⟩, hcs⟩ := h
    rw [List.cons_append, leavesComment_cons (by simp [hslash]) (by simp [hstar])]
    exact ih (by simpa using hcs)

/-- Text that ends in another character can be searched by itself. -/
theorem leavesComment_append {opened : Bool} {cs rest : List Char} {c : Char}
    (hslash : c ≠ '/') (hstar : c ≠ '*') :
    leavesComment opened (cs ++ c :: rest) =
      leavesComment (leavesComment opened (cs ++ [c])) rest := by
  fun_induction leavesComment opened cs with
  | case1 opened =>
    have hcons (more : List Char) : leavesComment opened (c :: more) = leavesComment opened more :=
      leavesComment_cons (by simp [hslash]) (by simp [hstar])
    rw [List.nil_append, List.nil_append, hcons, hcons []]
    cases opened <;> rfl
  | case2 cs ih => simpa [leavesComment] using ih
  | case3 cs ih => simpa [leavesComment] using ih
  | case4 opened d ds hopen hclose ih =>
    have hhead (more : List Char) {other : Char} (hother : c ≠ other)
        (h : (ds ++ c :: more).head? = some other) : ∃ tail, ds = other :: tail := by
      cases ds with
      | nil => exact absurd (by simpa using h) hother
      | cons first tail => exact ⟨tail, by simpa using h⟩
    have hcons (more : List Char) :
        leavesComment opened (d :: (ds ++ c :: more)) = leavesComment opened (ds ++ c :: more) := by
      apply leavesComment_cons
      · intro hfalse hd hother
        obtain ⟨tail, rfl⟩ := hhead more hstar hother
        exact hopen tail hfalse hd rfl
      · intro htrue hd hother
        obtain ⟨tail, rfl⟩ := hhead more hslash hother
        exact hclose tail htrue hd rfl
    rw [List.cons_append, List.cons_append, hcons, hcons, ih]

theorem leavesComment_piece {piece : Piece} (h : piece.Lexable) (hliteral : piece.literal = none)
    (opened : Bool) (rest : List Char) :
    leavesComment opened (piece.text ++ rest) = leavesComment opened rest := by
  have hident {cs : List Char} (hcs : ∀ c ∈ cs, isIdentRest c = true) :
      cs.all (fun c => c != '/' && c != '*') = true := by
    apply List.all_eq_true.mpr
    intro c hc
    simp only [Bool.and_eq_true, bne_iff_ne]
    constructor <;> intro heq <;> subst heq <;> exact absurd (hcs _ hc) (by decide)
  cases piece with
  | name text => exact leavesComment_plain (hident h.1.all)
  | integer value =>
    apply leavesComment_plain (hident _)
    intro c hc
    exact isIdentRest_of_isDigit ((toString_digits value).2 c hc)
  | bool value => cases value <;> exact leavesComment_plain (by decide)
  | unary op => cases op <;> exact leavesComment_plain (by decide)
  | binary op =>
    cases op <;> cases opened <;>
      simp [Piece.text, normalizeBinaryOperator, BinaryOperator.display, leavesComment]
  | string value => cases hliteral
  | _ => exact leavesComment_plain (by decide)

/-- Only string literals can open or close a comment in a rendering. -/
theorem leavesComment_pieces {pieces : List Piece} (h : ∀ piece ∈ pieces, piece.Lexable)
    (opened : Bool) : leavesComment opened (pieces.flatMap Piece.text) =
      leavesComment opened
        ((pieces.filterMap Piece.literal).flatMap fun value => (debugString value).toList) := by
  induction pieces generalizing opened with
  | nil => rfl
  | cons piece pieces ih =>
    have ih := ih fun other hother => h other (List.mem_cons_of_mem _ hother)
    rw [List.flatMap_cons]
    cases hliteral : piece.literal with
    | none =>
      rw [leavesComment_piece (h piece List.mem_cons_self) hliteral, ih,
        List.filterMap_cons_none hliteral]
    | some value =>
      obtain rfl : piece = .string value := by
        cases piece <;> simp_all [Piece.literal]
      have hquote (rest : List Char) : leavesComment opened ((debugString value).toList ++ rest) =
          leavesComment (leavesComment opened (debugString value).toList) rest := by
        have hsplit : leavesComment opened (('"' :: value.toList.flatMap debugChar) ++ '"' :: rest) =
            leavesComment (leavesComment opened
              (('"' :: value.toList.flatMap debugChar) ++ ['"'])) rest :=
          leavesComment_append (by decide) (by decide)
        simpa [debugString] using hsplit
      rw [List.filterMap_cons_some hliteral, List.flatMap_cons, hquote]
      exact (hquote _).trans (ih _)

/-- The search for open strings passes over the printed characters of a string. -/
theorem openString_debugChar (ch : Char) (rest : List Char) (offset start : Nat) :
    ∃ offset', openString (debugChar ch ++ rest) offset (some start) false =
      openString rest offset' (some start) false := by
  unfold debugChar
  split
  · exact ⟨_, rfl⟩
  · exact ⟨_, rfl⟩
  · exact ⟨_, rfl⟩
  · exact ⟨_, rfl⟩
  · exact ⟨_, rfl⟩
  · next hquote hescape hnewline _ _ =>
    refine ⟨offset + ch.utf8Size, ?_⟩
    rw [List.singleton_append, openString]
    · exact hescape
    · exact hquote
    · exact hnewline

theorem openString_body (value rest : List Char) (offset start : Nat) :
    ∃ offset', openString (value.flatMap debugChar ++ rest) offset (some start) false =
      openString rest offset' (some start) false := by
  induction value generalizing offset with
  | nil => exact ⟨offset, rfl⟩
  | cons ch value ih =>
    obtain ⟨middle, hch⟩ := openString_debugChar ch (value.flatMap debugChar ++ rest) offset start
    obtain ⟨offset', hvalue⟩ := ih middle
    exact ⟨offset', by rw [List.flatMap_cons, List.append_assoc, hch, hvalue]⟩

theorem openString_plain {cs : List Char} (rest : List Char) (h : cs.all (· != '"') = true)
    (offset : Nat) : ∃ offset', openString (cs ++ rest) offset none false =
      openString rest offset' none false := by
  induction cs generalizing offset with
  | nil => exact ⟨offset, rfl⟩
  | cons c cs ih =>
    simp only [List.all_cons, Bool.and_eq_true, bne_iff_ne] at h
    obtain ⟨offset', hcs⟩ := ih h.2 (offset + c.utf8Size)
    refine ⟨offset', ?_⟩
    rw [List.cons_append, openString, if_neg h.1, hcs]

/-- A rendering closes every string that it opens. -/
theorem openString_pieces {pieces : List Piece} (h : ∀ piece ∈ pieces, piece.Lexable)
    (offset : Nat) : openString (pieces.flatMap Piece.text) offset none false = none := by
  induction pieces generalizing offset with
  | nil => rfl
  | cons piece pieces ih =>
    have ih := ih fun other hother => h other (List.mem_cons_of_mem _ hother)
    have hpiece : ∃ offset', openString (piece.text ++ pieces.flatMap Piece.text) offset none false =
        openString (pieces.flatMap Piece.text) offset' none false := by
      cases piece with
      | string value =>
        obtain ⟨offset', hbody⟩ := openString_body value.toList
          ('"' :: pieces.flatMap Piece.text) (offset + Char.utf8Size '"') offset
        refine ⟨offset' + Char.utf8Size '"', ?_⟩
        simp only [Piece.text, debugString, String.toList_ofList, List.cons_append,
          List.append_assoc, List.nil_append]
        exact hbody
      | name text =>
        apply openString_plain
        apply List.all_eq_true.mpr
        intro c hc
        apply bne_iff_ne.mpr
        intro heq
        subst heq
        exact absurd ((h _ List.mem_cons_self).1.all _ hc) (by decide)
      | integer value =>
        apply openString_plain
        apply List.all_eq_true.mpr
        intro c hc
        apply bne_iff_ne.mpr
        intro heq
        subst heq
        exact absurd ((toString_digits value).2 _ hc) (by decide)
      | bool value => cases value <;> exact openString_plain _ (by decide) offset
      | unary op => cases op <;> exact openString_plain _ (by decide) offset
      | binary op => cases op <;> exact openString_plain _ (by decide) offset
      | _ => exact openString_plain _ (by decide) offset
    obtain ⟨offset', hpiece⟩ := hpiece
    rw [List.flatMap_cons, hpiece, ih]

/-- The rendering of an expression, for the lexer. -/
theorem lexFile_display {e : Expr} (h : e.Lexable) (file : String) :
    ∃ tokens, tokens.map Token.kind = e.pieces.map Piece.kind ∧
      (e.CommentsClosed → lexFile (normalizeExpression e).display file = .ok tokens) ∧
      ∀ others, lexFile (normalizeExpression e).display file = .ok others →
        e.CommentsClosed ∧ others = tokens := by
  have hlexes : Lexes (normalizeExpression e).display file
      (normalizeExpression e).display.toList (e.pieces.map Piece.kind) := by
    rw [display_toList]
    exact lexes_pieces (operand_pieces e).chained h
  obtain ⟨tokens, hloop, hkinds⟩ := hlexes _ 0 (Nat.le_refl _)
  have hcomments : openBlockComment (normalizeExpression e).display.toList 0 none = none ↔
      e.CommentsClosed := by
    rw [openBlockComment_eq_none, display_toList]
    exact Eq.congr_left (leavesComment_pieces h false)
  have hstrings : openString (normalizeExpression e).display.toList 0 none false = none := by
    rw [display_toList]
    exact openString_pieces h 0
  refine ⟨tokens, hkinds, ?_, ?_⟩
  · intro hclosed
    exact lexFile_eq_ok.mpr ⟨hcomments.mpr hclosed, hstrings, hloop⟩
  · intro others hothers
    obtain ⟨hclosed, -, hloop'⟩ := lexFile_eq_ok.mp hothers
    exact ⟨hcomments.mp hclosed, (Except.ok.inj (hloop.symm.trans hloop')).symm⟩

/-- Renderings with one text have one list of tokens. -/
theorem kinds_of_display {e e' : Expr} (h : e.Lexable) (h' : e'.Lexable)
    (hdisplay : (normalizeExpression e).display = (normalizeExpression e').display) :
    e.pieces.map Piece.kind = e'.pieces.map Piece.kind := by
  have htext : e.pieces.flatMap Piece.text = e'.pieces.flatMap Piece.text := by
    rw [← display_toList, ← display_toList, hdisplay]
  have hlexes : Lexes "" "" (e.pieces.flatMap Piece.text) (e.pieces.map Piece.kind) :=
    lexes_pieces (operand_pieces e).chained h
  have hlexes' : Lexes "" "" (e'.pieces.flatMap Piece.text) (e'.pieces.map Piece.kind) :=
    lexes_pieces (operand_pieces e').chained h'
  rw [htext] at hlexes
  obtain ⟨tokens, hloop, hkinds⟩ := hlexes _ 0 (Nat.le_refl _)
  obtain ⟨tokens', hloop', hkinds'⟩ := hlexes' _ 0 (Nat.le_refl _)
  obtain rfl := Except.ok.inj (hloop.symm.trans hloop')
  rw [← hkinds, hkinds']

/-- An operator stands outside all brackets, of which `depth` are open. -/
def showsOperator : Nat → List TokenKind → Bool
  | _, [] => false
  | depth, kind :: rest =>
      match kind with
      | .leftParen | .leftBracket => showsOperator (depth + 1) rest
      | .rightParen | .rightBracket => showsOperator (depth - 1) rest
      | kind => (depth == 0 && ((binaryOpOf kind).isSome || kind == .bang)) || showsOperator depth rest

theorem showsOperator_name (depth : Nat) (name : String) (rest : List TokenKind) :
    showsOperator depth (nameToken name :: rest) = showsOperator depth rest := by
  rcases nameToken_cases name with h | ⟨hvalue, -⟩
  · simp [h, showsOperator, binaryOpOf]
  · cases hkind : nameToken name <;>
      simp_all [isValueKeyword, showsOperator, binaryOpOf]

theorem showsOperator_dot (depth : Nat) (rest : List TokenKind) :
    showsOperator depth (.dot :: rest) = showsOperator depth rest := by
  simp [showsOperator, binaryOpOf]

theorem showsOperator_unary (depth : Nat) (op : UnaryOp) (rest : List TokenKind) :
    showsOperator depth (unaryToken op :: rest) = (depth == 0 || showsOperator depth rest) := by
  cases op <;> simp [showsOperator, unaryToken, binaryOpOf]

theorem showsOperator_binary (depth : Nat) (op : BinaryOp) (rest : List TokenKind) :
    showsOperator depth (binaryToken op :: rest) = (depth == 0 || showsOperator depth rest) := by
  cases op <;> simp [showsOperator, binaryToken, binaryOpOf]

theorem showsOperator_list {es : List Expr} (depth : Nat) (rest : List TokenKind)
    (h : ∀ e ∈ es, ∀ depth rest, showsOperator depth (e.pieces.map Piece.kind ++ rest) =
      ((depth == 0 && e.exposed) || showsOperator depth rest)) :
    showsOperator (depth + 1) ((piecesList es).map Piece.kind ++ rest) =
      showsOperator (depth + 1) rest := by
  induction es with
  | nil => rfl
  | cons e es ih =>
    have ih := ih fun e' h' => h e' (List.mem_cons_of_mem _ h')
    rw [piecesList, List.map_append, List.append_assoc, h e List.mem_cons_self]
    cases es with
    | nil => simp
    | cons e₂ es => simpa [Piece.kind, showsOperator, binaryOpOf] using ih

theorem showsOperator_pieces (e : Expr) (depth : Nat) (rest : List TokenKind) :
    showsOperator depth (e.pieces.map Piece.kind ++ rest) =
      ((depth == 0 && e.exposed) || showsOperator depth rest) := by
  induction e using Expr.induct generalizing depth rest with
  | ident id => simp [Expr.pieces, Piece.kind, showsOperator_name, Expr.exposed]
  | integer value span | string value span =>
    simp [Expr.pieces, Piece.kind, showsOperator, binaryOpOf, Expr.exposed]
  | bool value span =>
    cases value <;> simp [Expr.pieces, Piece.kind, showsOperator, binaryOpOf, Expr.exposed]
  | array elements span ih =>
    simp [Expr.pieces, Piece.kind, showsOperator, Expr.exposed, showsOperator_list depth _ ih]
  | unary op e span ih =>
    simp only [Expr.pieces, List.map_cons, Piece.kind, List.cons_append, showsOperator_unary, ih,
      Expr.exposed]
    cases depth == 0 <;> simp
  | binary left op right span ihl ihr =>
    simp only [Expr.pieces, List.map_append, List.map_cons, Piece.kind, List.append_assoc,
      List.cons_append, showsOperator_binary, ihl, ihr, Expr.exposed]
    cases depth == 0 <;> simp
  | call callee args span ihc iha =>
    simp [Expr.pieces, Piece.kind, showsOperator, Expr.exposed, ihc,
      showsOperator_list depth _ iha]
  | field object field span ih =>
    simp only [Expr.pieces, List.map_append, List.map_cons, List.map_nil, Piece.kind,
      List.append_assoc, List.cons_append, List.nil_append, ih, showsOperator_dot,
      showsOperator_name, Expr.exposed]

/-- The tokens of a rendering tell whether an operator is exposed. -/
theorem exposed_of_kinds {e e' : Expr} (h : e.pieces.map Piece.kind = e'.pieces.map Piece.kind) :
    e.exposed = e'.exposed := by
  have hshows (e : Expr) : showsOperator 0 (e.pieces.map Piece.kind) = e.exposed := by
    simpa [showsOperator] using showsOperator_pieces e 0 []
  rw [← hshows e, ← hshows e', h]

theorem exposed_of_unenclosed {e : Expr} (h : e.Unenclosed) (hlevel : 8 ≤ e.level) :
    e.exposed = false := by
  induction e using Expr.induct with
  | unary op e span ih => simp [Expr.level] at hlevel
  | binary left op right span ihl ihr =>
    have hop := binaryPrecedence_le op
    rw [level_binary] at hlevel
    omega
  | call callee args span ihc iha => exact ihc h.1.2 h.1.1
  | field object field span ih => exact ih h.2 h.1
  | _ => rfl

theorem level_of_exposed {e : Expr} (h : e.exposed = false) : 8 ≤ e.level := by
  cases e <;> simp [Expr.exposed] at h <;> simp [Expr.level]

theorem normalizeBinaryOperator_injective {op op' : BinaryOp}
    (h : normalizeBinaryOperator op = normalizeBinaryOperator op') : op = op' := by
  cases op <;> cases op' <;> first | rfl | cases h

theorem level_of_normalizeExpression {e e' : Expr}
    (h : normalizeExpression e' = normalizeExpression e) : e'.level = e.level := by
  cases e <;> cases e' <;> simp only [normalizeExpression] at h <;> first | rfl | cases h | skip
  simp only [NormalizedExpression.binary.injEq] at h
  rw [level_binary, level_binary, normalizeBinaryOperator_injective h.1]

theorem normalizeAll_eq {es : List Expr} : normalizeAll es = es.map normalizeExpression := by
  induction es with
  | nil => rfl
  | cons e es ih => simp [normalizeAll, ih]

theorem lexable_of_subset {e e' : Expr} (h : e.Lexable)
    (hsubset : ∀ piece ∈ e'.pieces, piece ∈ e.pieces) : e'.Lexable :=
  fun piece hpiece => h piece (hsubset piece hpiece)

theorem allParenless_of_normalizeAll {es es' : List Expr} (h : ∀ e ∈ es, e.Lexable)
    (h' : ∀ e ∈ es', e.Lexable) (hunenclosed : allUnenclosed es')
    (hnormal : normalizeAll es' = normalizeAll es)
    (hes : ∀ e ∈ es, ∀ e' : Expr, e.Lexable → e'.Lexable → e'.Unenclosed →
      normalizeExpression e' = normalizeExpression e → e.Parenless) : allParenless es := by
  rw [normalizeAll_eq, normalizeAll_eq] at hnormal
  apply allParenless_iff.mpr
  intro e he
  have hmem : normalizeExpression e ∈ es'.map normalizeExpression := by
    rw [hnormal]
    exact List.mem_map_of_mem he
  obtain ⟨e', he', heq⟩ := List.mem_map.mp hmem
  exact hes e he e' (h e he) (h' e' he') (allUnenclosed_iff.mp hunenclosed e' he') heq

theorem lexable_elements {elements : List Expr} {span : Span}
    (h : (Expr.array elements span).Lexable) : ∀ e ∈ elements, e.Lexable := by
  apply lexable_pieces_iff.mp
  intro piece hpiece
  exact h piece (by simp [Expr.pieces, hpiece])

theorem lexable_call {callee : Expr} {args : List Expr} {span : Span}
    (h : (Expr.call callee args span).Lexable) : callee.Lexable ∧ ∀ e ∈ args, e.Lexable := by
  refine ⟨fun piece hpiece => h piece (by simp [Expr.pieces, hpiece]), ?_⟩
  apply lexable_pieces_iff.mp
  intro piece hpiece
  exact h piece (by simp [Expr.pieces, hpiece])

/-- What an expression without parentheses normalizes to is rendered without loss by every
expression that normalizes to it. -/
theorem parenless_of_normalizeExpression {e e' : Expr} (h : e.Lexable) (h' : e'.Lexable)
    (hunenclosed : e'.Unenclosed) (hnormal : normalizeExpression e' = normalizeExpression e) :
    e.Parenless := by
  induction e using Expr.induct generalizing e' with
  | ident id => trivial
  | integer value span | string value span | bool value span => trivial
  | array elements span ih =>
    cases e' <;> simp only [normalizeExpression, reduceCtorEq] at hnormal
    case array elements' span' =>
      apply allParenless_of_normalizeAll (lexable_elements h) (lexable_elements h') hunenclosed
        (by simpa using hnormal)
      intro e he e' hlexable hlexable' hinner heq
      exact ih e he hlexable hlexable' hinner heq
  | unary op e span ih =>
    cases e' <;> simp only [normalizeExpression, reduceCtorEq] at hnormal
    case unary op' inner span' =>
      simp only [NormalizedExpression.unary.injEq] at hnormal
      obtain ⟨hlevel, hinner⟩ := hunenclosed
      refine ⟨level_of_normalizeExpression hnormal.2 ▸ hlevel, ?_⟩
      exact ih (lexable_of_subset h (by simp [Expr.pieces]; tauto))
        (lexable_of_subset h' (by simp [Expr.pieces]; tauto)) hinner hnormal.2
  | binary left op right span ihl ihr =>
    cases e' <;> simp only [normalizeExpression, reduceCtorEq] at hnormal
    case binary left' op' right' span' =>
      simp only [NormalizedExpression.binary.injEq] at hnormal
      obtain ⟨hop, hleft, hright⟩ := hnormal
      obtain rfl := normalizeBinaryOperator_injective hop
      obtain ⟨⟨hlevel, hl⟩, hlevel', hr⟩ := hunenclosed
      refine ⟨⟨level_of_normalizeExpression hleft ▸ hlevel, ?_⟩,
        level_of_normalizeExpression hright ▸ hlevel', ?_⟩
      · exact ihl (lexable_of_subset h (by simp [Expr.pieces]; tauto))
          (lexable_of_subset h' (by simp [Expr.pieces]; tauto)) hl hleft
      · exact ihr (lexable_of_subset h (by simp [Expr.pieces]; tauto))
          (lexable_of_subset h' (by simp [Expr.pieces]; tauto)) hr hright
  | call callee args span ihc iha =>
    cases e' <;> simp only [normalizeExpression, reduceCtorEq] at hnormal
    case call callee' args' span' =>
      simp only [NormalizedExpression.call.injEq, expressionPath_eq] at hnormal
      obtain ⟨⟨hlevel, hcallee⟩, hargs⟩ := hunenclosed
      obtain ⟨hc, ha⟩ := lexable_call h
      obtain ⟨hc', ha'⟩ := lexable_call h'
      constructor
      · rw [exposed_of_kinds (kinds_of_display hc hc' hnormal.1.symm)]
        exact exposed_of_unenclosed hcallee hlevel
      · apply allParenless_of_normalizeAll ha ha' hargs hnormal.2
        intro e he e' hlexable hlexable' hinner heq
        exact iha e he hlexable hlexable' hinner heq
  | field object field span ih =>
    cases e' <;> simp only [normalizeExpression, reduceCtorEq] at hnormal
    case field object' field' span' =>
      simp only [NormalizedExpression.field.injEq] at hnormal
      obtain ⟨hlevel, hobject⟩ := hunenclosed
      refine ⟨level_of_normalizeExpression hnormal.1 ▸ hlevel, ?_⟩
      exact ih (lexable_of_subset h (by simp [Expr.pieces]; tauto))
        (lexable_of_subset h' (by simp [Expr.pieces]; tauto)) hobject hnormal.1

theorem normalize_of_forall₂ {ys es : List Expr} (h : List.Forall₂ (fun y e : Expr =>
    y.Unenclosed ∧ normalizeExpression y = normalizeExpression e) ys es) :
    ys.map normalizeExpression = es.map normalizeExpression := by
  induction h with
  | nil => rfl
  | cons hy _ ih => rw [List.map_cons, List.map_cons, hy.2, ih]

/-- An expression that is rendered without loss has a reading that needs no parentheses. -/
theorem exists_unenclosed {e : Expr} (h : e.Parenless) :
    ∃ y : Expr, y.pieces = e.pieces ∧ y.Unenclosed ∧
      normalizeExpression y = normalizeExpression e := by
  induction e using Expr.induct with
  | ident id => exact ⟨.ident id, rfl, trivial, rfl⟩
  | integer value span => exact ⟨.integer value span, rfl, trivial, rfl⟩
  | string value span => exact ⟨.string value span, rfl, trivial, rfl⟩
  | bool value span => exact ⟨.bool value span, rfl, trivial, rfl⟩
  | array elements span ih =>
    obtain ⟨ys, hpieces, hys⟩ :=
      exists_piecesList fun e he => ih e he (allParenless_iff.mp h e he)
    have hnormal : normalizeAll ys = normalizeAll elements := by
      rw [normalizeAll_eq, normalizeAll_eq]
      exact normalize_of_forall₂ hys
    exact ⟨.array ys span, by simp [Expr.pieces, hpieces],
      allUnenclosed_of_forall₂ (fun _ _ hy => hy.1) hys, by simp [normalizeExpression, hnormal]⟩
  | unary op e span ih =>
    obtain ⟨y, hpieces, hy, hnormal⟩ := ih h.2
    exact ⟨.unary op y span, by simp [Expr.pieces, hpieces],
      ⟨level_of_normalizeExpression hnormal ▸ h.1, hy⟩, by simp [normalizeExpression, hnormal]⟩
  | binary left op right span ihl ihr =>
    obtain ⟨a, hleft, ha, hnormal⟩ := ihl h.1.2
    obtain ⟨b, hright, hb, hnormal'⟩ := ihr h.2.2
    exact ⟨.binary a op b span, by simp [Expr.pieces, hleft, hright],
      ⟨⟨level_of_normalizeExpression hnormal ▸ h.1.1, ha⟩,
        level_of_normalizeExpression hnormal' ▸ h.2.1, hb⟩,
      by simp [normalizeExpression, hnormal, hnormal']⟩
  | call callee args span ihc iha =>
    obtain ⟨y, hpieces, hy⟩ := exists_regrouped callee
    obtain ⟨ys, hargs, hys⟩ :=
      exists_piecesList fun e he => iha e he (allParenless_iff.mp h.2 e he)
    have hnormal : normalizeAll ys = normalizeAll args := by
      rw [normalizeAll_eq, normalizeAll_eq]
      exact normalize_of_forall₂ hys
    have hexposed : y.exposed = false := by
      rw [exposed_of_kinds (congrArg (List.map Piece.kind) hpieces)]
      exact h.1
    have hdisplay : (normalizeExpression y).display = (normalizeExpression callee).display := by
      apply String.toList_injective
      rw [display_toList, display_toList, hpieces]
    exact ⟨.call y ys span, by simp [Expr.pieces, hpieces, hargs],
      ⟨⟨level_of_exposed hexposed, hy⟩, allUnenclosed_of_forall₂ (fun _ _ hy => hy.1) hys⟩,
      by simp [normalizeExpression, expressionPath_eq, hdisplay, hnormal]⟩
  | field object field span ih =>
    obtain ⟨y, hpieces, hy, hnormal⟩ := ih h.2
    exact ⟨.field y field span, by simp [Expr.pieces, hpieces],
      ⟨level_of_normalizeExpression hnormal ▸ h.1, hy⟩, by simp [normalizeExpression, hnormal]⟩

/-- Spans do not show in the normal form. -/
theorem normalizeExpression_erased (e : Expr) :
    normalizeExpression e.erased = normalizeExpression e := by
  have hlist {es : List Expr} (h : ∀ e ∈ es, normalizeExpression e.erased = normalizeExpression e) :
      normalizeAll (erasedList es) = normalizeAll es := by
    induction es with
    | nil => rfl
    | cons e es ih =>
      rw [erasedList, normalizeAll, normalizeAll, h e List.mem_cons_self,
        ih fun e' h' => h e' (List.mem_cons_of_mem _ h')]
  induction e using Expr.induct with
  | ident id => rfl
  | integer value span | string value span | bool value span => rfl
  | array elements span ih => simp [Expr.erased, normalizeExpression, hlist ih]
  | unary op e span ih => simp [Expr.erased, normalizeExpression, ih]
  | binary left op right span ihl ihr => simp [Expr.erased, normalizeExpression, ihl, ihr]
  | call callee args span ihc iha =>
    rw [Expr.erased, normalizeExpression, expressionPath_eq, ihc, hlist iha, normalizeExpression,
      expressionPath_eq]
  | field object field span ih => simp [Expr.erased, normalizeExpression, ih]

theorem mem_piecesList {es : List Expr} {e : Expr} (he : e ∈ es) {piece : Piece}
    (hpiece : piece ∈ e.pieces) : piece ∈ piecesList es := by
  induction es with
  | nil => cases he
  | cons head es ih =>
    rw [piecesList]
    rcases List.mem_cons.mp he with rfl | he
    · exact List.mem_append_left _ hpiece
    · cases es with
      | nil => cases he
      | cons e₂ es => exact List.mem_append_right _ (List.mem_cons_of_mem _ (ih he))

/-- A node is rendered inside the expression. -/
theorem pieces_of_mem_nodes {e node : Expr} (h : node ∈ e.nodes) :
    ∀ piece ∈ node.pieces, piece ∈ e.pieces := by
  intro piece hpiece
  induction e using Expr.induct with
  | ident id => simp_all [Expr.nodes]
  | integer value span | string value span | bool value span => simp_all [Expr.nodes]
  | array elements span ih =>
    rcases List.mem_cons.mp h with rfl | h
    · exact hpiece
    · obtain ⟨e, he, hnode⟩ := mem_allNodes.mp h
      simp [Expr.pieces, mem_piecesList he (ih e he hnode)]
  | unary op e span ih =>
    rcases List.mem_cons.mp h with rfl | h
    · exact hpiece
    · simp [Expr.pieces, ih h]
  | binary left op right span ihl ihr =>
    rcases List.mem_cons.mp h with rfl | h
    · exact hpiece
    · rcases List.mem_append.mp h with h | h
      · simp [Expr.pieces, ihl h]
      · simp [Expr.pieces, ihr h]
  | call callee args span ihc iha =>
    rcases List.mem_cons.mp h with rfl | h
    · exact hpiece
    · rcases List.mem_append.mp h with h | h
      · simp [Expr.pieces, ihc h]
      · obtain ⟨e, he, hnode⟩ := mem_allNodes.mp h
        simp [Expr.pieces, mem_piecesList he (iha e he hnode)]
  | field object field span ih =>
    rcases List.mem_cons.mp h with rfl | h
    · exact hpiece
    · simp [Expr.pieces, ih h]

theorem integersFit_of_lexable {e : Expr} (h : e.Lexable) : e.IntegersFit := by
  intro value span hnode
  exact h (.integer value) (pieces_of_mem_nodes hnode _ (by simp [Expr.pieces]))

/-- The text that `Display` gives for the normal form of the expression reads back, whole, as an
expression with that normal form. -/
def RoundTrips (file : String) (e : Expr) : Prop :=
  ∃ tokens e', lexFile (normalizeExpression e).display file = .ok tokens ∧
    (⟨tokens, (normalizeExpression e).display, file⟩ : Parser).parseExpression 0 =
      .ok (e', tokens.length) ∧
    normalizeExpression e' = normalizeExpression e

theorem roundTrips_of_parenless (file : String) {e : Expr} (h : e.Lexable)
    (hparenless : e.Parenless) (hclosed : e.CommentsClosed) : RoundTrips file e := by
  obtain ⟨tokens, hkinds, hlex, -⟩ := lexFile_display h file
  obtain ⟨y, hpieces, hy, hnormal⟩ := exists_unenclosed hparenless
  have hlexable : y.Lexable := lexable_of_subset h (by simp [hpieces])
  let p : Parser := ⟨tokens, (normalizeExpression e).display, file⟩
  have hahead : p.ahead 0 = y.printed ++ [] := by
    rw [printed_of_unenclosed hy, hpieces, ← hkinds]
    simp [p, Parser.ahead]
  obtain ⟨e', herased, hread⟩ := Parser.parseExpression_of_printed
    (integersFit_of_lexable hlexable) hahead (by simp [Parser.EndsExpression])
  have hlength : y.printed.length = tokens.length := by
    rw [printed_of_unenclosed hy, hpieces, ← hkinds, List.length_map]
  refine ⟨tokens, e', hlex hclosed, ?_, ?_⟩
  · simpa [hlength] using hread
  · rw [← hnormal, ← normalizeExpression_erased e', herased, normalizeExpression_erased]

theorem parenless_of_roundTrips {file : String} {e : Expr} (h : e.Lexable)
    (htrips : RoundTrips file e) : e.Parenless ∧ e.CommentsClosed := by
  obtain ⟨others, e', hothers, hread, hnormal⟩ := htrips
  obtain ⟨tokens, hkinds, -, hlex⟩ := lexFile_display h file
  obtain ⟨hclosed, rfl⟩ := hlex others hothers
  obtain ⟨hlexable, hlength⟩ :=
    Parser.parseExpression_eq_ok (Parser.lexed_of_lexFile hothers) hread
  have hsame : e'.pieces.map Piece.kind = e.pieces.map Piece.kind :=
    kinds_of_display hlexable h (by rw [hnormal])
  -- the rendering has one token for each piece of the reading, so the reading has no parentheses
  have hunenclosed : e'.Unenclosed := by
    apply (length_printed e').2
    have htokens := congrArg List.length hkinds
    have hpieces := congrArg List.length hsame
    simp only [List.length_map] at htokens hpieces
    omega
  exact ⟨parenless_of_normalizeExpression h hlexable hunenclosed hnormal, hclosed⟩

/-- An expression from source survives rendering exactly when no parentheses are lost and no string
literal leaves a comment open; of two such expressions, the text tells them apart. -/
theorem roundTrips_iff (source file : String) (tokens : List Token) (cursor cursor' : Nat)
    (e : Expr) (hlex : lexFile source file = .ok tokens)
    (hparse : (⟨tokens, source, file⟩ : Parser).parseExpression cursor = .ok (e, cursor')) :
    (RoundTrips file e ↔ e.Parenless ∧ e.CommentsClosed) ∧
      ∀ source₂ file₂ tokens₂ cursor₂ cursor₂' (e₂ : Expr),
        lexFile source₂ file₂ = .ok tokens₂ →
        (⟨tokens₂, source₂, file₂⟩ : Parser).parseExpression cursor₂ = .ok (e₂, cursor₂') →
        e.Parenless ∧ e.CommentsClosed → e₂.Parenless ∧ e₂.CommentsClosed →
        (normalizeExpression e).display = (normalizeExpression e₂).display →
          normalizeExpression e = normalizeExpression e₂ := by
  have hlexed := Parser.lexed_of_lexFile hlex
  have hlexable := (Parser.parseExpression_eq_ok hlexed hparse).1
  constructor
  · constructor
    · exact parenless_of_roundTrips hlexable
    · intro h
      exact roundTrips_of_parenless file hlexable h.1 h.2
  · intro source₂ file₂ tokens₂ cursor₂ cursor₂' e₂ hlex₂ hparse₂ h h₂ hdisplay
    have hlexed₂ := Parser.lexed_of_lexFile hlex₂
    have hlexable₂ := (Parser.parseExpression_eq_ok hlexed₂ hparse₂).1
    obtain ⟨text, e', htext, hread₁, hnormal₁⟩ :=
      roundTrips_of_parenless file hlexable h.1 h.2
    obtain ⟨text₂, e'', htext₂, hread₂, hnormal₂⟩ :=
      roundTrips_of_parenless file hlexable₂ h₂.1 h₂.2
    rw [hdisplay] at htext hread₁
    obtain rfl := Except.ok.inj (htext.symm.trans htext₂)
    obtain rfl : e' = e'' := congrArg Prod.fst (Except.ok.inj (hread₁.symm.trans hread₂))
    exact hnormal₁.symm.trans hnormal₂

/-- `(a || b) && c` and `a || b && c` in one spend. -/
def gateSource : String := "contract Gate \x7b
  params \x7b a: Bool, b: Bool, c: Bool \x7d
  spend open() \x7b
    require (a || b) && c;
    require a || b && c;
  \x7d
\x7d"

def gateTokens : List Token :=
  [⟨.contract, 0, 8⟩, ⟨.identifier "Gate", 9, 13⟩, ⟨.leftBrace, 14, 15⟩, ⟨.params, 18, 24⟩,
    ⟨.leftBrace, 25, 26⟩, ⟨.identifier "a", 27, 28⟩, ⟨.colon, 28, 29⟩, ⟨.type .bool, 30, 34⟩,
    ⟨.comma, 34, 35⟩, ⟨.identifier "b", 36, 37⟩, ⟨.colon, 37, 38⟩, ⟨.type .bool, 39, 43⟩,
    ⟨.comma, 43, 44⟩, ⟨.identifier "c", 45, 46⟩, ⟨.colon, 46, 47⟩, ⟨.type .bool, 48, 52⟩,
    ⟨.rightBrace, 53, 54⟩, ⟨.spend, 57, 62⟩, ⟨.identifier "open", 63, 67⟩, ⟨.leftParen, 67, 68⟩,
    ⟨.rightParen, 68, 69⟩, ⟨.leftBrace, 70, 71⟩, ⟨.require, 76, 83⟩, ⟨.leftParen, 84, 85⟩,
    ⟨.identifier "a", 85, 86⟩, ⟨.orOr, 87, 89⟩, ⟨.identifier "b", 90, 91⟩, ⟨.rightParen, 91, 92⟩,
    ⟨.andAnd, 93, 95⟩, ⟨.identifier "c", 96, 97⟩, ⟨.semicolon, 97, 98⟩, ⟨.require, 103, 110⟩,
    ⟨.identifier "a", 111, 112⟩, ⟨.orOr, 113, 115⟩, ⟨.identifier "b", 116, 117⟩,
    ⟨.andAnd, 118, 120⟩, ⟨.identifier "c", 121, 122⟩, ⟨.semicolon, 122, 123⟩,
    ⟨.rightBrace, 126, 127⟩, ⟨.rightBrace, 128, 129⟩]

/-- The first of the two, as it is read at token 23. -/
def gateExpr : Expr :=
  .binary (.binary (.ident ⟨"a", 85, 86⟩) .or (.ident ⟨"b", 90, 91⟩) ⟨85, 91⟩) .and
    (.ident ⟨"c", 96, 97⟩) ⟨85, 97⟩

/-- The second, at token 32. -/
def looseGateExpr : Expr :=
  .binary (.ident ⟨"a", 111, 112⟩) .or
    (.binary (.ident ⟨"b", 116, 117⟩) .and (.ident ⟨"c", 121, 122⟩) ⟨116, 122⟩) ⟨111, 122⟩

/-- The rendering of both, lexed. -/
def gateTextTokens : List Token :=
  [⟨.identifier "a", 0, 1⟩, ⟨.orOr, 2, 4⟩, ⟨.identifier "b", 5, 6⟩, ⟨.andAnd, 7, 9⟩,
    ⟨.identifier "c", 10, 11⟩]

set_option maxRecDepth 10000 in
theorem lex_gate : lexFile gateSource "gate.ks" = .ok gateTokens := by
  apply lexFile_eq_ok.mpr
  unfold gateSource
  erw [String.toList_ofList]
  refine ⟨?_, ?_, ?_⟩
  · decide +kernel
  · decide +kernel
  · decide +kernel

theorem roundTrips_iff_looseGate : RoundTrips "gate.ks" looseGateExpr :=
  (roundTrips_iff gateSource "gate.ks" gateTokens 32 37 looseGateExpr lex_gate rfl).1.mpr
    ⟨by simp [looseGateExpr, Expr.Parenless, Expr.level, binaryPrecedence], rfl⟩

theorem lex_gateText : lexFile "a || b && c" "gate.ks" = .ok gateTextTokens := by
  apply lexFile_eq_ok.mpr
  erw [String.toList_ofList]
  refine ⟨?_, ?_, ?_⟩
  · decide +kernel
  · decide +kernel
  · decide +kernel

/-- The rendering of the first reads back as the second, so the two are shown alike. -/
theorem roundTrips_gate : lexFile gateSource "gate.ks" = .ok gateTokens ∧
    (⟨gateTokens, gateSource, "gate.ks"⟩ : Parser).parseExpression 23 = .ok (gateExpr, 30) ∧
    ¬ RoundTrips "gate.ks" gateExpr ∧
    (⟨gateTokens, gateSource, "gate.ks"⟩ : Parser).parseExpression 32 = .ok (looseGateExpr, 37) ∧
    (normalizeExpression gateExpr).display = (normalizeExpression looseGateExpr).display ∧
    normalizeExpression gateExpr ≠ normalizeExpression looseGateExpr := by
  refine ⟨lex_gate, rfl, ?_, rfl, by decide, ?_⟩
  · intro h
    obtain ⟨tokens, e', hlex, hread, hnormal⟩ := h
    have hdisplay : (normalizeExpression gateExpr).display = "a || b && c" := by decide
    rw [hdisplay] at hlex hread
    obtain rfl := Except.ok.inj (lex_gateText.symm.trans hlex)
    have hparse : (⟨gateTextTokens, "a || b && c", "gate.ks"⟩ : Parser).parseExpression 0 =
        .ok (.binary (.ident ⟨"a", 0, 1⟩) .or
          (.binary (.ident ⟨"b", 5, 6⟩) .and (.ident ⟨"c", 10, 11⟩) ⟨5, 11⟩) ⟨0, 11⟩, 5) := rfl
    rw [hparse] at hread
    obtain ⟨rfl, -⟩ := Prod.mk.inj (Except.ok.inj hread)
    simp [gateExpr, normalizeExpression, normalizeBinaryOperator] at hnormal
  · simp [gateExpr, looseGateExpr, normalizeExpression, normalizeBinaryOperator]

end KaspaScript
