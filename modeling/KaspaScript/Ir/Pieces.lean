import KaspaScript.Ir.Application
import KaspaScript.Lexer.Lexing
import KaspaScript.Parser.Printed
import Mathlib.Data.List.Chain

namespace KaspaScript

open Library (Rule munch)

/-- What a rendered expression is put together from. -/
inductive Piece where
  | name (text : String)
  | integer (value : Nat)
  | string (value : String)
  | bool (value : Bool)
  | unary (op : UnaryOp)
  | binary (op : BinaryOp)
  | leftParen | rightParen | leftBracket | rightBracket | comma | dot
  deriving DecidableEq

/-- The characters that `Display` writes for a piece. -/
def Piece.text : Piece → List Char
  | .name text => text.toList
  | .integer value => (toString value).toList
  | .string value => (debugString value).toList
  | .bool value => (toString value).toList
  | .unary op => (normalizeUnaryOperator op).display.toList
  | .binary op => ' ' :: (normalizeBinaryOperator op).display.toList ++ [' ']
  | .leftParen => ['(']
  | .rightParen => [')']
  | .leftBracket => ['[']
  | .rightBracket => [']']
  | .comma => [',', ' ']
  | .dot => ['.']

/-- The token that a piece stands for. -/
def Piece.kind : Piece → TokenKind
  | .name text => nameToken text
  | .integer value => .integer (toString value)
  | .string value => .string value
  | .bool value => if value then .true else .false
  | .unary op => unaryToken op
  | .binary op => binaryToken op
  | .leftParen => .leftParen
  | .rightParen => .rightParen
  | .leftBracket => .leftBracket
  | .rightBracket => .rightBracket
  | .comma => .comma
  | .dot => .dot

mutual

/-- The pieces that `Display` writes for an expression: no parentheses but those of calls. -/
def Expr.pieces : Expr → List Piece
  | .ident id => [.name id.name]
  | .integer value _ => [.integer value]
  | .string value _ => [.string value]
  | .bool value _ => [.bool value]
  | .array elements _ => .leftBracket :: piecesList elements ++ [.rightBracket]
  | .unary op e _ => .unary op :: e.pieces
  | .binary left op right _ => left.pieces ++ .binary op :: right.pieces
  | .call callee args _ => callee.pieces ++ .leftParen :: piecesList args ++ [.rightParen]
  | .field object field _ => object.pieces ++ [.dot, .name field.name]

def piecesList : List Expr → List Piece
  | [] => []
  | e :: rest => e.pieces ++ if rest.isEmpty then [] else .comma :: piecesList rest

end

attribute [grind =] Expr.pieces piecesList

theorem piecesList_cons (e e₂ : Expr) (es : List Expr) :
    piecesList (e :: e₂ :: es) = e.pieces ++ .comma :: piecesList (e₂ :: es) := by
  rw [piecesList]
  rfl

/-- The path of a callee is its rendering. -/
theorem expressionPath_eq (e : Expr) :
    expressionPath (normalizeExpression e) e = (normalizeExpression e).display := by
  induction e using Expr.induct with
  | field object field span ih =>
    simp only [normalizeExpression, expressionPath, NormalizedExpression.display, ih]
  | _ => simp [normalizeExpression, expressionPath, NormalizedExpression.display]

theorem displayList_toList (es : List Expr)
    (h : ∀ e ∈ es, (normalizeExpression e).display.toList = e.pieces.flatMap Piece.text) :
    (NormalizedExpression.displayList (normalizeAll es)).toList =
      (piecesList es).flatMap Piece.text := by
  induction es with
  | nil => rfl
  | cons e es ih =>
    have he := h e List.mem_cons_self
    have ih := ih fun e' h' => h e' (List.mem_cons_of_mem _ h')
    cases es with
    | nil => simp [normalizeAll, NormalizedExpression.displayList, piecesList, he]
    | cons e₂ es =>
      simp only [normalizeAll, NormalizedExpression.displayList, String.toList_append] at ih ⊢
      rw [he, ih, piecesList_cons]
      simp [Piece.text]

/-- `Display` writes the pieces one after the other. -/
theorem display_toList (e : Expr) :
    (normalizeExpression e).display.toList = e.pieces.flatMap Piece.text := by
  induction e using Expr.induct with
  | ident id => simp [normalizeExpression, NormalizedExpression.display, Expr.pieces, Piece.text]
  | integer value span | string value span | bool value span =>
    simp [normalizeExpression, NormalizedExpression.display, Expr.pieces, Piece.text]
  | array elements span ih =>
    simp [normalizeExpression, NormalizedExpression.display, Expr.pieces, Piece.text,
      displayList_toList elements ih]
  | unary op e span ih =>
    simp [normalizeExpression, NormalizedExpression.display, Expr.pieces, Piece.text, ih]
  | binary left op right span ihl ihr =>
    simp [normalizeExpression, NormalizedExpression.display, Expr.pieces, Piece.text, ihl, ihr]
  | call callee args span ihc iha =>
    simp [normalizeExpression, NormalizedExpression.display, Expr.pieces, Piece.text,
      expressionPath_eq, displayList_toList args iha, ihc]
  | field object field span ih =>
    simp [normalizeExpression, NormalizedExpression.display, Expr.pieces, Piece.text, ih]

/-- A piece that the lexer can have read: a name that is an identifier or a value keyword, a
`u64`. -/
def Piece.Lexable : Piece → Prop
  | .name text => IsWord text.toList ∧ wordKind text = nameToken text
  | .integer value => value ≤ u64Max
  | _ => True

/-- The piece begins an operand. -/
def Piece.starts : Piece → Bool
  | .name _ | .integer _ | .string _ | .bool _ | .unary _ | .leftBracket => true
  | _ => false

/-- The piece ends an operand. -/
def Piece.ends : Piece → Bool
  | .name _ | .integer _ | .string _ | .bool _ | .rightParen | .rightBracket => true
  | _ => false

/-- An operand has to follow the piece. -/
def Piece.awaits : Piece → Bool
  | .unary _ | .binary _ | .comma => true
  | _ => false

/-- No operand follows another directly, and one follows each operator and comma. -/
def Piece.Adjacent (piece following : Piece) : Prop :=
  (piece.ends = true → following.starts = false) ∧ (piece.awaits = true → following.starts = true)

/-- The first piece of an expression begins an operand and the last ends one. -/
structure Operand (pieces : List Piece) : Prop where
  chained : pieces.IsChain Piece.Adjacent
  head : ∃ first rest, pieces = first :: rest ∧ first.starts = true
  last : ∃ front final, pieces = front ++ [final] ∧ final.ends = true

theorem adjacent_of_ends {piece following : Piece} (h : piece.ends = true)
    (hfollowing : following.starts = false) : piece.Adjacent following := by
  cases piece <;> simp_all [Piece.Adjacent, Piece.ends, Piece.awaits]

theorem adjacent_of_starts {piece following : Piece} (h : piece.ends = false)
    (hfollowing : following.starts = true) : piece.Adjacent following := by
  simp [Piece.Adjacent, h, hfollowing]

/-- What continues an expression goes on from its last piece. -/
theorem Operand.append {pieces more : List Piece} (h : Operand pieces) {next : Piece}
    (hmore : (next :: more).IsChain Piece.Adjacent) (hnext : next.starts = false) :
    (pieces ++ next :: more).IsChain Piece.Adjacent := by
  obtain ⟨front, final, rfl, hfinal⟩ := h.last
  apply List.isChain_append.mpr
  refine ⟨h.chained, hmore, ?_⟩
  intro piece hpiece following hfollowing
  obtain rfl : final = piece := by simpa using hpiece
  obtain rfl : next = following := by simpa using hfollowing
  exact adjacent_of_ends hfinal hnext

theorem Operand.cons {pieces : List Piece} (h : Operand pieces) {piece : Piece}
    (hpiece : piece.ends = false) : (piece :: pieces).IsChain Piece.Adjacent := by
  obtain ⟨first, rest, rfl, hfirst⟩ := h.head
  exact List.isChain_cons_cons.mpr ⟨adjacent_of_starts hpiece hfirst, h.chained⟩

theorem operand_single {piece : Piece} (hstarts : piece.starts = true)
    (hends : piece.ends = true) : Operand [piece] :=
  ⟨List.isChain_singleton _, ⟨piece, [], rfl, hstarts⟩, ⟨[], piece, rfl, hends⟩⟩

/-- Commas keep the operands of a list apart. -/
theorem chained_list {es : List Expr} (hes : ∀ e ∈ es, Operand e.pieces) {opening closing : Piece}
    (hopening : opening.ends = false) (hawaits : opening.awaits = true → es ≠ [])
    (hclosing : closing.starts = false) :
    (opening :: piecesList es ++ [closing]).IsChain Piece.Adjacent := by
  induction es generalizing opening with
  | nil =>
    have hfree : opening.awaits = false := by
      by_contra h
      exact hawaits (by simpa using h) rfl
    simp [piecesList, Piece.Adjacent, hopening, hfree]
  | cons e es ih =>
    have he := hes e List.mem_cons_self
    have hcomma (hsome : es ≠ []) : (.comma :: piecesList es ++ [closing]).IsChain Piece.Adjacent :=
      ih (fun e' h' => hes e' (List.mem_cons_of_mem _ h')) rfl fun _ => hsome
    obtain ⟨first, rest, hfirst, hstarts⟩ := he.head
    have hrest : (e.pieces ++ (if es.isEmpty then [] else .comma :: piecesList es) ++
        [closing]).IsChain Piece.Adjacent := by
      cases es with
      | nil => simpa using he.append (List.isChain_singleton closing) hclosing
      | cons e₂ es =>
        have hmore := he.append (hcomma (by simp)) rfl
        simpa using hmore
    rw [piecesList, List.cons_append]
    rw [hfirst] at hrest ⊢
    exact List.isChain_cons_cons.mpr ⟨adjacent_of_starts hopening hstarts, hrest⟩

/-- What `Display` writes for an expression is chained so that every token ends where its piece
does. -/
theorem operand_pieces (e : Expr) : Operand e.pieces := by
  induction e using Expr.induct with
  | ident id => exact operand_single rfl rfl
  | integer value span | string value span | bool value span => exact operand_single rfl rfl
  | array elements span ih =>
    exact ⟨chained_list ih rfl (by simp [Piece.awaits]) rfl, ⟨.leftBracket, _, rfl, rfl⟩,
      ⟨_, .rightBracket, rfl, rfl⟩⟩
  | unary op e span ih =>
    obtain ⟨front, final, hlast, hends⟩ := ih.last
    exact ⟨ih.cons rfl, ⟨.unary op, _, rfl, rfl⟩,
      ⟨.unary op :: front, final, by rw [Expr.pieces, hlast]; rfl, hends⟩⟩
  | binary left op right span ihl ihr =>
    obtain ⟨first, rest, hfirst, hstarts⟩ := ihl.head
    obtain ⟨front, final, hlast, hends⟩ := ihr.last
    refine ⟨ihl.append (ihr.cons rfl) rfl, ⟨first, _, by rw [Expr.pieces, hfirst]; rfl, hstarts⟩,
      ⟨left.pieces ++ .binary op :: front, final, ?_, hends⟩⟩
    rw [Expr.pieces, hlast]
    simp
  | call callee args span ihc iha =>
    obtain ⟨first, rest, hfirst, hstarts⟩ := ihc.head
    refine ⟨?_, ⟨first, _, by rw [Expr.pieces, hfirst]; rfl, hstarts⟩, ⟨_, .rightParen, rfl, rfl⟩⟩
    rw [Expr.pieces, List.append_assoc]
    exact ihc.append (chained_list iha rfl (by simp [Piece.awaits]) rfl) rfl
  | field object field span ih =>
    obtain ⟨first, rest, hfirst, hstarts⟩ := ih.head
    refine ⟨ih.append ?_ rfl, ⟨first, _, by rw [Expr.pieces, hfirst]; rfl, hstarts⟩,
      ⟨object.pieces ++ [.dot], .name field.name, by simp [Expr.pieces], rfl⟩⟩
    simp [Piece.Adjacent, Piece.ends, Piece.awaits]

theorem toString_digits (value : Nat) :
    (toString value).toList ≠ [] ∧ ∀ c ∈ (toString value).toList, c.isDigit = true := by
  have hdigits : (toString value).toList = Nat.toDigits 10 value := Nat.toList_repr
  rw [hdigits]
  exact ⟨Nat.toDigits_ne_nil, fun c hc => Nat.isDigit_of_mem_toDigits (by decide) (by decide) hc⟩

theorem isIdentRest_of_isDigit {c : Char} (h : c.isDigit = true) : isIdentRest c = true := by
  simp [isIdentRest, Char.isAlphanum, h]

/-- A character that an operand of the rendering can begin with. -/
def BeginsOperand (c : Char) : Prop := isBlank c = false ∧ c ≠ '=' ∧ c ≠ '>'

theorem beginsOperand_of_isIdentRest {c : Char} (h : isIdentRest c = true) : BeginsOperand c := by
  refine ⟨?_, ?_, ?_⟩
  · by_contra hblank
    simp only [isBlank, Bool.or_eq_true, beq_iff_eq, Bool.not_eq_false] at hblank
    rcases hblank with (((rfl | rfl) | rfl) | rfl) | rfl <;> exact absurd h (by decide)
  all_goals
    intro heq
    subst heq
    exact absurd h (by decide)

/-- The first character of a piece tells whether an operand begins. -/
theorem Piece.head_text {piece : Piece} (h : piece.Lexable) : ∃ c cs, piece.text = c :: cs ∧
    (piece.starts = true → BeginsOperand c) ∧ (piece.starts = false → isIdentRest c = false) := by
  cases piece with
  | name text =>
    obtain ⟨⟨c, cs, htext, hc, -⟩, -⟩ := h
    refine ⟨c, cs, htext, fun _ => ?_, by simp [starts]⟩
    exact beginsOperand_of_isIdentRest (isIdentRest_of_isIdentStart hc)
  | integer value =>
    obtain ⟨hsome, hdigits⟩ := toString_digits value
    obtain ⟨c, cs, htext⟩ := List.exists_cons_of_ne_nil hsome
    refine ⟨c, cs, htext, fun _ => ?_, by simp [starts]⟩
    exact beginsOperand_of_isIdentRest (isIdentRest_of_isDigit (hdigits c (by rw [htext]; simp)))
  | string value =>
    refine ⟨'"', value.toList.flatMap debugChar ++ ['"'], ?_, ?_, by simp [starts]⟩
    · simp [text, debugString]
    · simp [BeginsOperand, isBlank]
  | bool value =>
    cases value
    · exact ⟨'f', _, rfl, by simp [BeginsOperand, isBlank], by simp [starts]⟩
    · exact ⟨'t', _, rfl, by simp [BeginsOperand, isBlank], by simp [starts]⟩
  | unary op =>
    cases op
    · exact ⟨'!', [], rfl, by simp [BeginsOperand, isBlank], by simp [starts]⟩
    · exact ⟨'-', [], rfl, by simp [BeginsOperand, isBlank], by simp [starts]⟩
  | binary op => exact ⟨' ', _, rfl, by simp [starts], fun _ => by decide⟩
  | leftBracket => exact ⟨'[', [], rfl, by simp [BeginsOperand, isBlank], by simp [starts]⟩
  | leftParen => exact ⟨'(', [], rfl, by simp [starts], fun _ => by decide⟩
  | rightParen => exact ⟨')', [], rfl, by simp [starts], fun _ => by decide⟩
  | rightBracket => exact ⟨']', [], rfl, by simp [starts], fun _ => by decide⟩
  | comma => exact ⟨',', [' '], rfl, by simp [starts], fun _ => by decide⟩
  | dot => exact ⟨'.', [], rfl, by simp [starts], fun _ => by decide⟩

/-- The printed form of a character is a single or an escape of the lexer's string pattern. -/
theorem decodeEscapes_debugChar (ch : Char) (rest : List Char) :
    decodeEscapes (debugChar ch ++ rest) = (ch :: ·) <$> decodeEscapes rest := by
  unfold debugChar
  split
  · rfl
  · rfl
  · rfl
  · rfl
  · rfl
  · simp_all [decodeEscapes]

theorem decodeEscapes_debugString (value : List Char) :
    decodeEscapes (value.flatMap debugChar) = .ok value := by
  induction value with
  | nil => rfl
  | cons ch rest ih => rw [List.flatMap_cons, decodeEscapes_debugChar, ih]; rfl

/-- An escaped character is a pair of the lexer's string pattern, and any other a single. -/
theorem matches_debugString (value : List Char) :
    (Library.bodyRegex (fun c => c != '"' && c != '\\') (· == '\\')
      (fun c => c == '"' || c == '\\' || c == '/' || c == 'n' || c == 'r' || c == 't')).Matches
      (value.flatMap debugChar) := by
  induction value with
  | nil => exact .starNil
  | cons ch rest ih =>
    rw [List.flatMap_cons]
    apply Library.Regex.Matches.starCons _ ih
    unfold debugChar
    split
    all_goals first
      | exact .altRight (@Library.Regex.Matches.seq _ _ ['\\'] [_] (.set rfl) (.set rfl))
      | apply Library.Regex.Matches.altLeft
        apply Library.Regex.Matches.set
        simp_all

theorem munch_string (value : String) (rest : List Char) :
    munch rawRules ((debugString value).toList ++ rest) =
      some (stringRule, (debugString value).toList.length) := by
  have hap : Library.CloseApart (fun c => c != '"' && c != '\\') (· == '\\')
      (fun c => c == '"' || c == '\\' || c == '/' || c == 'n' || c == 'r' || c == 't') '"' [] :=
    ⟨by decide, fun h => by simp at h, fun c hc => by simp at hc; simp [hc.2]⟩
  have hclose := Library.scanClose_body _ _ _ _ _ hap _ rest (matches_debugString value.toList)
  have htext : (debugString value).toList ++ rest =
      '"' :: (value.toList.flatMap debugChar ++ '"' :: [] ++ rest) := by
    simp [debugString]
  have hscan : stringRule.scan ((debugString value).toList ++ rest) =
      some (debugString value).toList.length := by
    rw [htext]
    simp only [stringRule, Rule.delimited, Library.scanDelimited, List.length_singleton,
      List.drop_one, List.tail_cons, hclose]
    simp [debugString]
  rw [htext, munch_quote, ← htext, munch, hscan]
  rfl

/-- The text of a binary operator is one token before a blank. -/
theorem munch_binary (op : BinaryOp) (rest : List Char) :
    ∃ rule, munch rawRules ((normalizeBinaryOperator op).display.toList ++ ' ' :: rest) =
        some (rule, (normalizeBinaryOperator op).display.toList.length) ∧
      rule.action (normalizeBinaryOperator op).display.toList = .ok (some (binaryToken op)) := by
  cases op <;> exact ⟨_, rfl, rfl⟩

section Lexes

variable {source file : String} {rest : List Char} {kinds : List TokenKind}

/-- A blank before an operand or the end is skipped alone. -/
theorem Lexes.blank (h : Lexes source file rest kinds)
    (hrest : ∀ d ∈ rest.head?, isBlank d = false) : Lexes source file (' ' :: rest) kinds := by
  have htake : rest.takeWhile isBlank = [] := by
    cases rest with
    | nil => rfl
    | cons d rest => simp [hrest d rfl]
  have hmunch : munch rawRules ([' '] ++ rest) = some (whitespaceRule, [' '].length) := by
    rw [List.singleton_append, munch_blank, htake]
    rfl
  exact h.skip (by simp) hmunch rfl

theorem Lexes.mark {c : Char} {kind : TokenKind} {text : String} (h : Lexes source file rest kinds)
    (hmunch : munch rawRules (c :: rest) = some (KaspaScript.token text kind, 1)) :
    Lexes source file (c :: rest) (kind :: kinds) := by
  have hslice : munch rawRules ([c] ++ rest) = some (KaspaScript.token text kind, [c].length) :=
    hmunch
  exact h.token (by simp) hslice rfl

theorem Lexes.word (text : String) (h : Lexes source file rest kinds) (hword : IsWord text.toList)
    (hrest : ∀ d ∈ rest.head?, isIdentRest d = false) :
    Lexes source file (text.toList ++ rest) (wordKind text :: kinds) := by
  obtain ⟨rule, hmunch, haction⟩ := munch_word hword hrest
  obtain ⟨c, cs, htext, -⟩ := hword
  rw [String.ofList_toList] at haction
  exact h.token (by simp [htext]) hmunch haction

theorem lexes_piece {piece : Piece} (hpiece : piece.Lexable)
    (hends : piece.ends = true → ∀ d ∈ rest.head?, isIdentRest d = false)
    (hawaits : piece.awaits = true → ∀ d ∈ rest.head?, BeginsOperand d)
    (h : Lexes source file rest kinds) :
    Lexes source file (piece.text ++ rest) (piece.kind :: kinds) := by
  obtain ⟨hleft, hright, hopen, hclose, hcomma, hdot⟩ := munch_mark rest
  cases piece with
  | name text =>
    rw [Piece.kind, ← hpiece.2]
    exact h.word text hpiece.1 (hends rfl)
  | integer value =>
    obtain ⟨hsome, hdigits⟩ := toString_digits value
    have hrest : ∀ d ∈ rest.head?, d.isDigit = false := by
      intro d hd
      by_contra hdigit
      have hident := hends rfl d hd
      rw [isIdentRest_of_isDigit (by simpa using hdigit)] at hident
      cases hident
    have haction : integerRule.action (toString value).toList =
        .ok (some (.integer (String.ofList (toString value).toList))) := rfl
    rw [String.ofList_toList] at haction
    exact h.token hsome (munch_integer hsome hdigits hrest) haction
  | string value =>
    have haction : stringRule.action (debugString value).toList = .ok (some (.string value)) := by
      simp [stringRule, Rule.delimited, decodeString, debugString, decodeEscapes_debugString]
    have hsome : (debugString value).toList ≠ [] := by simp [debugString]
    exact h.token hsome (munch_string value rest) haction
  | bool value =>
    have hfalse : ("false", .false) ∈ wordTokens := by decide
    have htrue : ("true", .true) ∈ wordTokens := by decide
    cases value
    · exact h.word "false" (isWord_of_mem hfalse) (hends rfl)
    · exact h.word "true" (isWord_of_mem htrue) (hends rfl)
  | unary op =>
    cases op with
    | not => exact h.mark (munch_bang fun heq => (hawaits rfl _ heq).2.1 rfl)
    | negate => exact h.mark (munch_minus fun heq => (hawaits rfl _ heq).2.2 rfl)
  | binary op =>
    obtain ⟨rule, hmunch, haction⟩ := munch_binary op rest
    have hblank := h.blank fun d hd => (hawaits rfl d hd).1
    have hop := hblank.token (by cases op <;> decide) hmunch haction
    have hfirst : ∀ d ∈ ((normalizeBinaryOperator op).display.toList ++ ' ' :: rest).head?,
        isBlank d = false := by
      cases op <;> simp [normalizeBinaryOperator, BinaryOperator.display, isBlank]
    simpa [Piece.text, Piece.kind] using hop.blank hfirst
  | comma =>
    have hblank := h.blank fun d hd => (hawaits rfl d hd).1
    exact hblank.mark (munch_mark (' ' :: rest)).2.2.2.2.1
  | leftParen => exact h.mark hleft
  | rightParen => exact h.mark hright
  | leftBracket => exact h.mark hopen
  | rightBracket => exact h.mark hclose
  | dot => exact h.mark hdot

/-- Chained pieces lex to their tokens. -/
theorem lexes_pieces {pieces : List Piece} (hchained : pieces.IsChain Piece.Adjacent)
    (hlexable : ∀ piece ∈ pieces, piece.Lexable) :
    Lexes source file (pieces.flatMap Piece.text) (pieces.map Piece.kind) := by
  induction pieces with
  | nil => exact lexes_nil
  | cons piece pieces ih =>
    have hrest := ih hchained.tail fun other hother => hlexable other (List.mem_cons_of_mem _ hother)
    rw [List.flatMap_cons, List.map_cons]
    cases pieces with
    | nil => exact lexes_piece (hlexable piece (by simp)) (by simp) (by simp) hrest
    | cons next pieces =>
      have hadjacent := (List.isChain_cons_cons.mp hchained).1
      obtain ⟨c, cs, htext, hstarts, hother⟩ := Piece.head_text (hlexable next (by simp))
      apply lexes_piece (hlexable piece (by simp)) _ _ hrest
      · intro hends d hd
        obtain rfl : c = d := by simpa [htext] using hd
        exact hother (hadjacent.1 hends)
      · intro hawaits d hd
        obtain rfl : c = d := by simpa [htext] using hd
        exact hstarts (hadjacent.2 hawaits)

end Lexes

end KaspaScript
