import KaspaScript.Library.Cursor
import KaspaScript.Parser.Printed

namespace KaspaScript

/-- The token is a name: an identifier, or a value keyword. -/
inductive Named (token : Token) : Ident → Prop
  | identifier {name} : token.kind = .identifier name → Named token ⟨name, token.span⟩
  | keyword : isValueKeyword token.kind = true → Named token ⟨tokenText token.kind, token.span⟩

/-- The token is an expression of its own. -/
inductive Atom (token : Token) : Expr → Prop
  | ident {id} : Named token id → Atom token (.ident id)
  | integer {text} : token.kind = .integer text → Parser.decimalValue text ≤ u64Max →
      Atom token (.integer (Parser.decimalValue text) token.span)
  | string {value} : token.kind = .string value → Atom token (.string value token.span)
  | true : token.kind = .true → Atom token (.bool true token.span)
  | false : token.kind = .false → Atom token (.bool false token.span)

/-- What a segment of the tokens can be: an expression that binds at `level`, or the inside of an
argument or element list. The flags tell whether an operand in parentheses stands first or last;
the tree keeps no trace of them. -/
inductive Phrase where
  | expr (level : Nat) (first last : Bool) (e : Expr)
  | list (es : List Expr)

/-- The grammar of expressions, with the spans that the parser gives to its nodes. -/
inductive Derives : List Token → Phrase → Prop
  | atom {token e} : Atom token e → Derives [token] (.expr 9 false false e)
  | paren {opening closing : Token} {ts level first last e} : opening.kind = .leftParen →
      closing.kind = .rightParen → Derives ts (.expr level first last e) →
      Derives (opening :: (ts ++ [closing])) (.expr 9 true true e)
  | array {opening closing : Token} {ts es} : opening.kind = .leftBracket →
      closing.kind = .rightBracket → Derives ts (.list es) →
      Derives (opening :: (ts ++ [closing]))
        (.expr 9 false false (.array es ⟨opening.span.start, closing.span.stop⟩))
  | call {opening closing : Token} {ts args level first last callee es} : 8 ≤ level →
      opening.kind = .leftParen → closing.kind = .rightParen →
      Derives ts (.expr level first last callee) → Derives args (.list es) →
      Derives (ts ++ opening :: (args ++ [closing]))
        (.expr 8 first false (.call callee es ⟨callee.span.start, closing.span.stop⟩))
  | field {dot token : Token} {ts level first last object field} : 8 ≤ level → dot.kind = .dot →
      Named token field → Derives ts (.expr level first last object) →
      Derives (ts ++ [dot, token])
        (.expr 8 first false (.field object field ⟨object.span.start, field.span.stop⟩))
  | unary {op token ts level first last e} : token.kind = unaryToken op → 7 ≤ level →
      Derives ts (.expr level first last e) →
      Derives (token :: ts) (.expr 7 false last (.unary op e ⟨token.span.start, e.span.stop⟩))
  | binary {op token ls rs level level' first last first' last' left right} :
      token.kind = binaryToken op → binaryPrecedence op ≤ level →
      binaryPrecedence op + 1 ≤ level' → Derives ls (.expr level first last left) →
      Derives rs (.expr level' first' last' right) →
      Derives (ls ++ token :: rs)
        (.expr (binaryPrecedence op) first last'
          (.binary left op right ⟨left.span.start, right.span.stop⟩))
  | nil : Derives [] (.list [])
  | one {ts level first last e} : Derives ts (.expr level first last e) → Derives ts (.list [e])
  | more {comma : Token} {ts rest level first last e es} : comma.kind = .comma →
      Derives ts (.expr level first last e) → Derives rest (.list es) →
      Derives (ts ++ comma :: rest) (.list (e :: es))

def Expr.ownSpans : Expr → List Span
  | .field _ name span => [span, name.span]
  | e => [e.span]

/-- The spans that a diagnostic can point at: those of the nodes and of the field names. -/
def Expr.spans (e : Expr) : List Span := e.nodes.flatMap Expr.ownSpans

theorem span_mem_spans (e : Expr) : e.span ∈ e.spans := by
  apply List.mem_flatMap.mpr
  refine ⟨e, e.mem_nodes_self, ?_⟩
  cases e <;> simp [Expr.ownSpans, Expr.span]

theorem mem_spans_allNodes {es : List Expr} {span : Span} :
    span ∈ (allNodes es).flatMap Expr.ownSpans ↔ ∃ e ∈ es, span ∈ e.spans := by
  induction es with
  | nil => simp [allNodes]
  | cons e es ih => rw [allNodes, List.flatMap_append, List.mem_append, ih]; simp [Expr.spans]

theorem mem_spans_array {es : List Expr} {own span : Span} :
    span ∈ (Expr.array es own).spans ↔ span = own ∨ ∃ e ∈ es, span ∈ e.spans := by
  rw [← mem_spans_allNodes]
  simp [Expr.spans, Expr.nodes, Expr.ownSpans, Expr.span]

theorem mem_spans_unary {op : UnaryOp} {e : Expr} {own span : Span} :
    span ∈ (Expr.unary op e own).spans ↔ span = own ∨ span ∈ e.spans := by
  simp [Expr.spans, Expr.nodes, Expr.ownSpans, Expr.span]

theorem mem_spans_binary {left right : Expr} {op : BinaryOp} {own span : Span} :
    span ∈ (Expr.binary left op right own).spans ↔
      span = own ∨ span ∈ left.spans ∨ span ∈ right.spans := by
  simp [Expr.spans, Expr.nodes, Expr.ownSpans, Expr.span]

theorem mem_spans_call {callee : Expr} {args : List Expr} {own span : Span} :
    span ∈ (Expr.call callee args own).spans ↔
      span = own ∨ span ∈ callee.spans ∨ ∃ e ∈ args, span ∈ e.spans := by
  rw [← mem_spans_allNodes]
  simp [Expr.spans, Expr.nodes, Expr.ownSpans, Expr.span]

theorem mem_spans_field {object : Expr} {field : Ident} {own span : Span} :
    span ∈ (Expr.field object field own).spans ↔
      span = own ∨ span = field.span ∨ span ∈ object.spans := by
  simp [Expr.spans, Expr.nodes, Expr.ownSpans]

/-- A span starts where one of the tokens does. -/
def Marks (tokens : List Token) (span : Span) : Prop :=
  ∃ token ∈ tokens, token.span.start = span.start

theorem Marks.mono {tokens tokens' : List Token} {span : Span} (h : Marks tokens span)
    (hsub : tokens ⊆ tokens') : Marks tokens' span := by
  obtain ⟨token, htoken, hstart⟩ := h
  exact ⟨token, hsub htoken, hstart⟩

theorem Named.span {token : Token} {id : Ident} (h : Named token id) : id.span = token.span := by
  cases h <;> rfl

theorem Atom.span {token : Token} {e : Expr} (h : Atom token e) : e.span = token.span := by
  cases h with
  | ident hnamed => exact hnamed.span
  | _ => rfl

theorem mem_spans_atom {token : Token} {e : Expr} (h : Atom token e) {span : Span} :
    span ∈ e.spans ↔ span = token.span := by
  cases h with
  | ident hnamed => simp [Expr.spans, Expr.nodes, Expr.ownSpans, Expr.span, hnamed.span]
  | _ => simp [Expr.spans, Expr.nodes, Expr.ownSpans, Expr.span]

def Phrase.exprs : Phrase → List Expr
  | .expr _ _ _ e => [e]
  | .list es => es

theorem Named.marks {token : Token} {id : Ident} (h : Named token id) {tokens : List Token}
    (hmem : token ∈ tokens) : Marks tokens id.span :=
  ⟨token, hmem, by rw [h.span]⟩

/-- Every span of a derived expression starts at one of its tokens. -/
theorem marks_of_derives {ts : List Token} {phrase : Phrase} (h : Derives ts phrase) :
    ∀ e ∈ phrase.exprs, ∀ span ∈ e.spans, Marks ts span := by
  induction h with
  | @atom token e hatom =>
    intro e' he' span hspan
    obtain rfl := List.mem_singleton.mp he'
    exact ⟨token, by simp, by rw [(mem_spans_atom hatom).mp hspan]⟩
  | @paren opening closing ts level first last e _ _ _ ih =>
    intro e' he' span hspan
    exact (ih e' he' span hspan).mono (by grind)
  | @array opening closing ts es _ _ _ ih =>
    intro e' he' span hspan
    obtain rfl := List.mem_singleton.mp he'
    rcases mem_spans_array.mp hspan with rfl | hinner
    · exact ⟨opening, by simp, rfl⟩
    · obtain ⟨e, he, hspan⟩ := hinner
      exact (ih e he span hspan).mono (by grind)
  | @call opening closing ts args level first last callee es _ _ _ _ _ ihc ih =>
    intro e' he' span hspan
    obtain rfl := List.mem_singleton.mp he'
    rcases mem_spans_call.mp hspan with rfl | hcallee | hinner
    · obtain ⟨token, htoken, hstart⟩ :=
        ihc callee (by simp [Phrase.exprs]) _ (span_mem_spans callee)
      exact ⟨token, by simp [htoken], hstart⟩
    · exact (ihc callee (by simp [Phrase.exprs]) span hcallee).mono (by grind)
    · obtain ⟨e, he, hspan⟩ := hinner
      exact (ih e he span hspan).mono (by grind)
  | @field dot token ts level first last object field _ _ hnamed _ ih =>
    intro e' he' span hspan
    obtain rfl := List.mem_singleton.mp he'
    rcases mem_spans_field.mp hspan with rfl | rfl | hobject
    · obtain ⟨token, htoken, hstart⟩ :=
        ih object (by simp [Phrase.exprs]) _ (span_mem_spans object)
      exact ⟨token, by simp [htoken], hstart⟩
    · exact hnamed.marks (by simp)
    · exact (ih object (by simp [Phrase.exprs]) span hobject).mono (by grind)
  | @unary op token ts level first last e _ _ _ ih =>
    intro e' he' span hspan
    obtain rfl := List.mem_singleton.mp he'
    rcases mem_spans_unary.mp hspan with rfl | hinner
    · exact ⟨token, by simp, rfl⟩
    · exact (ih e (by simp [Phrase.exprs]) span hinner).mono (by grind)
  | @binary op token ls rs level level' first last first' last' left right _ _ _ _ _ ihl ihr =>
    intro e' he' span hspan
    obtain rfl := List.mem_singleton.mp he'
    rcases mem_spans_binary.mp hspan with rfl | hleft | hright
    · obtain ⟨token, htoken, hstart⟩ :=
        ihl left (by simp [Phrase.exprs]) _ (span_mem_spans left)
      exact ⟨token, by simp [htoken], hstart⟩
    · exact (ihl left (by simp [Phrase.exprs]) span hleft).mono (by grind)
    · exact (ihr right (by simp [Phrase.exprs]) span hright).mono (by grind)
  | nil =>
    intro e he
    cases he
  | one _ ih => exact ih
  | @more comma ts rest level first last e es _ _ _ ihe ihes =>
    intro e' he' span hspan
    rcases List.mem_cons.mp he' with rfl | he'
    · exact (ihe e' (by simp [Phrase.exprs]) span hspan).mono (by grind)
    · exact (ihes e' he' span hspan).mono (by grind)

/-- An expression takes at least one token. -/
theorem length_pos_of_derives {ts : List Token} {level : Nat} {first last : Bool} {e : Expr}
    (h : Derives ts (.expr level first last e)) : 0 < ts.length := by
  obtain ⟨token, htoken, _⟩ := marks_of_derives h e (by simp [Phrase.exprs]) _ (span_mem_spans e)
  exact List.length_pos_of_mem htoken

end KaspaScript
