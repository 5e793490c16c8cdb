import KaspaScript.Parser.Reread

namespace KaspaScript

namespace Parser

/-- What a token adds to the depth of parentheses. -/
def parenStep : TokenKind → Int
  | .leftParen => 1
  | .rightParen => -1
  | _ => 0

def parenDepth (ks : List TokenKind) : Int := (ks.map parenStep).sum

/-- Every parenthesis that opens closes, and none closes that did not open. -/
structure Balanced (ks : List TokenKind) : Prop where
  closed : parenDepth ks = 0
  opened : ∀ n, 0 ≤ parenDepth (ks.take n)

@[simp] theorem parenDepth_nil : parenDepth [] = 0 := rfl

@[simp] theorem parenDepth_cons (k : TokenKind) (ks : List TokenKind) :
    parenDepth (k :: ks) = parenStep k + parenDepth ks := by
  simp [parenDepth]

@[simp] theorem parenDepth_append (ks ks' : List TokenKind) :
    parenDepth (ks ++ ks') = parenDepth ks + parenDepth ks' := by
  simp [parenDepth]

theorem Balanced.append {ks ks' : List TokenKind} (h : Balanced ks) (h' : Balanced ks') :
    Balanced (ks ++ ks') := by
  constructor
  · rw [parenDepth_append, h.closed, h'.closed, add_zero]
  · intro n
    rw [List.take_append, parenDepth_append]
    exact add_nonneg (h.opened n) (h'.opened _)

theorem balanced_nil : Balanced [] := ⟨rfl, by simp⟩

theorem balanced_single {k : TokenKind} (h : parenStep k = 0) : Balanced [k] := by
  constructor
  · simp [h]
  · intro n
    cases n <;> simp [h]

theorem Balanced.cons {k : TokenKind} {ks : List TokenKind} (hk : parenStep k = 0)
    (h : Balanced ks) : Balanced (k :: ks) :=
  (balanced_single hk).append h

theorem Balanced.enclosed {ks : List TokenKind} (h : Balanced ks) :
    Balanced (.leftParen :: (ks ++ [.rightParen])) := by
  constructor
  · simp [h.closed, parenStep]
  · intro n
    cases n with
    | zero => simp
    | succ n =>
      have hinner := h.opened n
      rw [List.take_succ_cons, parenDepth_cons, List.take_append, parenDepth_append]
      cases hlast : n - ks.length with
      | zero =>
        rw [List.take_zero, parenDepth_nil, parenStep]
        omega
      | succ m =>
        rw [List.take_succ_cons, List.take_nil]
        simp only [parenDepth_cons, parenDepth_nil, parenStep]
        omega

theorem parenStep_of_named {token : Token} {id : Ident} (h : Named token id) :
    parenStep token.kind = 0 := by
  cases h with
  | identifier hkind => rw [hkind]; rfl
  | keyword hvalue => cases hkind : token.kind <;> simp_all [isValueKeyword, parenStep]

theorem parenStep_of_atom {token : Token} {e : Expr} (h : Atom token e) :
    parenStep token.kind = 0 := by
  cases h with
  | ident hnamed => exact parenStep_of_named hnamed
  | integer hkind _ => rw [hkind]; rfl
  | string hkind => rw [hkind]; rfl
  | true hkind => rw [hkind]; rfl
  | false hkind => rw [hkind]; rfl

theorem parenStep_binaryToken (op : BinaryOp) : parenStep (binaryToken op) = 0 := by
  cases op <;> rfl

theorem parenStep_unaryToken (op : UnaryOp) : parenStep (unaryToken op) = 0 := by
  cases op <;> rfl

/-- Whatever the grammar derives has its parentheses in pairs. -/
theorem balanced_of_derives {ts : List Token} {phrase : Phrase} (h : Derives ts phrase) :
    Balanced (kinds ts) := by
  induction h with
  | atom hatom => exact balanced_single (parenStep_of_atom hatom)
  | @paren opening closing ts _ _ _ _ hopening hclosing _ ih =>
    have hkinds : kinds (opening :: (ts ++ [closing])) =
        .leftParen :: (kinds ts ++ [.rightParen]) := by simp [hopening, hclosing]
    rw [hkinds]
    exact ih.enclosed
  | @array opening closing ts _ hopening hclosing _ ih =>
    have hkinds : kinds (opening :: (ts ++ [closing])) =
        .leftBracket :: (kinds ts ++ [.rightBracket]) := by simp [hopening, hclosing]
    rw [hkinds]
    exact (ih.append (balanced_single rfl)).cons rfl
  | @call opening closing ts args _ _ _ _ _ _ hopening hclosing _ _ ihc ih =>
    have hkinds : kinds (ts ++ opening :: (args ++ [closing])) =
        kinds ts ++ .leftParen :: (kinds args ++ [.rightParen]) := by simp [hopening, hclosing]
    rw [hkinds]
    exact ihc.append ih.enclosed
  | @field dot token ts _ _ _ _ _ _ hdot hnamed _ ih =>
    have hkinds : kinds (ts ++ [dot, token]) = kinds ts ++ [.dot, token.kind] := by simp [hdot]
    have hname : Balanced [.dot, token.kind] :=
      (balanced_single (parenStep_of_named hnamed)).cons rfl
    rw [hkinds]
    exact ih.append hname
  | @unary op token ts _ _ _ _ hkind _ _ ih =>
    have hkinds : kinds (token :: ts) = unaryToken op :: kinds ts := by simp [hkind]
    rw [hkinds]
    exact ih.cons (parenStep_unaryToken op)
  | @binary op token ls rs _ _ _ _ _ _ _ _ hkind _ _ _ _ ihl ihr =>
    have hkinds : kinds (ls ++ token :: rs) = kinds ls ++ binaryToken op :: kinds rs := by
      simp [hkind]
    rw [hkinds]
    exact ihl.append (ihr.cons (parenStep_binaryToken op))
  | nil => exact balanced_nil
  | one _ ih => exact ih
  | @more comma ts rest _ _ _ _ _ hcomma _ _ ihe ihes =>
    have hkinds : kinds (ts ++ comma :: rest) = kinds ts ++ .comma :: kinds rest := by
      simp [hcomma]
    rw [hkinds]
    exact ihe.append (ihes.cons rfl)

/-- The span reaches from the start of the first token to the end of the last one. -/
def Reaches (ts : List Token) (span : Span) : Prop :=
  ∃ first last, ts.head? = some first ∧ ts.getLast? = some last ∧
    span = ⟨first.span.start, last.span.stop⟩

/-- The tokens that an expression's span covers, between the parentheses that it leaves out: they
are a derivation of the expression, with no operand in parentheses first or last, or their
parentheses do not pair up. -/
structure Cored (ts opens core closes : List Token) (first last : Bool) (e : Expr) : Prop where
  split : ts = opens ++ core ++ closes
  reaches : Reaches core e.span
  opening : ∀ token ∈ opens, token.kind = .leftParen
  closing : ∀ token ∈ closes, token.kind = .rightParen
  first : first = true ↔ opens ≠ []
  last : last = true ↔ closes ≠ []
  whole : (∃ level, Derives core (.expr level false false e)) ∨ ¬ Balanced (kinds core)

theorem parenDepth_opens {opens : List Token} (h : ∀ token ∈ opens, token.kind = .leftParen) :
    parenDepth (kinds opens) = opens.length := by
  induction opens with
  | nil => rfl
  | cons token opens ih =>
    obtain ⟨htoken, hopens⟩ := List.forall_mem_cons.mp h
    have hdepth : parenDepth (kinds (token :: opens)) = 1 + parenDepth (kinds opens) := by
      simp [htoken, parenStep]
    rw [hdepth, ih hopens, List.length_cons]
    omega

theorem parenDepth_closes {closes : List Token} (h : ∀ token ∈ closes, token.kind = .rightParen) :
    parenDepth (kinds closes) = -closes.length := by
  induction closes with
  | nil => rfl
  | cons token closes ih =>
    obtain ⟨htoken, hcloses⟩ := List.forall_mem_cons.mp h
    have hdepth : parenDepth (kinds (token :: closes)) = -1 + parenDepth (kinds closes) := by
      simp [htoken, parenStep]
    rw [hdepth, ih hcloses, List.length_cons]
    omega

/-- Without the parentheses at an end the rest does not pair up; with both ends missing it has to
be seen to close too early. -/
theorem whole_or_unbalanced {ts opens core closes : List Token} {level : Nat} {first last : Bool}
    {e : Expr} (h : Derives ts (.expr level first last e)) (hsplit : ts = opens ++ core ++ closes)
    (hopening : ∀ token ∈ opens, token.kind = .leftParen)
    (hclosing : ∀ token ∈ closes, token.kind = .rightParen)
    (hfirst : first = true ↔ opens ≠ []) (hlast : last = true ↔ closes ≠ [])
    (hearly : opens = [] ∨ closes = [] ∨ ∃ n, parenDepth ((kinds core).take n) < 0) :
    (∃ level, Derives core (.expr level false false e)) ∨ ¬ Balanced (kinds core) := by
  by_cases hnone : opens = [] ∧ closes = []
  · obtain ⟨rfl, rfl⟩ := hnone
    have hfalse : first = false ∧ last = false := by simpa using And.intro hfirst hlast
    obtain ⟨rfl, rfl⟩ := hfalse
    rw [List.nil_append, List.append_nil] at hsplit
    exact .inl ⟨level, hsplit ▸ h⟩
  · right
    intro hbalanced
    have hwhole := (balanced_of_derives h).closed
    have hkinds : kinds ts = kinds opens ++ kinds core ++ kinds closes := by simp [hsplit]
    rw [hkinds, parenDepth_append, parenDepth_append, parenDepth_opens hopening,
      parenDepth_closes hclosing, hbalanced.closed] at hwhole
    have hsame : opens.length = closes.length := by omega
    rcases hearly with rfl | rfl | hdeep
    · exact hnone ⟨rfl, List.eq_nil_of_length_eq_zero hsame.symm⟩
    · exact hnone ⟨List.eq_nil_of_length_eq_zero hsame, rfl⟩
    · obtain ⟨n, hn⟩ := hdeep
      exact absurd (hbalanced.opened n) (not_le_of_gt hn)

theorem Reaches.extended {ts rest : List Token} {span : Span} {token : Token}
    (h : Reaches ts span) (hlast : (ts ++ rest).getLast? = some token) :
    Reaches (ts ++ rest) ⟨span.start, token.span.stop⟩ := by
  obtain ⟨first, last, hfirst, _, rfl⟩ := h
  have hne : ts ≠ [] := by
    rintro rfl
    simp at hfirst
  exact ⟨first, token, by rw [List.head?_append_of_ne_nil _ hne, hfirst], hlast, rfl⟩

theorem Reaches.preceded {ts : List Token} {span : Span} (token : Token) (h : Reaches ts span) :
    Reaches (token :: ts) ⟨token.span.start, span.stop⟩ := by
  obtain ⟨first, last, _, hlast, rfl⟩ := h
  refine ⟨token, last, rfl, ?_, rfl⟩
  rw [List.getLast?_cons, hlast]
  rfl

theorem Reaches.between {ls ms rs : List Token} {left right : Span} (hl : Reaches ls left)
    (hr : Reaches rs right) : Reaches (ls ++ ms ++ rs) ⟨left.start, right.stop⟩ := by
  obtain ⟨_, last, _, hlast, rfl⟩ := hr
  have hne : rs ≠ [] := by
    rintro rfl
    simp at hlast
  rw [List.append_assoc]
  refine hl.extended ?_
  rw [← List.append_assoc, List.getLast?_append_of_ne_nil _ hne, hlast]

theorem reaches_single (token : Token) : Reaches [token] token.span :=
  ⟨token, token, rfl, rfl, rfl⟩

theorem getLast?_enclosed (ts : List Token) (opening closing : Token) :
    (opening :: (ts ++ [closing])).getLast? = some closing := by
  rw [← List.cons_append, List.getLast?_concat]

/-- An expression that shows both its ends is its own core. -/
theorem cored_self {ts : List Token} {level : Nat} {e : Expr}
    (h : Derives ts (.expr level false false e)) (hreaches : Reaches ts e.span) :
    Cored ts [] ts [] false false e where
  split := by simp
  reaches := hreaches
  opening := by simp
  closing := by simp
  first := by simp
  last := by simp
  whole := .inl ⟨level, h⟩

/-- What the span of a phrase covers. -/
def Phrase.Cored (ts : List Token) : Phrase → Prop
  | .expr _ first last e => ∃ opens core closes, Parser.Cored ts opens core closes first last e
  | .list _ => True

/-- Every derived expression has a core. -/
theorem cored_of_derives {ts : List Token} {phrase : Phrase} (h : Derives ts phrase) :
    Phrase.Cored ts phrase := by
  induction h with
  | @atom token e hatom =>
    refine ⟨[], _, [], cored_self (.atom hatom) ?_⟩
    rw [hatom.span]
    exact reaches_single token
  | @paren opening closing ts level first last e hopening hclosing _ ih =>
    obtain ⟨opens, core, closes, hcore⟩ := ih
    refine ⟨opening :: opens, core, closes ++ [closing], ?_⟩
    constructor
    · simp [hcore.split]
    · exact hcore.reaches
    · exact List.forall_mem_cons.mpr ⟨hopening, hcore.opening⟩
    · exact List.forall_mem_append.mpr ⟨hcore.closing, List.forall_mem_singleton.mpr hclosing⟩
    · simp
    · simp
    · exact hcore.whole
  | @array opening closing ts es hopening hclosing hes _ =>
    refine ⟨[], _, [], cored_self (.array hopening hclosing hes) ?_⟩
    exact (reaches_single opening).extended (getLast?_enclosed ts opening closing)
  | @call opening closing ts args level first last callee es hlevel hopening hclosing hcallee hes
      ihc _ =>
    obtain ⟨opens, core, closes, hcore⟩ := ihc
    have hsplit : ts ++ opening :: (args ++ [closing]) =
        opens ++ (core ++ (closes ++ opening :: (args ++ [closing]))) ++ [] := by
      simp [hcore.split]
    have hlast : (core ++ (closes ++ opening :: (args ++ [closing]))).getLast? =
        some closing := by simp [getLast?_enclosed]
    refine ⟨opens, _, [], hsplit, hcore.reaches.extended hlast, hcore.opening, by simp,
      hcore.first, by simp, ?_⟩
    exact whole_or_unbalanced (.call hlevel hopening hclosing hcallee hes) hsplit hcore.opening
      (by simp) hcore.first (by simp) (.inr (.inl rfl))
  | @field dot token ts level first last object field hlevel hdot hnamed hobject ih =>
    obtain ⟨opens, core, closes, hcore⟩ := ih
    have hsplit : ts ++ [dot, token] = opens ++ (core ++ (closes ++ [dot, token])) ++ [] := by
      simp [hcore.split]
    have hlast : (core ++ (closes ++ [dot, token])).getLast? = some token := by simp
    have hreaches : Reaches (core ++ (closes ++ [dot, token]))
        ⟨object.span.start, field.span.stop⟩ := by
      rw [hnamed.span]
      exact hcore.reaches.extended hlast
    refine ⟨opens, _, [], hsplit, hreaches, hcore.opening, by simp, hcore.first, by simp, ?_⟩
    exact whole_or_unbalanced (.field hlevel hdot hnamed hobject) hsplit hcore.opening (by simp)
      hcore.first (by simp) (.inr (.inl rfl))
  | @unary op token ts level first last e hkind hlevel he ih =>
    obtain ⟨opens, core, closes, hcore⟩ := ih
    have hsplit : token :: ts = [] ++ (token :: (opens ++ core)) ++ closes := by
      simp [hcore.split]
    have hreaches : Reaches (token :: (opens ++ core)) ⟨token.span.start, e.span.stop⟩ :=
      (reaches_single token).between hcore.reaches
    refine ⟨[], _, closes, hsplit, hreaches, by simp, hcore.closing, by simp, hcore.last, ?_⟩
    exact whole_or_unbalanced (.unary hkind hlevel he) hsplit (by simp) hcore.closing (by simp)
      hcore.last (.inl rfl)
  | @binary op token ls rs level level' first last first' last' left right hkind hlevel hlevel'
      hleft hright ihl ihr =>
    obtain ⟨opens, core, closes, hcore⟩ := ihl
    obtain ⟨opens', core', closes', hcore'⟩ := ihr
    have hsplit : ls ++ token :: rs =
        opens ++ (core ++ (closes ++ token :: opens') ++ core') ++ closes' := by
      simp [hcore.split, hcore'.split]
    refine ⟨opens, _, closes', hsplit, hcore.reaches.between hcore'.reaches, hcore.opening,
      hcore'.closing, hcore.first, hcore'.last, ?_⟩
    refine whole_or_unbalanced (.binary hkind hlevel hlevel' hleft hright) hsplit hcore.opening
      hcore'.closing hcore.first hcore'.last ?_
    by_cases hopens : opens = []
    · exact .inl hopens
    -- the left operand closes what the core did not open
    · refine .inr (.inr ⟨(kinds (core ++ closes)).length, ?_⟩)
      have hfront : (kinds (core ++ (closes ++ token :: opens') ++ core')).take
          (kinds (core ++ closes)).length = kinds (core ++ closes) := by
        have hkinds : kinds (core ++ (closes ++ token :: opens') ++ core') =
            kinds (core ++ closes) ++ kinds (token :: opens' ++ core') := by simp
        rw [hkinds, List.take_left]
      have hwhole := (balanced_of_derives hleft).closed
      have hkinds : kinds ls = kinds opens ++ kinds (core ++ closes) := by simp [hcore.split]
      rw [hkinds, parenDepth_append, parenDepth_opens hcore.opening] at hwhole
      have hsome : 0 < opens.length := List.length_pos_of_ne_nil hopens
      rw [hfront]
      omega
  | nil => trivial
  | one _ _ => trivial
  | more _ _ _ _ _ => trivial

end Parser

end KaspaScript
