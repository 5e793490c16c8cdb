import KaspaScript.Parser.Progress

namespace KaspaScript

namespace Parser

/-- The kinds of a segment. -/
abbrev kinds (ts : List Token) : List TokenKind := ts.map Token.kind

variable {p : Parser}

theorem nameKind_of_named {token : Token} {id : Ident} (h : Named token id) :
    NameKind id.name token.kind := by
  cases h with
  | identifier hkind => exact .inl hkind
  | keyword hvalue => exact .inr ⟨hvalue, rfl⟩

theorem readsPostfix_atom {token : Token} {e : Expr} (h : Atom token e) :
    ReadsPostfix p e [token.kind] := by
  apply readsPostfix_token
  intro n c rest hahead
  cases h with
  | ident hnamed =>
    obtain ⟨span, hread⟩ := parsePrimary_name (n := n) (nameKind_of_named hnamed) hahead
    exact ⟨.ident ⟨_, span⟩, rfl, hread⟩
  | integer hkind hfits =>
    rw [hkind] at hahead
    obtain ⟨span, hread⟩ := parsePrimary_integer (n := n) hahead rfl hfits
    exact ⟨.integer _ span, rfl, hread⟩
  | string hkind =>
    rw [hkind] at hahead
    obtain ⟨span, hread⟩ := parsePrimary_string (n := n) hahead
    exact ⟨.string _ span, rfl, hread⟩
  | true hkind =>
    rw [hkind] at hahead
    have hbool : p.ahead c = (if true then .true else .false) :: rest := hahead
    obtain ⟨span, hread⟩ := parsePrimary_bool (n := n) hbool
    exact ⟨.bool _ span, rfl, hread⟩
  | false hkind =>
    rw [hkind] at hahead
    have hbool : p.ahead c = (if false then .true else .false) :: rest := hahead
    obtain ⟨span, hread⟩ := parsePrimary_bool (n := n) hbool
    exact ⟨.bool _ span, rfl, hread⟩

theorem Atom.ne {token : Token} {e : Expr} (h : Atom token e) :
    token.kind ≠ .rightParen ∧ token.kind ≠ .rightBracket ∧ token.kind ≠ .bang ∧
      token.kind ≠ .minus := by
  cases h with
  | ident hnamed => exact (nameKind_of_named hnamed).ne
  | integer hkind _ => simp [hkind]
  | string hkind => simp [hkind]
  | true hkind => simp [hkind]
  | false hkind => simp [hkind]

/-- How the parser reads a phrase again, wherever its kinds stand. -/
def Rereads (p : Parser) (ks : List TokenKind) : Phrase → Prop
  | .expr level _ _ e => Reads p e ks level
  | .list es => ReadsList p es ks

/-- Whatever the grammar derives from a segment, the parser reads from its kinds, up to spans. -/
theorem rereads_of_derives {ts : List Token} {phrase : Phrase} (h : Derives ts phrase) :
    Rereads p (kinds ts) phrase := by
  induction h with
  | @atom token e hatom =>
    obtain ⟨hparen, hbracket, hbang, hminus⟩ := Atom.ne hatom
    exact Reads.ofPostfix rfl hparen hbracket hbang hminus (readsPostfix_atom hatom)
  | @paren opening closing ts level first last e hopening hclosing _ ih =>
    have hread : ReadsPostfix p e (.leftParen :: kinds ts ++ [.rightParen]) :=
      Reads.parenthesized ih
    have hkinds : kinds (opening :: (ts ++ [closing])) =
        .leftParen :: kinds ts ++ [.rightParen] := by simp [hopening, hclosing]
    unfold Rereads
    rw [hkinds]
    exact Reads.ofPostfix rfl (by simp) (by simp) (by simp) (by simp) hread
  | @array opening closing ts es hopening hclosing _ ih =>
    have hkinds : kinds (opening :: (ts ++ [closing])) =
        .leftBracket :: kinds ts ++ [.rightBracket] := by simp [hopening, hclosing]
    unfold Rereads
    rw [hkinds]
    exact Reads.ofPostfix rfl (by simp) (by simp) (by simp) (by simp) (readsPostfix_array ih)
  | @call opening closing ts args level first last callee es hlevel hopening hclosing _ _ ihc ih =>
    have hcallee : Reads p callee (kinds ts) level := ihc
    have hkinds : kinds (ts ++ opening :: (args ++ [closing])) =
        kinds ts ++ .leftParen :: kinds args ++ [.rightParen] := by simp [hopening, hclosing]
    obtain ⟨k, tail, hks, hparen, hbracket, hbang, hminus⟩ :=
      hcallee.head_append hlevel (.leftParen :: kinds args ++ [.rightParen])
    unfold Rereads
    rw [hkinds]
    exact Reads.ofPostfix (by rw [List.append_assoc, hks]) hparen hbracket hbang hminus
      (readsPostfix_call (hcallee.atPostfix hlevel) ih)
  | @field dot token ts level first last object field hlevel hdot hnamed _ ih =>
    have hobject : Reads p object (kinds ts) level := ih
    have hkinds : kinds (ts ++ [dot, token]) = kinds ts ++ [.dot, token.kind] := by simp [hdot]
    obtain ⟨k, tail, hks, hparen, hbracket, hbang, hminus⟩ :=
      hobject.head_append hlevel [.dot, token.kind]
    unfold Rereads
    rw [hkinds]
    exact Reads.ofPostfix hks hparen hbracket hbang hminus
      (readsPostfix_field (hobject.atPostfix hlevel) (nameKind_of_named hnamed))
  | @unary op token ts level first last e hkind hlevel _ ih =>
    have he : Reads p e (kinds ts) level := ih
    have hkinds : kinds (token :: ts) = unaryToken op :: kinds ts := by simp [hkind]
    have hunary : ReadsUnary p (.unary op e ⟨token.span.start, e.span.stop⟩)
        (unaryToken op :: kinds ts) := readsUnary_operator (he.atUnary hlevel)
    unfold Rereads
    rw [hkinds]
    refine ⟨⟨unaryToken op, _, rfl, ?_, ?_, by simp⟩, by simp, fun _ => hunary,
      hunary.readsBinary (by simp)⟩
    · cases op <;> simp [unaryToken]
    · cases op <;> simp [unaryToken]
  | @binary op token ls rs level level' first last first' last' left right hkind hlevel hlevel'
      _ _ ihl ihr =>
    have hleft : Reads p left (kinds ls) level := ihl
    have hright : Reads p right (kinds rs) level' := ihr
    have hop := binaryPrecedence_le op
    have hkinds : kinds (ls ++ token :: rs) = kinds ls ++ binaryToken op :: kinds rs := by
      simp [hkind]
    obtain ⟨k, tail, hks, hparen, hbracket, -⟩ := hleft.head
    unfold Rereads
    rw [hkinds]
    refine ⟨⟨k, tail ++ _, by rw [hks]; rfl, hparen, hbracket, ?_⟩, ?_, ?_,
      readsBinary_operator hlevel hlevel' hleft hright⟩
    all_goals
      intro h
      omega
  | nil => exact readsList_nil
  | one _ ih => exact readsList_last ih
  | @more comma ts rest level first last e es hcomma _ _ ihe ihes =>
    have he : Reads p e (kinds ts) level := ihe
    have hkinds : kinds (ts ++ comma :: rest) = kinds ts ++ .comma :: kinds rest := by
      simp [hcomma]
    unfold Rereads
    rw [hkinds]
    exact readsList_more he ihes

/-- The kinds of a derived expression, on their own, are read as it. -/
theorem parseExpression_of_derives {ts : List Token} {level : Nat} {first last : Bool} {e : Expr}
    (h : Derives ts (.expr level first last e)) (hkinds : p.tokens.map Token.kind = kinds ts) :
    ∃ e', e'.erased = e.erased ∧ p.parseExpression 0 = .ok (e', p.tokens.length) := by
  have hread : Reads p e (kinds ts) level := rereads_of_derives h
  have hahead : p.ahead 0 = kinds ts ++ [] := by rw [ahead, List.drop_zero, hkinds, List.append_nil]
  have hlength : (kinds ts).length = p.tokens.length := by rw [← hkinds, List.length_map]
  have hfuel : 8 * (kinds ts).length ≤ p.fuel := by
    rw [hlength, fuel]
    omega
  obtain ⟨e', herased, hok⟩ := hread.parsePrecedence (n := p.fuel) (Nat.zero_le _) hahead
    ⟨by simp, by simp⟩ (by simp [Below]) hfuel
  rw [Nat.zero_add, hlength] at hok
  exact ⟨e', herased, hok⟩

end Parser

end KaspaScript
