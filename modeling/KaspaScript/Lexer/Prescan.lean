import KaspaScript.Lexer.Lexing

namespace KaspaScript

/-- What stands between two quotes on one line; a backslash takes the next character with it. -/
inductive Quoted : List Char → Prop
  | nil : Quoted []
  | plain {c rest} : c ≠ '"' → c ≠ '\\' → c ≠ '\n' → Quoted rest → Quoted (c :: rest)
  | escaped {c rest} : Quoted rest → Quoted ('\\' :: c :: rest)

/-- A text whose quotes pair up, whether they belong to strings or stand in comments. -/
inductive QuotesPair : List Char → Prop
  | nil : QuotesPair []
  | plain {c rest} : c ≠ '"' → QuotesPair rest → QuotesPair (c :: rest)
  | quoted {body rest} : Quoted body → QuotesPair rest → QuotesPair ('"' :: (body ++ '"' :: rest))

/-- A text in which every slash-star is closed by the next star-slash, whether they belong to
block comments or stand in strings and line comments. -/
inductive CommentsClose : List Char → Prop
  | nil : CommentsClose []
  | plain {c rest} : ¬ ['/', '*'] <+: c :: rest → CommentsClose rest → CommentsClose (c :: rest)
  | comment {body rest} : ¬ ['*', '/'] <:+: body ++ ['*'] → CommentsClose rest →
      CommentsClose ('/' :: '*' :: (body ++ '*' :: '/' :: rest))

/-- The rest of a string and what follows it. -/
def ClosesQuote (text : List Char) : Prop :=
  ∃ body rest, text = body ++ '"' :: rest ∧ Quoted body ∧ QuotesPair rest

theorem quotesPair_quote {text : List Char} : QuotesPair ('"' :: text) ↔ ClosesQuote text := by
  constructor
  · intro h
    cases h with
    | plain hc _ => exact absurd rfl hc
    | quoted hbody hrest => exact ⟨_, _, rfl, hbody, hrest⟩
  · intro h
    obtain ⟨body, rest, rfl, hbody, hrest⟩ := h
    exact .quoted hbody hrest

theorem quotesPair_plain {c : Char} {text : List Char} (hc : c ≠ '"') :
    QuotesPair (c :: text) ↔ QuotesPair text := by
  constructor
  · intro h
    cases h with
    | plain _ hrest => exact hrest
    | quoted _ _ => exact absurd rfl hc
  · exact .plain hc

theorem closesQuote_quote {text : List Char} : ClosesQuote ('"' :: text) ↔ QuotesPair text := by
  constructor
  · intro h
    obtain ⟨body, rest, htext, hbody, hrest⟩ := h
    cases hbody with
    | nil =>
      obtain ⟨_, rfl⟩ := List.cons.inj htext
      exact hrest
    | plain hc _ _ _ => exact absurd (List.cons.inj htext).1.symm hc
    | escaped _ => exact absurd (List.cons.inj htext).1 (by decide)
  · intro h
    exact ⟨[], text, rfl, .nil, h⟩

theorem not_closesQuote_newline {text : List Char} : ¬ ClosesQuote ('\n' :: text) := by
  intro h
  obtain ⟨body, rest, htext, hbody, _⟩ := h
  cases hbody with
  | nil => exact absurd (List.cons.inj htext).1 (by decide)
  | plain _ _ hc _ => exact absurd (List.cons.inj htext).1.symm hc
  | escaped _ => exact absurd (List.cons.inj htext).1 (by decide)

theorem closesQuote_escaped {c : Char} {text : List Char} :
    ClosesQuote ('\\' :: c :: text) ↔ ClosesQuote text := by
  constructor
  · intro h
    obtain ⟨body, rest, htext, hbody, hrest⟩ := h
    cases hbody with
    | nil => exact absurd (List.cons.inj htext).1 (by decide)
    | plain _ hc _ _ => exact absurd (List.cons.inj htext).1.symm hc
    | @escaped _ inner hinner =>
      obtain ⟨_, htail⟩ := List.cons.inj htext
      exact ⟨inner, rest, (List.cons.inj htail).2, hinner, hrest⟩
  · intro h
    obtain ⟨body, rest, rfl, hbody, hrest⟩ := h
    exact ⟨'\\' :: c :: body, rest, rfl, .escaped hbody, hrest⟩

theorem not_closesQuote_backslash : ¬ ClosesQuote ['\\'] := by
  intro h
  obtain ⟨body, rest, htext, hbody, _⟩ := h
  cases hbody with
  | nil => exact absurd (List.cons.inj htext).1 (by decide)
  | plain _ hc _ _ => exact absurd (List.cons.inj htext).1.symm hc
  | escaped _ => simp at htext

theorem closesQuote_plain {c : Char} {text : List Char} (hquote : c ≠ '"') (hslash : c ≠ '\\')
    (hline : c ≠ '\n') : ClosesQuote (c :: text) ↔ ClosesQuote text := by
  constructor
  · intro h
    obtain ⟨body, rest, htext, hbody, hrest⟩ := h
    cases hbody with
    | nil => exact absurd (List.cons.inj htext).1 hquote
    | @plain _ inner _ _ _ hinner => exact ⟨inner, rest, (List.cons.inj htext).2, hinner, hrest⟩
    | escaped _ => exact absurd (List.cons.inj htext).1 hslash
  · intro h
    obtain ⟨body, rest, rfl, hbody, hrest⟩ := h
    exact ⟨c :: body, rest, rfl, .plain hquote hslash hline hbody, hrest⟩

/-- The scan for strings accepts a text exactly when its quotes pair up; the three parts are its
states: outside, in a string, and behind a backslash there. -/
theorem openString_iff (text : List Char) (offset start : Nat) (escaped : Bool) :
    (openString text offset none escaped = none ↔ QuotesPair text) ∧
    (openString text offset (some start) false = none ↔ ClosesQuote text) ∧
    (openString text offset (some start) true = none ↔ ClosesQuote ('\\' :: text)) := by
  induction text generalizing offset start escaped with
  | nil =>
    refine ⟨iff_of_true rfl .nil, iff_of_false (by simp [openString]) ?_,
      iff_of_false (by simp [openString]) not_closesQuote_backslash⟩
    intro h
    obtain ⟨body, rest, htext, _⟩ := h
    simp at htext
  | cons c text ih =>
    obtain ⟨hout, hin, hbehind⟩ := ih (offset + c.utf8Size) start false
    refine ⟨?_, ?_, ?_⟩
    · rw [openString]
      by_cases hc : c = '"'
      · rw [if_pos hc, hc, quotesPair_quote]
        exact (ih _ _ false).2.1
      · rw [if_neg hc, quotesPair_plain hc]
        exact hout
    · by_cases hslash : c = '\\'
      · subst hslash
        exact hbehind
      · by_cases hquote : c = '"'
        · subst hquote
          rw [closesQuote_quote]
          exact hout
        · by_cases hline : c = '\n'
          · subst hline
            exact iff_of_false (by simp [openString]) not_closesQuote_newline
          · rw [closesQuote_plain hquote hslash hline, ← hin, openString]
            · exact hslash
            · exact hquote
            · exact hline
    · rw [closesQuote_escaped]
      exact hin

/-- The rest of a block comment and what follows it. -/
def ClosesComment (text : List Char) : Prop :=
  ∃ body rest, text = body ++ '*' :: '/' :: rest ∧ ¬ ['*', '/'] <:+: body ++ ['*'] ∧
    CommentsClose rest

/-- What the scan for comments still has to find: outside a comment or in one. -/
def ClosesFrom : Option Nat → List Char → Prop
  | none => CommentsClose
  | some _ => ClosesComment

theorem commentsClose_open {text : List Char} :
    CommentsClose ('/' :: '*' :: text) ↔ ClosesComment text := by
  constructor
  · intro h
    cases h with
    | plain hopen _ => exact absurd (List.prefix_append ['/', '*'] text) hopen
    | comment hbody hrest => exact ⟨_, _, rfl, hbody, hrest⟩
  · intro h
    obtain ⟨body, rest, rfl, hbody, hrest⟩ := h
    exact .comment hbody hrest

theorem commentsClose_plain {c : Char} {text : List Char} (hopen : ¬ ['/', '*'] <+: c :: text) :
    CommentsClose (c :: text) ↔ CommentsClose text := by
  constructor
  · intro h
    cases h with
    | plain _ hrest => exact hrest
    | comment _ _ => exact absurd (List.prefix_append ['/', '*'] _) hopen
  · exact .plain hopen

theorem not_closesComment_nil : ¬ ClosesComment [] := by
  intro h
  obtain ⟨body, rest, htext, _⟩ := h
  simp at htext

theorem closesComment_close {text : List Char} :
    ClosesComment ('*' :: '/' :: text) ↔ CommentsClose text := by
  constructor
  · intro h
    obtain ⟨body, rest, htext, hbody, hrest⟩ := h
    cases body with
    | nil =>
      obtain rfl : text = rest := by simpa using htext
      exact hrest
    | cons c body =>
      obtain ⟨rfl, htail⟩ := List.cons.inj htext
      cases body with
      | nil => exact absurd (List.cons.inj htail).1 (by decide)
      | cons d body =>
        obtain ⟨rfl, _⟩ := List.cons.inj htail
        exact absurd (List.prefix_append ['*', '/'] (body ++ ['*'])).isInfix hbody
  · intro h
    exact ⟨[], text, rfl, by decide, h⟩

theorem closesComment_plain {c : Char} {text : List Char} (hclose : ¬ ['*', '/'] <+: c :: text) :
    ClosesComment (c :: text) ↔ ClosesComment text := by
  constructor
  · intro h
    obtain ⟨body, rest, htext, hbody, hrest⟩ := h
    cases body with
    | nil =>
      rw [htext] at hclose
      exact absurd (List.prefix_append ['*', '/'] rest) hclose
    | cons d body =>
      have hinner : ¬ ['*', '/'] <:+: body ++ ['*'] := fun hwithin =>
        hbody (hwithin.trans (List.suffix_cons d (body ++ ['*'])).isInfix)
      exact ⟨body, rest, (List.cons.inj htext).2, hinner, hrest⟩
  · intro h
    obtain ⟨body, rest, rfl, hbody, hrest⟩ := h
    refine ⟨c :: body, rest, rfl, fun hwithin => ?_, hrest⟩
    obtain hfront | hinner := List.infix_cons_iff.mp hwithin
    · -- the star-slash would already stand at the front of the text
      refine hclose ?_
      have hlonger : c :: (body ++ ['*']) <+: c :: (body ++ '*' :: '/' :: rest) :=
        ⟨'/' :: rest, by simp⟩
      exact hfront.trans hlonger
    · exact hbody hinner

/-- The scan for comments accepts a text exactly when its slash-stars are closed. -/
theorem openBlockComment_iff (text : List Char) (offset : Nat) (opened : Option Nat) :
    openBlockComment text offset opened = none ↔ ClosesFrom opened text := by
  fun_induction openBlockComment text offset opened with
  | case1 offset opened =>
    cases opened with
    | none => exact iff_of_true rfl .nil
    | some start => exact iff_of_false (by simp) not_closesComment_nil
  | case2 rest offset ih => rw [ih]; exact commentsClose_open.symm
  | case3 rest offset start ih => rw [ih]; exact closesComment_close.symm
  | case4 c rest offset opened hopen hclose ih =>
    rw [ih]
    cases opened with
    | none =>
      refine (commentsClose_plain fun hfront => ?_).symm
      obtain ⟨tail, htail⟩ := hfront
      obtain ⟨rfl, rfl⟩ := List.cons.inj htail
      exact hopen _ rfl rfl rfl
    | some start =>
      refine (closesComment_plain fun hfront => ?_).symm
      obtain ⟨tail, htail⟩ := hfront
      obtain ⟨rfl, rfl⟩ := List.cons.inj htail
      exact hclose _ start rfl rfl rfl

/-- A source whose tokens are all recognised is accepted, with those tokens, exactly when its
quotes pair up and its slash-stars close for a reader who knows no contexts. -/
theorem lexFile_iff_pairs {source file : String} {tokens : List Token}
    (h : lexLoop source file source.toList.length source.toList 0 = .ok tokens) :
    lexFile source file = .ok tokens ↔
      QuotesPair source.toList ∧ CommentsClose source.toList := by
  have hquotes := (openString_iff source.toList 0 0 false).1
  have hcomments : openBlockComment source.toList 0 none = none ↔ CommentsClose source.toList :=
    openBlockComment_iff source.toList 0 none
  rw [lexFile_eq_ok, hcomments, hquotes]
  constructor
  · intro haccepted
    exact ⟨haccepted.2.1, haccepted.1⟩
  · intro hpairs
    exact ⟨hpairs.2, hpairs.1, h⟩

/-- A closed comment, a string, and a line comment whose quotes happen to pair up. -/
def pairedSource : String := "/*a*/\"b\"//\"\""

theorem lexFile_iff_pairs_paired :
    lexFile pairedSource "p.ks" = .ok [⟨.string "b", ⟨5, 8⟩⟩] := by
  have htext : pairedSource.toList =
      ['/', '*', 'a', '*', '/', '"', 'b', '"', '/', '/', '"', '"'] := String.toList_ofList
  have hloop : lexLoop pairedSource "p.ks" pairedSource.toList.length pairedSource.toList 0 =
      .ok [⟨.string "b", ⟨5, 8⟩⟩] := by
    rw [htext]
    decide +kernel
  refine (lexFile_iff_pairs hloop).mpr ?_
  rw [htext]
  constructor
  · apply (openString_iff _ 0 0 false).1.mp
    decide
  · apply (openBlockComment_iff _ 0 none).mp
    decide

/-- An empty contract and a line comment with an inch mark. -/
def inchSource : String := "contract A{} // 5\" rule"

theorem lexFile_rejects_inch :
    lexLoop inchSource "i.ks" inchSource.toList.length inchSource.toList 0 =
        .ok [⟨.contract, ⟨0, 8⟩⟩, ⟨.identifier "A", ⟨9, 10⟩⟩, ⟨.leftBrace, ⟨10, 11⟩⟩,
          ⟨.rightBrace, ⟨11, 12⟩⟩] ∧
      lexFile inchSource "i.ks" =
        .error ⟨"i.ks", 1, 18, ⟨17, 18⟩, "unterminated string"⟩ := by
  constructor
  · decide +kernel
  · decide +kernel

end KaspaScript
