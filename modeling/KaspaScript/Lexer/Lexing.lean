import KaspaScript.Lexer.Lexer
import KaspaScript.Library.Fallible

namespace KaspaScript

open Library (Rule munch munch_eq_some munch_of_split munch_skip)

/-- The fixed texts that are shaped like identifiers. -/
def wordTokens : List (String × TokenKind) :=
  [("contract", .contract), ("params", .params), ("spend", .spend), ("require", .require),
    ("let", .let), ("if", .if), ("else", .else), ("return", .return), ("true", .true),
    ("false", .false), ("covenant", .covenant), ("covenant_id", .covenantId),
    ("zk_verify", .zkVerify), ("finality_depth", .finalityDepth), ("sequencing", .sequencing),
    ("multisig", .multisig), ("input", .inputBuiltin), ("output", .outputBuiltin),
    ("block", .block), ("PublicKey", .type .publicKey), ("Signature", .type .signature),
    ("Hash", .type .hash), ("BlockHeight", .type .blockHeight), ("Amount", .type .amount),
    ("Bool", .type .bool), ("Bytes", .type .bytes), ("CovenantID", .type .covenantId),
    ("ZKProof", .type .zkProof), ("UTXO", .type .utxo), ("Output", .type .output),
    ("Input", .type .input)]

/-- The other fixed texts. -/
def symbolTokens : List (String × TokenKind) :=
  [("==", .equalEqual), ("!=", .bangEqual), (">=", .greaterEqual), ("<=", .lessEqual),
    ("&&", .andAnd), ("||", .orOr), ("->", .arrow), ("=", .equal), ("!", .bang),
    (">", .greater), ("<", .less), ("+", .plus), ("-", .minus), ("*", .star), ("/", .slash),
    ("%", .percent), ("\x7b", .leftBrace), ("\x7d", .rightBrace), ("(", .leftParen),
    (")", .rightParen), ("[", .leftBracket), ("]", .rightBracket), (",", .comma), (":", .colon),
    (";", .semicolon), (".", .dot)]

/-- The rule of a fixed text. -/
def fixedRule (fixed : String × TokenKind) : Rule RawToken := token fixed.1 fixed.2

theorem rawRules_eq : rawRules = [whitespaceRule, lineCommentRule, blockCommentRule] ++
    wordTokens.map fixedRule ++ symbolTokens.map fixedRule ++
      [integerRule, stringRule] ++ [identifierRule] := rfl

/-- The kind that the text of an identifier or keyword gets. -/
def wordKind (text : String) : TokenKind := (wordTokens.lookup text).getD (.identifier text)

/-- `[A-Za-z_][A-Za-z0-9_]*` -/
def IsWord (text : List Char) : Prop :=
  ∃ c cs, text = c :: cs ∧ isIdentStart c = true ∧ ∀ d ∈ cs, isIdentRest d = true

theorem isIdentRest_of_isIdentStart {c : Char} (h : isIdentStart c = true) :
    isIdentRest c = true := by
  have hor : c.isAlpha = true ∨ (c == '_') = true := by simpa [isIdentStart] using h
  have hrest : isIdentRest c = ((c.isAlpha || c.isDigit) || c == '_') := rfl
  rcases hor with h | h
  · simp [hrest, h]
  · simp [hrest, h]

theorem IsWord.all {text : List Char} (h : IsWord text) : ∀ c ∈ text, isIdentRest c = true := by
  obtain ⟨c, cs, rfl, hc, hcs⟩ := h
  intro d hd
  rcases List.mem_cons.mp hd with rfl | hd
  · exact isIdentRest_of_isIdentStart hc
  · exact hcs d hd

theorem isWord_of_mem {fixed : String × TokenKind} (h : fixed ∈ wordTokens) :
    IsWord fixed.1.toList := by
  have hall : ∀ fixed ∈ wordTokens, (fixed.1.toList.head?.any isIdentStart &&
      fixed.1.toList.tail.all isIdentRest) = true := by decide
  have hfixed := hall fixed h
  cases htext : fixed.1.toList with
  | nil => simp [htext] at hfixed
  | cons c cs => exact ⟨c, cs, rfl, by simpa [htext] using hfixed⟩

theorem scan_fixedRule {fixed : String × TokenKind} {s : List Char} {m : Nat}
    (h : (fixedRule fixed).scan s = some m) :
    fixed.1.toList <+: s ∧ m = fixed.1.toList.length := by
  simp only [fixedRule, token, Rule.literal] at h
  split_ifs at h with hbegin
  · exact ⟨List.isPrefixOf_iff_prefix.mp hbegin.2, by simpa using h.symm⟩

theorem scan_identifierRule {c : Char} {cs rest : List Char} (hc : isIdentStart c = true)
    (hcs : ∀ d ∈ cs, isIdentRest d = true) (hrest : ∀ d ∈ rest.head?, isIdentRest d = false) :
    identifierRule.scan (c :: cs ++ rest) = some (c :: cs).length := by
  have htake : ((cs ++ rest).takeWhile isIdentRest) = cs := by
    rw [List.takeWhile_append_of_pos hcs]
    cases rest with
    | nil => simp
    | cons d rest => simp [hrest d rfl]
  change (if isIdentStart c then (some ((cs ++ rest).takeWhile isIdentRest).length).map (· + 1)
    else none) = _
  simp [hc, htake]

/-- A fixed text in front of a word that ends is no longer than the word. -/
theorem prefix_word {text word rest : List Char} (htext : ∀ c ∈ text, isIdentRest c = true)
    (hrest : ∀ d ∈ rest.head?, isIdentRest d = false) (h : text <+: word ++ rest) :
    text <+: word := by
  rcases List.prefix_or_prefix_of_prefix h (List.prefix_append word rest) with hword | hword
  · exact hword
  · obtain ⟨more, rfl⟩ := hword
    obtain ⟨tail, hmore⟩ := (List.prefix_append_right_inj word).mp h
    cases more with
    | nil => simp
    | cons d more =>
      have hd := hrest d (by simp [← hmore])
      rw [htext d (by simp)] at hd
      cases hd

theorem not_prefix_symbol {fixed : String × TokenKind} (h : fixed ∈ symbolTokens) {c : Char}
    {cs : List Char} (hc : isIdentStart c = true) : ¬ fixed.1.toList <+: c :: cs := by
  have hall : ∀ fixed ∈ symbolTokens, fixed.1.toList.head?.any (!isIdentStart ·) = true := by
    decide
  intro hbegin
  have hfixed := hall fixed h
  cases htext : fixed.1.toList with
  | nil => simp [htext] at hfixed
  | cons d ds =>
    rw [htext, List.cons_prefix_cons] at hbegin
    rw [htext, hbegin.1] at hfixed
    simp [hc] at hfixed

theorem isDigit_of_isIdentStart {c : Char} (h : isIdentStart c = true) : c.isDigit = false := by
  by_contra hdigit
  change ((decide (c.val ≥ 65 ∧ c.val ≤ 90) || (c.val ≥ 97 && c.val ≤ 122)) || c == '_') = true at h
  simp only [Char.isDigit, Bool.or_eq_true, Bool.and_eq_true, decide_eq_true_eq, beq_iff_eq,
    Bool.not_eq_false, UInt32.le_iff_toNat_le, ge_iff_le] at h hdigit
  rcases h with h | rfl
  · simp at h hdigit
    omega
  · simp at hdigit

theorem isBlank_of_isIdentStart {c : Char} (h : isIdentStart c = true) : isBlank c = false := by
  by_contra hblank
  simp only [isBlank, Bool.or_eq_true, beq_iff_eq, Bool.not_eq_false] at hblank
  rcases hblank with (((rfl | rfl) | rfl) | rfl) | rfl <;> exact absurd h (by decide)

/-- No rule but those of fixed words and of identifiers matches where a word starts. -/
theorem scan_none_of_word {c : Char} {cs : List Char} (hc : isIdentStart c = true)
    {rule : Rule RawToken} (hrule : rule ∈ [whitespaceRule, lineCommentRule, blockCommentRule] ∨
      rule ∈ symbolTokens.map fixedRule ∨ rule ∈ [integerRule, stringRule]) :
    rule.scan (c :: cs) = none := by
  have hne (d : Char) (hd : isIdentStart d = false) : c ≠ d := by
    intro h
    rw [h, hd] at hc
    cases hc
  rcases hrule with hrule | hrule | hrule
  · simp only [List.mem_cons, List.not_mem_nil, or_false] at hrule
    rcases hrule with rfl | rfl | rfl
    · simp [whitespaceRule, Rule.run, Library.scanRun, isBlank_of_isIdentStart hc]
    · simp [lineCommentRule, Rule.run, Library.scanRun, hne '/' (by decide)]
    · simp [blockCommentRule, Rule.delimited, Library.scanDelimited, List.isPrefixOf,
        (hne '/' (by decide)).symm]
  · obtain ⟨fixed, hfixed, rfl⟩ := List.mem_map.mp hrule
    cases hscan : (fixedRule fixed).scan (c :: cs) with
    | none => rfl
    | some m => exact absurd (scan_fixedRule hscan).1 (not_prefix_symbol hfixed hc)
  · simp only [List.mem_cons, List.not_mem_nil, or_false] at hrule
    rcases hrule with rfl | rfl
    · simp [integerRule, Rule.run, Library.scanRun, isDigit_of_isIdentStart hc]
    · simp [stringRule, Rule.delimited, Library.scanDelimited, List.isPrefixOf,
        (hne '"' (by decide)).symm]

/-- A fixed word matches at most a whole word that ends, and all of it only if it is that word. -/
theorem scan_fixedRule_word {word rest : List Char} {fixed : String × TokenKind}
    (hrest : ∀ d ∈ rest.head?, isIdentRest d = false) (hfixed : fixed ∈ wordTokens) {m : Nat}
    (hscan : (fixedRule fixed).scan (word ++ rest) = some m) :
    m ≤ word.length ∧ (fixed.1 ≠ String.ofList word → m < word.length) := by
  obtain ⟨hbegin, rfl⟩ := scan_fixedRule hscan
  have hword := prefix_word (isWord_of_mem hfixed).all hrest hbegin
  refine ⟨hword.length_le, ?_⟩
  intro hne
  apply Nat.lt_of_le_of_ne hword.length_le
  intro hlength
  apply hne
  rw [← hword.eq_of_length hlength, String.ofList_toList]

/-- A word that ends is one token: a keyword's where it is a fixed text, else an identifier. -/
theorem munch_word {word rest : List Char} (hword : IsWord word)
    (hrest : ∀ d ∈ rest.head?, isIdentRest d = false) :
    ∃ rule, munch rawRules (word ++ rest) = some (rule, word.length) ∧
      rule.action word = .ok (some (wordKind (String.ofList word))) := by
  obtain ⟨c, cs, hcons, hc, hcs⟩ := hword
  have hstart (more : List Char) : word ++ more = c :: (cs ++ more) := by simp [hcons]
  have hident : identifierRule.scan (word ++ rest) = some word.length := by
    rw [hcons]
    exact scan_identifierRule hc hcs hrest
  cases hlookup : wordTokens.lookup (String.ofList word) with
  | none =>
    refine ⟨identifierRule, ?_, by simp [wordKind, hlookup]; rfl⟩
    rw [rawRules_eq]
    apply munch_of_split hident _ (by simp)
    intro rule hrule m hscan
    simp only [List.mem_append] at hrule
    rcases hrule with ((hrule | hrule) | hrule) | hrule
    · simp [hstart, scan_none_of_word hc (.inl hrule)] at hscan
    · obtain ⟨fixed, hfixed, rfl⟩ := List.mem_map.mp hrule
      apply (scan_fixedRule_word hrest hfixed hscan).2
      intro heq
      have hother := List.lookup_eq_none_iff.mp hlookup fixed hfixed
      simp [heq] at hother
    · simp [hstart, scan_none_of_word hc (.inr (.inl hrule))] at hscan
    · simp [hstart, scan_none_of_word hc (.inr (.inr hrule))] at hscan
  | some kind =>
    obtain ⟨before, after, hsplit, hbefore⟩ := List.lookup_eq_some_iff.mp hlookup
    refine ⟨fixedRule (String.ofList word, kind), ?_, by simp [wordKind, hlookup]; rfl⟩
    have hrules : rawRules = ([whitespaceRule, lineCommentRule, blockCommentRule] ++
        before.map fixedRule) ++ fixedRule (String.ofList word, kind) ::
          (after.map fixedRule ++ symbolTokens.map fixedRule ++ [integerRule, stringRule] ++
            [identifierRule]) := by
      rw [rawRules_eq, hsplit]
      simp
    have hmem {fixed : String × TokenKind} (h : fixed ∈ before ∨ fixed ∈ after) :
        fixed ∈ wordTokens := by
      rw [hsplit]
      simp
      tauto
    rw [hrules]
    apply munch_of_split
    · simp [fixedRule, token, Rule.literal, hcons]
    · intro rule hrule m hscan
      rcases List.mem_append.mp hrule with hrule | hrule
      · simp [hstart, scan_none_of_word hc (.inl hrule)] at hscan
      · obtain ⟨fixed, hfixed, rfl⟩ := List.mem_map.mp hrule
        apply (scan_fixedRule_word hrest (hmem (.inl hfixed)) hscan).2
        intro heq
        have hother := hbefore fixed hfixed
        simp [heq] at hother
    · intro rule hrule m hscan
      simp only [List.mem_append, List.mem_singleton] at hrule
      rcases hrule with ((hrule | hrule) | hrule) | rfl
      · obtain ⟨fixed, hfixed, rfl⟩ := List.mem_map.mp hrule
        exact (scan_fixedRule_word hrest (hmem (.inr hfixed)) hscan).1
      · simp [hstart, scan_none_of_word hc (.inr (.inl hrule))] at hscan
      · simp [hstart, scan_none_of_word hc (.inr (.inr hrule))] at hscan
      · exact (Option.some.inj (hident.symm.trans hscan)).ge

theorem scan_integerRule {digits rest : List Char} (hsome : digits ≠ [])
    (hdigits : ∀ c ∈ digits, c.isDigit = true) (hrest : ∀ d ∈ rest.head?, d.isDigit = false) :
    integerRule.scan (digits ++ rest) = some digits.length := by
  cases digits with
  | nil => exact absurd rfl hsome
  | cons c cs =>
    have htake : (cs ++ rest).takeWhile Char.isDigit = cs := by
      rw [List.takeWhile_append_of_pos fun d hd => hdigits d (List.mem_cons_of_mem _ hd)]
      cases rest with
      | nil => simp
      | cons d rest => simp [hrest d rfl]
    change (if c.isDigit then (some ((cs ++ rest).takeWhile Char.isDigit).length).map (· + 1)
      else none) = _
    simp [hdigits c List.mem_cons_self, htake]

theorem munch_integer {digits rest : List Char} (hsome : digits ≠ [])
    (hdigits : ∀ c ∈ digits, c.isDigit = true) (hrest : ∀ d ∈ rest.head?, d.isDigit = false) :
    munch rawRules (digits ++ rest) = some (integerRule, digits.length) := by
  have hscan := scan_integerRule hsome hdigits hrest
  have hrules : rawRules = ([whitespaceRule, lineCommentRule, blockCommentRule] ++
      (wordTokens ++ symbolTokens).map fixedRule) ++ integerRule :: [stringRule, identifierRule] := by
    rfl
  rw [hrules]
  obtain ⟨c, cs, rfl⟩ := List.exists_cons_of_ne_nil hsome
  have hc : c.isDigit = true := hdigits c List.mem_cons_self
  have hne (d : Char) (hd : d.isDigit = false) : c ≠ d := by
    intro h
    rw [h, hd] at hc
    cases hc
  have hfixed : ∀ fixed ∈ wordTokens ++ symbolTokens,
      fixed.1.toList.head?.any (!Char.isDigit ·) = true := by decide
  have hident : isIdentStart c = false := by
    by_contra h
    rw [isDigit_of_isIdentStart (by simpa using h)] at hc
    cases hc
  apply munch_of_split hscan
  · intro rule hrule m hm
    simp only [List.mem_append, List.mem_cons, List.not_mem_nil, or_false, List.mem_map] at hrule
    rcases hrule with (rfl | rfl | rfl) | ⟨fixed, hmem, rfl⟩
    · simp [whitespaceRule, Rule.run, Library.scanRun, isBlank, hne ' ' (by decide),
        hne '\t' (by decide), hne '\r' (by decide), hne '\n' (by decide),
        hne '\x0c' (by decide)] at hm
    · simp [lineCommentRule, Rule.run, Library.scanRun, hne '/' (by decide)] at hm
    · simp [blockCommentRule, Rule.delimited, Library.scanDelimited, List.isPrefixOf,
        (hne '/' (by decide)).symm] at hm
    · obtain ⟨hbegin, -⟩ := scan_fixedRule hm
      have hhead := hfixed fixed (List.mem_append.mpr hmem)
      cases htext : fixed.1.toList with
      | nil => simp [htext] at hhead
      | cons d ds =>
        rw [htext, List.cons_append, List.cons_prefix_cons] at hbegin
        rw [htext, hbegin.1] at hhead
        simp [hc] at hhead
  · intro rule hrule m hm
    simp only [List.mem_cons, List.not_mem_nil, or_false] at hrule
    rcases hrule with rfl | rfl
    · simp [stringRule, Rule.delimited, Library.scanDelimited, List.isPrefixOf,
        (hne '"' (by decide)).symm] at hm
    · simp [identifierRule, Rule.run, Library.scanRun, hident] at hm

theorem munch_quote (rest : List Char) :
    munch rawRules ('"' :: rest) = munch [stringRule] ('"' :: rest) := rfl

theorem munch_blank (rest : List Char) : munch rawRules (' ' :: rest) =
    some (whitespaceRule, (rest.takeWhile isBlank).length + 1) := rfl

/-- The marks that no longer fixed text starts with. -/
theorem munch_mark (rest : List Char) :
    munch rawRules ('(' :: rest) = some (token "(" .leftParen, 1) ∧
    munch rawRules (')' :: rest) = some (token ")" .rightParen, 1) ∧
    munch rawRules ('[' :: rest) = some (token "[" .leftBracket, 1) ∧
    munch rawRules (']' :: rest) = some (token "]" .rightBracket, 1) ∧
    munch rawRules (',' :: rest) = some (token "," .comma, 1) ∧
    munch rawRules ('.' :: rest) = some (token "." .dot, 1) :=
  ⟨rfl, rfl, rfl, rfl, rfl, rfl⟩

theorem scan_pair_none {text : String} {a b : Char} {rest : List Char}
    (htext : text.toList = [a, b]) (hrest : rest.head? ≠ some b) (kind : TokenKind) :
    (token text kind).scan (a :: rest) = none := by
  cases rest with
  | nil => simp [token, Rule.literal, htext]
  | cons d ds =>
    have hd : b ≠ d := fun h => hrest (by rw [h]; rfl)
    simp [token, Rule.literal, htext, hd]

theorem munch_bang {rest : List Char} (hrest : rest.head? ≠ some '=') :
    munch rawRules ('!' :: rest) = some (token "!" .bang, 1) :=
  (munch_skip (rawRules.take 35) (rawRules.drop 36)
    (scan_pair_none (by rfl) hrest .bangEqual)).trans rfl

theorem munch_minus {rest : List Char} (hrest : rest.head? ≠ some '>') :
    munch rawRules ('-' :: rest) = some (token "-" .minus, 1) :=
  (munch_skip (rawRules.take 40) (rawRules.drop 41)
    (scan_pair_none (by rfl) hrest .arrow)).trans rfl

/-- The token loop reads `cs` as tokens of these kinds. -/
def Lexes (source file : String) (cs : List Char) (kinds : List TokenKind) : Prop :=
  ∀ fuel offset, cs.length ≤ fuel →
    ∃ tokens, lexLoop source file fuel cs offset = .ok tokens ∧ tokens.map Token.kind = kinds

section Lexes

variable {source file : String} {slice rest : List Char} {rule : Rule RawToken}
  {kinds : List TokenKind}

theorem lexes_nil : Lexes source file [] [] := by
  intro fuel offset _
  exact ⟨[], by cases fuel <;> rfl, rfl⟩

theorem lexLoop_token {fuel offset : Nat} {kind : TokenKind} (hsome : slice ≠ [])
    (hmunch : munch rawRules (slice ++ rest) = some (rule, slice.length))
    (haction : rule.action slice = .ok (some kind)) :
    lexLoop source file (fuel + 1) (slice ++ rest) offset =
      (⟨kind, ⟨offset, offset + byteLength slice⟩⟩ :: ·) <$>
        lexLoop source file fuel rest (offset + byteLength slice) := by
  obtain ⟨c, cs, rfl⟩ := List.exists_cons_of_ne_nil hsome
  rw [List.cons_append] at hmunch ⊢
  rw [lexLoop, hmunch]
  simp only [← List.cons_append, List.take_left, List.drop_left, haction]

theorem lexLoop_skip {fuel offset : Nat} (hsome : slice ≠ [])
    (hmunch : munch rawRules (slice ++ rest) = some (rule, slice.length))
    (haction : rule.action slice = .ok none) :
    lexLoop source file (fuel + 1) (slice ++ rest) offset =
      lexLoop source file fuel rest (offset + byteLength slice) := by
  obtain ⟨c, cs, rfl⟩ := List.exists_cons_of_ne_nil hsome
  rw [List.cons_append] at hmunch ⊢
  rw [lexLoop, hmunch]
  simp only [← List.cons_append, List.take_left, List.drop_left, haction]

theorem Lexes.token {kind : TokenKind} (hsome : slice ≠ [])
    (hmunch : munch rawRules (slice ++ rest) = some (rule, slice.length))
    (haction : rule.action slice = .ok (some kind)) (h : Lexes source file rest kinds) :
    Lexes source file (slice ++ rest) (kind :: kinds) := by
  intro fuel offset hfuel
  have hpos := List.length_pos_iff.mpr hsome
  rw [List.length_append] at hfuel
  obtain ⟨fuel, rfl⟩ := Nat.exists_eq_succ_of_ne_zero (show fuel ≠ 0 by omega)
  obtain ⟨tokens, htokens, hkinds⟩ := h fuel (offset + byteLength slice) (by omega)
  refine ⟨⟨kind, ⟨offset, offset + byteLength slice⟩⟩ :: tokens, ?_, by simp [hkinds]⟩
  rw [lexLoop_token hsome hmunch haction, htokens]
  rfl

theorem Lexes.skip (hsome : slice ≠ [])
    (hmunch : munch rawRules (slice ++ rest) = some (rule, slice.length))
    (haction : rule.action slice = .ok none) (h : Lexes source file rest kinds) :
    Lexes source file (slice ++ rest) kinds := by
  intro fuel offset hfuel
  have hpos := List.length_pos_iff.mpr hsome
  rw [List.length_append] at hfuel
  obtain ⟨fuel, rfl⟩ := Nat.exists_eq_succ_of_ne_zero (show fuel ≠ 0 by omega)
  obtain ⟨tokens, htokens, hkinds⟩ := h fuel (offset + byteLength slice) (by omega)
  exact ⟨tokens, (lexLoop_skip hsome hmunch haction).trans htokens, hkinds⟩

end Lexes

/-- Only the identifiers' rule yields an identifier. -/
theorem identifierRule_of_action {rule : Rule RawToken} {slice : List Char} {name : String}
    (hrule : rule ∈ rawRules) (haction : rule.action slice = .ok (some (.identifier name))) :
    rule = identifierRule ∧ name = String.ofList slice := by
  have hfixed (fixed : String × TokenKind) (h : fixed ∈ wordTokens ∨ fixed ∈ symbolTokens) :
      fixed.2 ≠ .identifier name := by
    intro hkind
    have hall : ∀ fixed ∈ wordTokens ++ symbolTokens, fixed.2 ≠ .identifier name := by
      simp [wordTokens, symbolTokens]
    exact hall fixed (List.mem_append.mpr h) hkind
  rw [rawRules_eq] at hrule
  simp only [List.mem_append, List.mem_cons, List.not_mem_nil, or_false, List.mem_map] at hrule
  rcases hrule with (((hskip | ⟨fixed, hmem, rfl⟩) | ⟨fixed, hmem, rfl⟩) | hliteral) | rfl
  · rcases hskip with rfl | rfl | rfl <;> cases haction
  · exact absurd (by simpa [fixedRule, token, Rule.literal] using haction) (hfixed fixed (.inl hmem))
  · exact absurd (by simpa [fixedRule, token, Rule.literal] using haction) (hfixed fixed (.inr hmem))
  · rcases hliteral with rfl | rfl
    · cases haction
    · obtain ⟨decoded, -, h⟩ := Library.map_eq_ok.mp haction
      cases h
  · exact ⟨rfl, by simpa [identifierRule, Rule.run, eq_comm] using haction⟩

/-- An identifier token carries a word that is not a keyword. -/
theorem word_of_munch {rule : Rule RawToken} {cs : List Char} {n : Nat} {name : String}
    (hmunch : munch rawRules cs = some (rule, n))
    (haction : rule.action (cs.take n) = .ok (some (.identifier name))) :
    IsWord name.toList ∧ wordKind name = .identifier name := by
  obtain ⟨front, back, hrules, hscan, -, -⟩ := munch_eq_some hmunch
  obtain ⟨rfl, rfl⟩ := identifierRule_of_action (by rw [hrules]; simp) haction
  cases cs with
  | nil => cases hscan
  | cons c cs =>
    have hrun : (if isIdentStart c then (some (cs.takeWhile isIdentRest).length).map (· + 1)
      else none) = some n := hscan
    split_ifs at hrun with hc
    obtain rfl : (cs.takeWhile isIdentRest).length + 1 = n := by simpa using hrun
    have htake : (c :: cs).take ((cs.takeWhile isIdentRest).length + 1) =
        c :: cs.takeWhile isIdentRest := by
      rw [List.take_succ_cons, List.prefix_iff_eq_take.mp (List.takeWhile_prefix _)]
      simp
    rw [htake] at haction ⊢
    have hword : IsWord (c :: cs.takeWhile isIdentRest) :=
      ⟨c, _, rfl, hc, fun d hd => List.mem_takeWhile_imp hd⟩
    have hrest : ∀ d ∈ (cs.dropWhile isIdentRest).head?, isIdentRest d = false := by
      intro d hd
      have hnot := List.head?_dropWhile_not isIdentRest cs
      rw [Option.mem_def.mp hd] at hnot
      exact hnot
    obtain ⟨other, hother, hkind⟩ := munch_word hword hrest
    rw [List.cons_append, List.takeWhile_append_dropWhile] at hother
    obtain rfl : identifierRule = other := by
      simpa using congrArg (Option.map Prod.fst) (hmunch.symm.trans hother)
    rw [haction] at hkind
    exact ⟨by simpa using hword, by simpa using hkind.symm⟩

theorem word_of_lexLoop {source file : String} {fuel : Nat} {cs : List Char} {offset : Nat}
    {tokens : List Token} (h : lexLoop source file fuel cs offset = .ok tokens) :
    ∀ token ∈ tokens, ∀ name, token.kind = .identifier name →
      IsWord name.toList ∧ wordKind name = .identifier name := by
  induction fuel generalizing cs offset tokens with
  | zero => cases cs <;> cases h <;> simp
  | succ fuel ih =>
    cases cs with
    | nil => cases h; simp
    | cons c cs =>
      rw [lexLoop] at h
      cases hmunch : munch rawRules (c :: cs) with
      | none => simp [hmunch] at h
      | some found =>
        obtain ⟨rule, n⟩ := found
        simp only [hmunch] at h
        cases haction : rule.action ((c :: cs).take n) with
        | error escaped => simp [haction] at h
        | ok produced =>
          rw [haction] at h
          cases produced with
          | none => exact ih h
          | some kind =>
            obtain ⟨rest, hrest, rfl⟩ := Library.map_eq_ok.mp h
            intro token htoken name hname
            rcases List.mem_cons.mp htoken with rfl | htoken
            · obtain rfl : kind = .identifier name := hname
              exact word_of_munch hmunch haction
            · exact ih hrest token htoken name hname

theorem lexFile_eq_ok {source file : String} {tokens : List Token} :
    lexFile source file = .ok tokens ↔
      openBlockComment source.toList 0 none = none ∧
        openString source.toList 0 none false = none ∧
        lexLoop source file source.toList.length source.toList 0 = .ok tokens := by
  rw [lexFile, detectUnterminatedBlockComment, detectUnterminatedString]
  cases openBlockComment source.toList 0 none with
  | some start => simp [Bind.bind, Except.bind]
  | none =>
    cases openString source.toList 0 none false with
    | some start => simp [Bind.bind, Except.bind]
    | none => simp

end KaspaScript
