import KaspaScript.Lexer.Place

namespace KaspaScript

open Library (Rule munch munch_of_append)

/-- How a text falls into tokens and skipped pieces, from a byte offset on. -/
inductive Falls : List Char → Nat → List Token → Prop
  | nil {offset} : Falls [] offset []
  | token {slice rest : List Char} {offset rule kind tokens} : slice ≠ [] →
      munch rawRules (slice ++ rest) = some (rule, slice.length) →
      rule.action slice = .ok (some kind) → Falls rest (offset + byteLength slice) tokens →
      Falls (slice ++ rest) offset (⟨kind, ⟨offset, offset + byteLength slice⟩⟩ :: tokens)
  | skip {slice rest : List Char} {offset rule tokens} : slice ≠ [] →
      munch rawRules (slice ++ rest) = some (rule, slice.length) →
      rule.action slice = .ok none → Falls rest (offset + byteLength slice) tokens →
      Falls (slice ++ rest) offset tokens

/-- The token loop records how its text falls into tokens. -/
theorem falls_of_lexLoop {source file : String} {fuel offset : Nat} {text : List Char}
    {tokens : List Token} (h : lexLoop source file fuel text offset = .ok tokens)
    (hfuel : text.length ≤ fuel) : Falls text offset tokens := by
  induction fuel generalizing text offset tokens with
  | zero =>
    obtain rfl := List.eq_nil_of_length_eq_zero (Nat.le_zero.mp hfuel)
    cases h
    exact .nil
  | succ fuel ih =>
    cases text with
    | nil => cases h; exact .nil
    | cons ch rest =>
      rw [lexLoop] at h
      cases hmunch : munch rawRules (ch :: rest) with
      | none => simp [hmunch] at h
      | some found =>
        obtain ⟨rule, n⟩ := found
        have hlength := length_of_munch hmunch
        have hsplit : (ch :: rest).take n ++ (ch :: rest).drop n = ch :: rest :=
          List.take_append_drop n _
        have htake : ((ch :: rest).take n).length = n := by
          rw [List.length_take]
          omega
        have hsome : (ch :: rest).take n ≠ [] := by
          apply List.ne_nil_of_length_pos
          omega
        have hdrop : ((ch :: rest).drop n).length ≤ fuel := by
          rw [List.length_drop]
          omega
        have hfound : munch rawRules ((ch :: rest).take n ++ (ch :: rest).drop n) =
            some (rule, ((ch :: rest).take n).length) := by
          rw [hsplit, htake, hmunch]
        simp only [hmunch] at h
        cases haction : rule.action ((ch :: rest).take n) with
        | error escaped => simp [haction] at h
        | ok produced =>
          simp only [haction] at h
          cases produced with
          | none =>
            have hfalls := Falls.skip hsome hfound haction (ih h hdrop)
            rwa [hsplit] at hfalls
          | some kind =>
            obtain ⟨later, hrest, rfl⟩ := Library.map_eq_ok.mp h
            have hfalls := Falls.token hsome hfound haction (ih hrest hdrop)
            rwa [hsplit] at hfalls

theorem Falls.lexes {text : List Char} {offset : Nat} {tokens : List Token}
    (h : Falls text offset tokens) (source file : String) :
    Lexes source file text (tokens.map Token.kind) := by
  induction h with
  | nil => exact lexes_nil
  | token hsome hmunch haction _ ih => exact ih.token hsome hmunch haction
  | skip hsome hmunch haction _ ih => exact ih.skip hsome hmunch haction

/-- From a token on, the text falls into that token and those behind it. -/
theorem Falls.from {text : List Char} {offset : Nat} {token : Token} {before after : List Token}
    (h : Falls text offset (before ++ token :: after)) :
    ∃ front rest, text = front ++ rest ∧ token.span.start = offset + byteLength front ∧
      Falls rest token.span.start (token :: after) := by
  generalize htokens : before ++ token :: after = tokens at h
  induction h generalizing before with
  | nil => simp at htokens
  | @token slice rest offset rule kind tokens hsome hmunch haction hrest ih =>
    cases before with
    | nil =>
      obtain ⟨rfl, rfl⟩ := List.cons.inj htokens
      exact ⟨[], _, rfl, by simp, .token hsome hmunch haction hrest⟩
    | cons first before =>
      obtain ⟨front, rest', rfl, hstart, hfalls⟩ := ih (List.cons.inj htokens).2
      exact ⟨slice ++ front, rest', by simp, by rw [hstart, byteLength_append, Nat.add_assoc],
        hfalls⟩
  | @skip slice rest offset rule tokens hsome hmunch haction hrest ih =>
    obtain ⟨front, rest', rfl, hstart, hfalls⟩ := ih htokens
    exact ⟨slice ++ front, rest', by simp, by rw [hstart, byteLength_append, Nat.add_assoc],
      hfalls⟩

/-- Up to the end of a token, the text falls into the same tokens. -/
theorem Falls.upto {text : List Char} {offset : Nat} {token : Token} {before after : List Token}
    (h : Falls text offset (before ++ token :: after)) :
    ∃ front rest, text = front ++ rest ∧ token.span.stop = offset + byteLength front ∧
      Falls front offset (before ++ [token]) := by
  generalize htokens : before ++ token :: after = tokens at h
  induction h generalizing before with
  | nil => simp at htokens
  | @token slice rest offset rule kind tokens hsome hmunch haction hrest ih =>
    cases before with
    | nil =>
      obtain ⟨rfl, rfl⟩ := List.cons.inj htokens
      have hcut : munch rawRules (slice ++ []) = some (rule, slice.length) := by
        rw [List.append_nil]
        exact munch_of_append hmunch le_rfl
      have hfalls : Falls (slice ++ []) offset [_] := .token hsome hcut haction .nil
      rw [List.append_nil] at hfalls
      exact ⟨slice, rest, rfl, rfl, hfalls⟩
    | cons first before =>
      obtain ⟨rfl, hlater⟩ := List.cons.inj htokens
      obtain ⟨front, rest', rfl, hstop, hfalls⟩ := ih hlater
      rw [← List.append_assoc] at hmunch
      have hcut := munch_of_append hmunch (by simp)
      exact ⟨slice ++ front, rest', by simp, by rw [hstop, byteLength_append, Nat.add_assoc],
        .token hsome hcut haction hfalls⟩
  | @skip slice rest offset rule tokens hsome hmunch haction hrest ih =>
    obtain ⟨front, rest', rfl, hstop, hfalls⟩ := ih htokens
    rw [← List.append_assoc] at hmunch
    have hcut := munch_of_append hmunch (by simp)
    exact ⟨slice ++ front, rest', by simp, by rw [hstop, byteLength_append, Nat.add_assoc],
      .skip hsome hcut haction hfalls⟩

/-- The text from the start of one token to the end of another, and the tokens that it reads as
on its own. -/
theorem lexes_between {source file : String} {tokens ts : List Token} {first last : Token}
    (h : lexFile source file = .ok tokens) (hts : ts <:+: tokens)
    (hfirst : ts.head? = some first) (hlast : ts.getLast? = some last) :
    ∃ before slice after, source.toList = before ++ slice ++ after ∧
      first.span.start = byteLength before ∧ last.span.stop = byteLength (before ++ slice) ∧
      ∀ source' file', Lexes source' file' slice (ts.map Token.kind) := by
  obtain ⟨front, back, rfl⟩ := hts
  have hfalls := falls_of_lexLoop (lexFile_eq_ok.mp h).2.2 le_rfl
  obtain ⟨ts', rfl⟩ := List.head?_eq_some_iff.mp hfirst
  rw [List.append_assoc, List.cons_append] at hfalls
  obtain ⟨before, rest, hsplit, hstart, hfrom⟩ := hfalls.from
  obtain ⟨ts'', hts''⟩ := List.getLast?_eq_some_iff.mp hlast
  rw [← List.cons_append, hts'', List.append_assoc, List.singleton_append] at hfrom
  obtain ⟨slice, after, rfl, hstop, hslice⟩ := hfrom.upto
  rw [← hts''] at hslice
  rw [Nat.zero_add] at hstart
  refine ⟨before, slice, after, ?_, hstart, ?_, hslice.lexes⟩
  · rw [hsplit, List.append_assoc]
  · rw [hstop, hstart, byteLength_append]

end KaspaScript
