import KaspaScript.Lexer.Prescan

namespace KaspaScript

open Library (munch munch_eq_some)

/-- The characters that start before a byte offset. -/
def textBefore : Nat → List Char → List Char
  | _, [] => []
  | offset, ch :: rest => if offset = 0 then [] else ch :: textBefore (offset - ch.utf8Size) rest

/-- One more than the newlines of the text. -/
def lineAfter (text : List Char) : Nat := 1 + text.count '\n'

/-- One more than the characters since the last newline of the text. -/
def columnAfter (text : List Char) : Nat := 1 + (text.reverse.takeWhile (· != '\n')).length

@[simp] theorem byteLength_nil : byteLength [] = 0 := rfl

@[simp] theorem byteLength_cons (ch : Char) (text : List Char) :
    byteLength (ch :: text) = ch.utf8Size + byteLength text := by
  simp [byteLength]

@[simp] theorem byteLength_append (text text' : List Char) :
    byteLength (text ++ text') = byteLength text + byteLength text' := by
  simp [byteLength]

/-- At the boundary of a character the characters before it are the text before it. -/
theorem textBefore_append (before after : List Char) :
    textBefore (byteLength before) (before ++ after) = before := by
  induction before with
  | nil => cases after <;> simp [textBefore]
  | cons ch before ih =>
    have hpos := ch.utf8Size_pos
    have hne : ch.utf8Size + byteLength before ≠ 0 := by omega
    rw [byteLength_cons, List.cons_append, textBefore, if_neg hne, Nat.add_sub_cancel_left, ih]

theorem lineAfter_snoc (text : List Char) (ch : Char) :
    lineAfter (text ++ [ch]) = if ch = '\n' then lineAfter text + 1 else lineAfter text := by
  unfold lineAfter
  rw [List.count_append, List.count_singleton]
  split_ifs with h <;> simp_all [Nat.add_assoc]

theorem columnAfter_snoc (text : List Char) (ch : Char) :
    columnAfter (text ++ [ch]) = if ch = '\n' then 1 else columnAfter text + 1 := by
  unfold columnAfter
  rw [List.reverse_append, List.reverse_singleton, List.singleton_append, List.takeWhile_cons]
  split_ifs with h <;> simp_all [Nat.add_assoc]

/-- The walk keeps the line and the column of what it has passed. -/
theorem locateFrom_eq (offset byte : Nat) (done rest : List Char) :
    locateFrom offset rest byte (lineAfter done) (columnAfter done) =
      (lineAfter (done ++ textBefore (offset - byte) rest),
        columnAfter (done ++ textBefore (offset - byte) rest)) := by
  induction rest generalizing byte done with
  | nil => simp [locateFrom, textBefore]
  | cons ch rest ih =>
    have hnext := ih (byte + ch.utf8Size) (done ++ [ch])
    rw [lineAfter_snoc, columnAfter_snoc, ← Nat.sub_sub, List.append_assoc] at hnext
    rw [locateFrom, textBefore]
    by_cases hle : offset ≤ byte
    · rw [if_pos hle, if_pos (Nat.sub_eq_zero_of_le hle), List.append_nil]
    · have hne : offset - byte ≠ 0 := by omega
      rw [if_neg hle, if_neg hne]
      by_cases hch : ch = '\n'
      · rw [if_pos hch]
        rwa [if_pos hch, if_pos hch] at hnext
      · rw [if_neg hch]
        rwa [if_neg hch, if_neg hch] at hnext

/-- A byte offset lies on the line that the newlines before it give, in the column that the
characters since the last of them give. -/
theorem locate_eq (source file : String) (offset : Nat) :
    locate source file offset =
      ⟨file, lineAfter (textBefore offset source.toList),
        columnAfter (textBefore offset source.toList)⟩ := by
  have hwalk := locateFrom_eq offset 0 [] source.toList
  rw [Nat.sub_zero, List.nil_append] at hwalk
  have hstart : locateFrom offset source.toList 0 1 1 = _ := hwalk
  rw [locate, hstart]

/-- What stands at a byte offset of the text. -/
def StandsAt (text : List Char) (offset : Nat) (after : List Char) : Prop :=
  ∃ before, text = before ++ after ∧ offset = byteLength before

theorem StandsAt.behind {text after : List Char} {offset : Nat} (front : List Char)
    (h : StandsAt text offset after) :
    StandsAt (front ++ text) (byteLength front + offset) after := by
  obtain ⟨before, rfl, rfl⟩ := h
  exact ⟨front ++ before, by rw [List.append_assoc], by rw [byteLength_append]⟩

theorem standsAt_front (text : List Char) : StandsAt text 0 text := ⟨[], rfl, rfl⟩

/-- The comment that the scan finds open starts with a slash and a star. -/
theorem standsAt_of_openBlockComment {text : List Char} {offset start : Nat} {opened : Option Nat}
    (h : openBlockComment text offset opened = some start) :
    opened = some start ∨
      ∃ place after, start = offset + place ∧ StandsAt text place ('/' :: '*' :: after) := by
  fun_induction openBlockComment text offset opened with
  | case1 offset opened => exact .inl h
  | case2 rest offset ih =>
    right
    rcases ih h with hsame | hlater
    · obtain rfl := Option.some.inj hsame
      exact ⟨0, rest, rfl, standsAt_front _⟩
    · obtain ⟨place, after, rfl, hstands⟩ := hlater
      exact ⟨2 + place, after, by omega, hstands.behind ['/', '*']⟩
  | case3 rest offset opened ih =>
    right
    rcases ih h with hsame | hlater
    · cases hsame
    · obtain ⟨place, after, rfl, hstands⟩ := hlater
      exact ⟨2 + place, after, by omega, hstands.behind ['*', '/']⟩
  | case4 ch rest offset opened hopen hclose ih =>
    rcases ih h with hsame | hlater
    · exact .inl hsame
    · obtain ⟨place, after, rfl, hstands⟩ := hlater
      exact .inr ⟨ch.utf8Size + place, after, by omega, hstands.behind [ch]⟩

/-- The string that the scan finds open starts with a quote. -/
theorem standsAt_of_openString {text : List Char} {offset start : Nat} {opened : Option Nat}
    {escaped : Bool} (h : openString text offset opened escaped = some start) :
    opened = some start ∨
      ∃ place after, start = offset + place ∧ StandsAt text place ('"' :: after) := by
  have hnext {ch : Char} {rest : List Char} {offset : Nat} {opened : Option Nat}
      (h : opened = some start ∨ ∃ place after, start = offset + ch.utf8Size + place ∧
        StandsAt rest place ('"' :: after)) :
      opened = some start ∨ ∃ place after, start = offset + place ∧
        StandsAt (ch :: rest) place ('"' :: after) := by
    rcases h with hsame | hlater
    · exact .inl hsame
    · obtain ⟨place, after, rfl, hstands⟩ := hlater
      exact .inr ⟨ch.utf8Size + place, after, by omega, hstands.behind [ch]⟩
  induction text generalizing offset opened escaped with
  | nil => exact .inl h
  | cons ch rest ih =>
    cases opened with
    | none =>
      rw [openString] at h
      right
      rcases hnext (ih h) with hsame | hlater
      · split_ifs at hsame with hquote
        obtain rfl := Option.some.inj hsame
        exact ⟨0, rest, rfl, by rw [hquote]; exact standsAt_front _⟩
      · exact hlater
    | some first =>
      cases escaped with
      | true => exact hnext (ih h)
      | false =>
        by_cases hslash : ch = '\\'
        · subst hslash
          exact hnext (ih h)
        · by_cases hquote : ch = '"'
          · subst hquote
            right
            rcases hnext (ih h) with hsame | hlater
            · cases hsame
            · exact hlater
          · by_cases hline : ch = '\n'
            · subst hline
              exact .inl h
            · rw [openString] at h
              · exact hnext (ih h)
              · exact hslash
              · exact hquote
              · exact hline

/-- The text starts with something that is no token: a comment or a string that may stay open, or
characters that no pattern reads. -/
inductive Unlexable : List Char → Prop
  | comment {after} : Unlexable ('/' :: '*' :: after)
  | string {after} : Unlexable ('"' :: after)
  | characters {ch after} : (∀ rule n kind, munch rawRules (ch :: after) = some (rule, n) →
      rule.action ((ch :: after).take n) ≠ .ok kind) → Unlexable (ch :: after)

theorem length_of_munch {text : List Char} {rule : Library.Rule RawToken} {n : Nat}
    (h : munch rawRules text = some (rule, n)) : 0 < n ∧ n ≤ text.length := by
  obtain ⟨_, _, _, hscan, _, _⟩ := munch_eq_some h
  have hlongest := rule.longest text
  rw [hscan] at hlongest
  exact ⟨hlongest.1, hlongest.2.1⟩

/-- Where the token loop stops, something stands that is no token. -/
theorem standsAt_of_lexLoop_error {source file : String} {fuel offset : Nat} {text : List Char}
    {error : LexError} (h : lexLoop source file fuel text offset = .error error) :
    ∃ span message place after, error = lexErrorAt source file span message ∧
      span.start = offset + place ∧ StandsAt text place after ∧ Unlexable after := by
  induction fuel generalizing text offset with
  | zero => cases text <;> cases h
  | succ fuel ih =>
    cases text with
    | nil => cases h
    | cons ch rest =>
      rw [lexLoop] at h
      have hlater {n : Nat} (h : lexLoop source file fuel ((ch :: rest).drop n)
          (offset + byteLength ((ch :: rest).take n)) = .error error) :
          ∃ span message place after, error = lexErrorAt source file span message ∧
            span.start = offset + place ∧ StandsAt (ch :: rest) place after ∧
            Unlexable after := by
        obtain ⟨span, message, place, after, herror, hstart, hstands, hbad⟩ := ih h
        have hbehind := hstands.behind ((ch :: rest).take n)
        rw [List.take_append_drop] at hbehind
        exact ⟨span, message, _, after, herror, by omega, hbehind, hbad⟩
      cases hmunch : munch rawRules (ch :: rest) with
      | none =>
        simp only [hmunch] at h
        cases h
        refine ⟨_, _, 0, _, rfl, rfl, standsAt_front _, .characters ?_⟩
        intro rule n kind hsome
        rw [hmunch] at hsome
        cases hsome
      | some found =>
        obtain ⟨rule, n⟩ := found
        simp only [hmunch] at h
        cases haction : rule.action ((ch :: rest).take n) with
        | error escaped =>
          simp only [haction] at h
          cases h
          refine ⟨_, _, 0, _, rfl, rfl, standsAt_front _, .characters ?_⟩
          intro rule' n' kind hsome
          rw [hmunch] at hsome
          cases hsome
          rw [haction]
          simp
        | ok produced =>
          simp only [haction] at h
          cases produced with
          | none => exact hlater h
          | some kind =>
            cases hrest : lexLoop source file fuel ((ch :: rest).drop n)
                (offset + byteLength ((ch :: rest).take n)) with
            | error e =>
              rw [hrest] at h
              cases h
              exact hlater hrest
            | ok tokens =>
              rw [hrest] at h
              cases h

theorem standsAt_of_lexFile_error {source file : String} {error : LexError}
    (h : lexFile source file = .error error) :
    ∃ span message after, error = lexErrorAt source file span message ∧
      StandsAt source.toList span.start after ∧ Unlexable after := by
  rw [lexFile, detectUnterminatedBlockComment, detectUnterminatedString] at h
  cases hcomment : openBlockComment source.toList 0 none with
  | some start =>
    rw [hcomment] at h
    cases h
    rcases standsAt_of_openBlockComment hcomment with hnone | hplace
    · cases hnone
    · obtain ⟨place, after, rfl, hstands⟩ := hplace
      exact ⟨_, _, _, rfl, by simpa using hstands, .comment⟩
  | none =>
    rw [hcomment] at h
    cases hstring : openString source.toList 0 none false with
    | some start =>
      rw [hstring] at h
      cases h
      rcases standsAt_of_openString hstring with hnone | hplace
      · cases hnone
      · obtain ⟨place, after, rfl, hstands⟩ := hplace
        exact ⟨_, _, _, rfl, by simpa using hstands, .string⟩
    | none =>
      rw [hstring] at h
      obtain ⟨span, message, place, after, herror, hstart, hstands, hbad⟩ :=
        standsAt_of_lexLoop_error h
      rw [Nat.zero_add] at hstart
      rw [← hstart] at hstands
      exact ⟨span, message, after, herror, hstands, hbad⟩

/-- Every token is a piece of the text, and its span says which one. -/
theorem slices_of_lexLoop {source file : String} {fuel offset : Nat} {text : List Char}
    {tokens : List Token} (h : lexLoop source file fuel text offset = .ok tokens) :
    ∀ token ∈ tokens, ∃ before slice after, slice ≠ [] ∧ text = before ++ slice ++ after ∧
      token.span = ⟨offset + byteLength before, offset + byteLength (before ++ slice)⟩ := by
  induction fuel generalizing text offset tokens with
  | zero => cases text <;> cases h <;> simp
  | succ fuel ih =>
    cases text with
    | nil => cases h; simp
    | cons ch rest =>
      rw [lexLoop] at h
      have hlater {n : Nat} {later : List Token}
          (h : lexLoop source file fuel ((ch :: rest).drop n)
            (offset + byteLength ((ch :: rest).take n)) = .ok later) :
          ∀ token ∈ later, ∃ before slice after, slice ≠ [] ∧
            ch :: rest = before ++ slice ++ after ∧
            token.span = ⟨offset + byteLength before, offset + byteLength (before ++ slice)⟩ := by
        intro token htoken
        obtain ⟨before, slice, after, hsome, hsplit, hspan⟩ := ih h token htoken
        refine ⟨(ch :: rest).take n ++ before, slice, after, hsome, ?_, ?_⟩
        · rw [List.append_assoc, List.append_assoc, ← List.append_assoc before, ← hsplit,
            List.take_append_drop]
        · rw [hspan]
          simp [Nat.add_assoc]
      cases hmunch : munch rawRules (ch :: rest) with
      | none => simp [hmunch] at h
      | some found =>
        obtain ⟨rule, n⟩ := found
        simp only [hmunch] at h
        cases haction : rule.action ((ch :: rest).take n) with
        | error escaped => simp [haction] at h
        | ok produced =>
          simp only [haction] at h
          cases produced with
          | none => exact hlater h
          | some kind =>
            obtain ⟨later, hrest, rfl⟩ := Library.map_eq_ok.mp h
            intro token htoken
            rcases List.mem_cons.mp htoken with rfl | htoken
            · have hlength := length_of_munch hmunch
              refine ⟨[], (ch :: rest).take n, (ch :: rest).drop n, ?_, ?_, by simp⟩
              · apply List.ne_nil_of_length_pos
                rw [List.length_take]
                omega
              · rw [List.nil_append, List.take_append_drop]
            · exact hlater hrest token htoken

theorem slices_of_lexFile {source file : String} {tokens : List Token}
    (h : lexFile source file = .ok tokens) :
    ∀ token ∈ tokens, ∃ before slice after, slice ≠ [] ∧
      source.toList = before ++ slice ++ after ∧
      token.span = ⟨byteLength before, byteLength (before ++ slice)⟩ := by
  intro token htoken
  obtain ⟨before, slice, after, hsome, hsplit, hspan⟩ :=
    slices_of_lexLoop (lexFile_eq_ok.mp h).2.2 token htoken
  rw [Nat.zero_add, Nat.zero_add] at hspan
  exact ⟨before, slice, after, hsome, hsplit, hspan⟩

/-- A token starts at the boundary of a character, before the end of the text. -/
theorem standsAt_of_token {source file : String} {tokens : List Token}
    (h : lexFile source file = .ok tokens) {token : Token} (htoken : token ∈ tokens) :
    ∃ after, after ≠ [] ∧ StandsAt source.toList token.span.start after := by
  obtain ⟨before, slice, after, hsome, hsplit, hspan⟩ := slices_of_lexFile h token htoken
  refine ⟨slice ++ after, by simp [hsome], before, ?_, by rw [hspan]⟩
  rw [hsplit, List.append_assoc]

end KaspaScript
