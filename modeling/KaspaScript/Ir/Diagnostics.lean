import KaspaScript.Codegen.Compile
import KaspaScript.Ir.Rejected
import KaspaScript.Lexer.Place
import KaspaScript.Parser.Spelled
import KaspaScript.Semantic.Places

namespace KaspaScript

open Library (firstMark)

theorem firstMark_mem {μ : Type} {marks : List (Option μ)} {mark : μ}
    (h : firstMark marks = some mark) : some mark ∈ marks := by
  induction marks with
  | nil => cases h
  | cons first rest ih =>
    rw [firstMark, Option.or_eq_some_iff] at h
    rcases h with hfirst | hrest
    · rw [hfirst]
      exact List.mem_cons_self
    · exact List.mem_cons_of_mem _ (ih hrest.2)

theorem mem_rejectedEach {es : List Expr} {mark : Option Span} (h : mark ∈ rejectedEach es) :
    ∃ e ∈ es, e.rejected = mark := by
  induction es with
  | nil => cases h
  | cons e es ih =>
    rcases List.mem_cons.mp h with rfl | h
    · exact ⟨e, List.mem_cons_self, rfl⟩
    · obtain ⟨e', he', hmark⟩ := ih h
      exact ⟨e', List.mem_cons_of_mem _ he', hmark⟩

theorem rejected_of_firstMark {es : List Expr} {marks : List (Option Span)} {span : Span}
    (h : firstMark marks = some span) (hsub : marks ⊆ rejectedEach es) :
    ∃ e ∈ es, e.rejected = some span :=
  mem_rejectedEach (hsub (firstMark_mem h))

/-- What marks a call marks one of its parts, or the call itself. -/
theorem rejected_of_call {callee : Expr} {args : List Expr} {own span : Span}
    {object calleeMark : Option Span}
    (h : callRejected callee args own object calleeMark (rejectedEach args) = some span) :
    span = own ∨ object = some span ∨ calleeMark = some span ∨
      ∃ e ∈ args, e.rejected = some span := by
  have hother (h : calleeMark.or (firstMark (rejectedEach args)) = some span) :
      span = own ∨ object = some span ∨ calleeMark = some span ∨
        ∃ e ∈ args, e.rejected = some span := by
    rcases Option.or_eq_some_iff.mp h with hcallee | hargs
    · exact .inr (.inr (.inl hcallee))
    · exact .inr (.inr (.inr (rejected_of_firstMark hargs.2 fun _ hmem => hmem)))
  have hfirst (h : firstMark ((rejectedEach args).take 1) = some span) :
      ∃ e ∈ args, e.rejected = some span :=
    rejected_of_firstMark h (List.take_subset _ _)
  have hnth {n : Nat} (h : firstMark (rejectedEach args)[n]?.toList = some span) :
      ∃ e ∈ args, e.rejected = some span := by
    refine rejected_of_firstMark h ?_
    intro mark hmark
    exact List.mem_of_getElem? (Option.mem_toList.mp hmark)
  unfold callRejected at h
  split at h
  · split_ifs at h
    · rcases Option.or_eq_some_iff.mp h with hobject | hargs
      · exact .inr (.inl hobject)
      · exact .inr (.inr (.inr (hfirst hargs.2)))
    · exact hother h
  · split at h
    · cases h
    · cases h
    · cases h
    · split at h
      · split_ifs at h
        · rcases Option.or_eq_some_iff.mp h with hsignatures | hkeys
          · exact .inr (.inr (.inr (hnth hsignatures)))
          · exact .inr (.inr (.inr (hnth hkeys.2)))
        · exact .inl (Option.some.inj h).symm
      · cases h
    · exact .inr (.inr (.inr (hfirst h)))
    · exact .inr (.inr (.inr (hfirst h)))
    · exact .inr (.inr (.inr (hfirst h)))
    · exact .inr (.inr (.inr (hfirst h)))
    · exact hother h
  · exact hother h

/-- The rejected part is a node of the expression. -/
theorem rejected_mem_spans (e : Expr) (span : Span) (h : e.rejected = some span) :
    span ∈ e.spans := by
  -- a call's receiver lies two levels down, so the statement carries the object of a field too
  suffices hboth : (e.rejected = some span → span ∈ e.spans) ∧
      ∀ object field span', e = .field object field span' → object.rejected = some span →
        span ∈ object.spans from hboth.1 h
  clear h
  induction e using Expr.induct with
  | ident id => exact ⟨by simp [Expr.rejected], by simp⟩
  | integer value span => exact ⟨by simp [Expr.rejected], by simp⟩
  | string value span => exact ⟨by simp [Expr.rejected], by simp⟩
  | bool value span => exact ⟨by simp [Expr.rejected], by simp⟩
  | array elements own ih =>
    refine ⟨?_, by simp⟩
    intro h
    rw [Expr.rejected] at h
    obtain ⟨e, he, hrejected⟩ := rejected_of_firstMark h fun _ hmem => hmem
    exact mem_spans_array.mpr (.inr ⟨e, he, (ih e he).1 hrejected⟩)
  | unary op e own ih =>
    refine ⟨?_, by simp⟩
    intro h
    rw [Expr.rejected, Option.or_eq_some_iff] at h
    apply mem_spans_unary.mpr
    rcases h with hinner | hown
    · exact .inr (ih.1 hinner)
    · obtain ⟨_, hown⟩ := hown
      split_ifs at hown
      exact .inl (Option.some.inj hown).symm
  | binary left op right own ihl ihr =>
    refine ⟨?_, by simp⟩
    intro h
    rw [Expr.rejected] at h
    apply mem_spans_binary.mpr
    split_ifs at h
    · exact .inr (.inr (ihr.1 h))
    · rcases Option.or_eq_some_iff.mp h with hleft | hright
      · exact .inr (.inl (ihl.1 hleft))
      · exact .inr (.inr (ihr.1 hright.2))
  | call callee args own ihc ih =>
    refine ⟨?_, by simp⟩
    intro h
    apply mem_spans_call.mpr
    obtain ⟨receiver, hreceiver, h⟩ : ∃ receiver : Option Span,
        (receiver = some span → ∃ object field span', callee = .field object field span' ∧
          object.rejected = some span) ∧
        callRejected callee args own receiver callee.rejected (rejectedEach args) = some span := by
      cases callee with
      | field object field span' =>
        rw [Expr.rejected] at h
        exact ⟨object.rejected, fun hobject => ⟨object, field, span', rfl, hobject⟩, h⟩
      | _ =>
        rw [Expr.rejected] at h
        · exact ⟨none, fun hnone => absurd hnone (by simp), h⟩
        · simp
    rcases rejected_of_call h with hown | hobject | hcallee | hargs
    · exact .inl hown
    · obtain ⟨object, field, span', rfl, hobject⟩ := hreceiver hobject
      exact .inr (.inl (mem_spans_field.mpr (.inr (.inr (ihc.2 object field span' rfl hobject)))))
    · exact .inr (.inl (ihc.1 hcallee))
    · obtain ⟨e, he, hrejected⟩ := hargs
      exact .inr (.inr ⟨e, he, (ih e he).1 hrejected⟩)
  | field object field own ih =>
    constructor
    · intro h
      rw [Expr.rejected] at h
      split_ifs at h
      exact mem_spans_field.mpr (.inr (.inr (ih.1 h)))
    · intro object' field' span' heq h
      cases heq
      exact ih.1 h

theorem expr_spans_subset (stmt : Stmt) : stmt.expr.spans ⊆ stmt.spans := by
  cases stmt with
  | «let» name e span => exact List.subset_cons_self _ _
  | require e span => exact fun _ h => h
  | «return» e span => exact fun _ h => h

/-- The rejected part of a program is one of its expressions. -/
theorem rejected_mem_program {program : Program} {span : Span}
    (h : program.rejected = some span) : span ∈ program.spans := by
  obtain ⟨contract, hcontract, h⟩ := List.mem_map.mp (firstMark_mem h)
  obtain ⟨spend, hspend, h⟩ := List.mem_map.mp (firstMark_mem h)
  obtain ⟨stmt, hstmt, h⟩ := List.mem_map.mp (firstMark_mem h)
  have hstmtSpan : span ∈ stmt.spans := expr_spans_subset stmt (rejected_mem_spans _ _ h)
  have hspendSpan : span ∈ spend.spans := by
    rw [Spend.spans]
    exact List.mem_cons_of_mem _ (List.mem_append_right _ (List.mem_flatMap_of_mem hstmt hstmtSpan))
  have hcontractSpan : span ∈ contract.spans := by
    rw [Contract.spans]
    exact List.mem_cons_of_mem _
      (List.mem_append_right _ (List.mem_flatMap_of_mem hspend hspendSpan))
  exact List.mem_flatMap_of_mem hcontract hcontractSpan

theorem marks_of_phrased {tokens : List Token} {e : Expr} (h : Phrased tokens e) :
    ∀ span ∈ e.spans, Marks tokens span := by
  obtain ⟨ts, hinfix, _, _, _, _, hderives⟩ := h
  intro span hspan
  exact (marks_of_derives hderives e (List.mem_singleton_self e) span hspan).mono hinfix.subset

theorem marks_of_params {tokens : List Token} {params : List Param}
    (h : ∀ param ∈ params, param.Spelled tokens) :
    ∀ span ∈ paramSpans params, Marks tokens span :=
  List.forall_mem_map.mpr h

/-- The spans of a spelled program start at its tokens. -/
theorem marks_of_spelled {tokens : List Token} {program : Program}
    (h : ∀ contract ∈ program.contracts, contract.Spelled tokens) :
    ∀ span ∈ program.spans, Marks tokens span := by
  intro span hspan
  obtain ⟨contract, hcontract, hspan⟩ := List.mem_flatMap.mp hspan
  have hspelled := h contract hcontract
  rcases List.mem_cons.mp hspan with rfl | hspan
  · exact hspelled.name
  rcases List.mem_append.mp hspan with hspan | hspan
  · exact marks_of_params hspelled.params span hspan
  obtain ⟨spend, hspend, hspan⟩ := List.mem_flatMap.mp hspan
  have hspelled := hspelled.spends spend hspend
  rcases List.mem_cons.mp hspan with rfl | hspan
  · exact hspelled.name
  rcases List.mem_append.mp hspan with hspan | hspan
  · exact marks_of_params hspelled.params span hspan
  obtain ⟨stmt, hstmt, hspan⟩ := List.mem_flatMap.mp hspan
  have hspelled := hspelled.body stmt hstmt
  cases stmt with
  | «let» name e own =>
    rcases List.mem_cons.mp hspan with rfl | hspan
    · exact hspelled.1
    · exact marks_of_phrased hspelled.2 span hspan
  | require e own => exact marks_of_phrased hspelled span hspan
  | «return» e own => exact marks_of_phrased hspelled span hspan

/-- The location is that of the offset, where something stands in the source. -/
structure Located (source file : String) (location : SourceLocation) (offset : Nat) : Prop where
  location : location = locate source file offset
  within : ∃ after, after ≠ [] ∧ StandsAt source.toList offset after

/-- The diagnostic is placed at a token, or where the text has none. -/
structure ParseError.Placed (source file : String) (error : ParseError) : Prop where
  located : Located source file ⟨error.file, error.line, error.column⟩ error.span.start
  offender : (∃ after, StandsAt source.toList error.span.start after ∧ Unlexable after) ∨
    ∃ tokens, lexFile source file = .ok tokens ∧ ∃ token ∈ tokens, error.span = token.span

/-- The diagnostic is placed at a name or an expression of the program, where a token starts. -/
structure SemanticError.Placed (source file : String) (error : SemanticError) : Prop where
  located : Located source file ⟨error.file, error.line, error.column⟩ error.span.start
  offender : ∃ tokens program, lexFile source file = .ok tokens ∧
    parseFile source file = .ok program ∧ error.span ∈ program.spans ∧ Marks tokens error.span

/-- Every diagnostic that the error carries is placed at what it is about; the error of the
lowering is about the first part that it rejects. -/
def IrError.Placed (source file : String) : IrError → Prop
  | .semantic failure =>
      (∀ error, failure.error = .parse error →
        ∃ reported, error = .error reported ∧ reported.Placed source file) ∧
      ∀ error ∈ failure.errors, error.Placed source file
  | .unsupported errorFile line column _ => ∃ tokens program span,
      lexFile source file = .ok tokens ∧ parseFile source file = .ok program ∧
        program.rejected = some span ∧ Marks tokens span ∧
        Located source file ⟨errorFile, line, column⟩ span.start

/-- Every error of the source is placed, and locating an offset counts lines and columns. -/
def Diagnosed (source file : String) : Prop :=
  (∀ offset, locate source file offset =
    ⟨file, lineAfter (textBefore offset source.toList),
      columnAfter (textBefore offset source.toList)⟩) ∧
  ∀ error, lowerFile source file = .error error → error.Placed source file

/-- What the lowering rejects of a checked program stands on the first line, behind characters of
one byte only. -/
def RejectedOnFirstLine (source file : String) : Prop :=
  ∀ program analysis span, parseFile source file = .ok program →
    analyzeProgram program source file = .ok analysis → program.rejected = some span →
    ∀ ch ∈ textBefore span.start source.toList, ch ≠ '\n' ∧ ch.utf8Size = 1

section

variable {source file : String}

theorem located_of_marks {tokens : List Token} {span : Span} {location : SourceLocation}
    (hlex : lexFile source file = .ok tokens) (h : Marks tokens span)
    (hlocation : location = locate source file span.start) :
    Located source file location span.start := by
  obtain ⟨token, htoken, hstart⟩ := h
  refine ⟨hlocation, ?_⟩
  rw [← hstart]
  exact standsAt_of_token hlex htoken

theorem Unlexable.ne_nil {after : List Char} (h : Unlexable after) : after ≠ [] := by
  cases h <;> simp

/-- A parse needs no token to come to an empty program. -/
theorem parseProgram_nil (source file : String) :
    Parser.parseProgram ⟨[], source, file⟩ 0 = .ok (⟨[]⟩, 0) := rfl

theorem placed_of_parseFile {failure : ParseFailure} (h : parseFile source file = .error failure) :
    ∃ reported, failure = .error reported ∧ reported.Placed source file := by
  unfold parseFile at h
  cases hlex : lexFile source file with
  | error error =>
    rw [hlex] at h
    cases h
    obtain ⟨span, message, after, rfl, hstands, hbad⟩ := standsAt_of_lexFile_error hlex
    exact ⟨_, rfl, ⟨rfl, after, hbad.ne_nil, hstands⟩, .inl ⟨after, hstands, hbad⟩⟩
  | ok tokens =>
    simp only [hlex] at h
    have hsome : tokens ≠ [] := by
      intro hnil
      rw [hnil, parseProgram_nil] at h
      cases h
    cases hparse : Parser.parseProgram ⟨tokens, source, file⟩ 0 with
    | ok parsed =>
      rw [hparse] at h
      cases h
    | error error =>
      rw [hparse] at h
      cases h
      obtain ⟨reported, rfl, hlocated⟩ := Parser.parses_parseProgram.of_error hparse
      obtain ⟨token, htoken, hspan⟩ := hlocated.token hsome
      have hmarks : Marks tokens reported.span := ⟨token, htoken, by rw [hspan]⟩
      exact ⟨reported, rfl, located_of_marks hlex hmarks hlocated.location,
        .inr ⟨tokens, hlex, token, htoken, hspan⟩⟩

/-- The tokens of a parsed source, and the spans that start at them. -/
theorem marks_of_parseFile {program : Program} (h : parseFile source file = .ok program) :
    ∃ tokens, lexFile source file = .ok tokens ∧ ∀ span ∈ program.spans, Marks tokens span := by
  unfold parseFile at h
  cases hlex : lexFile source file with
  | error error =>
    rw [hlex] at h
    cases h
  | ok tokens =>
    rw [hlex] at h
    obtain ⟨parsed, hparse, rfl⟩ := Library.map_eq_ok.mp h
    obtain ⟨_, _, _, _, hspelled⟩ := Parser.parses_parseProgram.of_ok hparse
    exact ⟨tokens, rfl, marks_of_spelled hspelled⟩

theorem placed_of_analyzeProgram {program : Program} {failure : AnalyzeFailure}
    (hparse : parseFile source file = .ok program)
    (h : analyzeProgram program source file = .error failure) :
    (IrError.semantic failure).Placed source file := by
  obtain ⟨tokens, hlex, hmarks⟩ := marks_of_parseFile hparse
  simp only [analyzeProgram] at h
  split_ifs at h
  cases h
  refine ⟨by simp, ?_⟩
  intro error herror
  obtain ⟨hlocation, hspan⟩ := Checker.reports_checkProgram program error herror
  exact ⟨located_of_marks hlex (hmarks _ hspan) hlocation, tokens, program, hlex, hparse, hspan,
    hmarks _ hspan⟩

theorem lineAfter_eq_one (before : List Char) : lineAfter before = 1 ↔ '\n' ∉ before := by
  unfold lineAfter
  rw [Nat.add_eq_left, List.count_eq_zero]

theorem columnAfter_of_no_newline {before : List Char} (h : '\n' ∉ before) :
    columnAfter before = before.length + 1 := by
  have hall : ∀ ch ∈ before.reverse, (ch != '\n') = true := by
    intro ch hch
    have hne : ch ≠ '\n' := fun heq => h (heq ▸ List.mem_reverse.mp hch)
    simpa using hne
  unfold columnAfter
  rw [List.takeWhile_eq_self_iff.mpr hall, List.length_reverse, Nat.add_comm]

/-- A text is at least as many bytes long as it has characters; it is no longer where each of
them takes one byte. -/
theorem byteLength_eq_length (text : List Char) :
    text.length ≤ byteLength text ∧
      (byteLength text = text.length ↔ ∀ ch ∈ text, ch.utf8Size = 1) := by
  induction text with
  | nil => simp
  | cons ch text ih =>
    obtain ⟨hle, hiff⟩ := ih
    have hpos := ch.utf8Size_pos
    rw [byteLength_cons, List.length_cons, List.forall_mem_cons, ← hiff]
    omega

/-- Line 1 and the byte offset are the place of an offset exactly on the first line, behind
characters of one byte. -/
theorem firstLine_iff (before : List Char) :
    1 = lineAfter before ∧ byteLength before + 1 = columnAfter before ↔
      ∀ ch ∈ before, ch ≠ '\n' ∧ ch.utf8Size = 1 := by
  have hbytes := (byteLength_eq_length before).2
  have hnewline : '\n' ∉ before ↔ ∀ ch ∈ before, ch ≠ '\n' := by
    constructor
    · intro h ch hch heq
      exact h (heq ▸ hch)
    · intro h hmem
      exact h _ hmem rfl
  rw [eq_comm, lineAfter_eq_one, forall₂_and, ← hnewline, ← hbytes]
  apply and_congr_right
  intro hnone
  rw [columnAfter_of_no_newline hnone, Nat.add_right_cancel_iff]

/-- The place that the lowering gives is right exactly there. -/
theorem located_unsupported_iff {span : Span} {after : List Char} (hafter : after ≠ [])
    (h : StandsAt source.toList span.start after) :
    Located source file ⟨file, 1, span.start + 1⟩ span.start ↔
      ∀ ch ∈ textBefore span.start source.toList, ch ≠ '\n' ∧ ch.utf8Size = 1 := by
  obtain ⟨before, hsource, hstart⟩ := h
  have hbefore : textBefore span.start source.toList = before := by
    rw [hsource, hstart, textBefore_append]
  rw [hbefore, ← firstLine_iff, ← hstart]
  constructor
  · intro hlocated
    have hlocation := hlocated.location
    rw [locate_eq, hbefore] at hlocation
    exact ⟨congrArg SourceLocation.line hlocation, congrArg SourceLocation.column hlocation⟩
  · intro hplace
    refine ⟨?_, after, hafter, before, hsource, hstart⟩
    rw [locate_eq, hbefore, ← hplace.1, ← hplace.2]

end

/-- Diagnostics name the right place exactly when what the lowering rejects, if the source comes
that far, stands on the first line behind characters of one byte. -/
theorem lowerFile_diagnosed_iff (source file : String) :
    Diagnosed source file ↔ RejectedOnFirstLine source file := by
  constructor
  · intro hdiagnosed program analysis span hparse hanalyze hrejected
    have hfails := failsAt_lowerProgram hanalyze
    rw [hrejected] at hfails
    obtain ⟨error, herror, message, rfl⟩ := hfails
    have hlower : lowerFile source file = .error (.unsupported file 1 (span.start + 1) message) := by
      simp only [lowerFile, hparse, hanalyze, herror]
    obtain ⟨tokens, program', span', _, hparse', hrejected', _, hlocated⟩ :=
      hdiagnosed.2 _ hlower
    cases hparse.symm.trans hparse'
    cases hrejected.symm.trans hrejected'
    obtain ⟨after, hafter, hstands⟩ := hlocated.within
    exact (located_unsupported_iff hafter hstands).mp hlocated
  · intro hplain
    refine ⟨fun offset => locate_eq source file offset, ?_⟩
    intro error hlower
    unfold lowerFile at hlower
    cases hparse : parseFile source file with
    | error failure =>
      simp only [hparse] at hlower
      cases hlower
      refine ⟨?_, by simp⟩
      intro error hsame
      cases hsame
      exact placed_of_parseFile hparse
    | ok program =>
      simp only [hparse] at hlower
      cases hanalyze : analyzeProgram program source file with
      | error failure =>
        simp only [hanalyze] at hlower
        cases hlower
        exact placed_of_analyzeProgram hparse hanalyze
      | ok analysis =>
        simp only [hanalyze] at hlower
        have hfails := failsAt_lowerProgram hanalyze
        cases hrejected : program.rejected with
        | none =>
          rw [hrejected] at hfails
          obtain ⟨ir, hir⟩ := hfails
          rw [hlower] at hir
          cases hir
        | some span =>
          rw [hrejected] at hfails
          obtain ⟨error', herror, message, rfl⟩ := hfails
          cases hlower.symm.trans herror
          obtain ⟨tokens, hlex, hmarks⟩ := marks_of_parseFile hparse
          have hmarks := hmarks span (rejected_mem_program hrejected)
          obtain ⟨token, htoken, hstart⟩ := hmarks
          obtain ⟨after, hafter, hstands⟩ := standsAt_of_token hlex htoken
          rw [hstart] at hstands
          refine ⟨tokens, program, span, hlex, hparse, hrejected, ⟨token, htoken, hstart⟩, ?_⟩
          apply (located_unsupported_iff hafter hstands).mpr
          exact hplain program analysis span hparse hanalyze hrejected

/-- A negation on the second line, at byte 30. -/
def negatedSource : String := "contract A\x7bspend s()\x7b\nrequire -1==1;\x7d\x7d"

def negatedTokens : List Token :=
  [⟨.contract, ⟨0, 8⟩⟩, ⟨.identifier "A", ⟨9, 10⟩⟩, ⟨.leftBrace, ⟨10, 11⟩⟩, ⟨.spend, ⟨11, 16⟩⟩,
    ⟨.identifier "s", ⟨17, 18⟩⟩, ⟨.leftParen, ⟨18, 19⟩⟩, ⟨.rightParen, ⟨19, 20⟩⟩,
    ⟨.leftBrace, ⟨20, 21⟩⟩, ⟨.require, ⟨22, 29⟩⟩, ⟨.minus, ⟨30, 31⟩⟩, ⟨.integer "1", ⟨31, 32⟩⟩,
    ⟨.equalEqual, ⟨32, 34⟩⟩, ⟨.integer "1", ⟨34, 35⟩⟩, ⟨.semicolon, ⟨35, 36⟩⟩,
    ⟨.rightBrace, ⟨36, 37⟩⟩, ⟨.rightBrace, ⟨37, 38⟩⟩]

theorem lex_negated : lexFile negatedSource "n.ks" = .ok negatedTokens := by
  decide +kernel

/-- The lowering reports the negation on line 1, where no token has that place. -/
theorem lowerFile_misplaces_negation :
    lowerFile negatedSource "n.ks" =
        .error (.unsupported "n.ks" 1 31 "numeric negation is not supported in V1") ∧
      ¬ Diagnosed negatedSource "n.ks" := by
  have hlower : lowerFile negatedSource "n.ks" =
      .error (.unsupported "n.ks" 1 31 "numeric negation is not supported in V1") := by
    rw [lowerFile_of_lex lex_negated]
    rfl
  refine ⟨hlower, ?_⟩
  intro hdiagnosed
  obtain ⟨tokens, program, span, hlex, _, _, hmarks, hlocated⟩ := hdiagnosed.2 _ hlower
  cases lex_negated.symm.trans hlex
  obtain ⟨token, htoken, hstart⟩ := hmarks
  have hplaces : ∀ token ∈ negatedTokens,
      locate negatedSource "n.ks" token.span.start ≠ ⟨"n.ks", 1, 31⟩ := by
    decide +kernel
  apply hplaces token htoken
  rw [hstart]
  exact hlocated.location.symm

end KaspaScript
