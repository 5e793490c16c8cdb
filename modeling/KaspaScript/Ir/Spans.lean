import KaspaScript.Codegen.Compile
import KaspaScript.Ir.Rendered
import KaspaScript.Lexer.Slice
import KaspaScript.Parser.Core
import KaspaScript.Parser.Spelled

namespace KaspaScript

/-- The span covers this text of the source, from one character's boundary to another's. -/
def CoversText (source : String) (span : Span) (slice : List Char) : Prop :=
  ∃ before after, source.toList = before ++ slice ++ after ∧
    span = ⟨byteLength before, byteLength (before ++ slice)⟩

theorem textBefore_of_coversText {source : String} {span : Span} {slice : List Char}
    (h : CoversText source span slice) :
    textBefore span.stop source.toList = textBefore span.start source.toList ++ slice := by
  obtain ⟨before, after, hsplit, rfl⟩ := h
  have hstop := textBefore_append (before ++ slice) after
  have hstart := textBefore_append before (slice ++ after)
  rw [← List.append_assoc] at hstart
  rw [hsplit, hstop, hstart]

theorem coversText_unique {source : String} {span : Span} {slice slice' : List Char}
    (h : CoversText source span slice) (h' : CoversText source span slice') : slice = slice' := by
  have hsame := (textBefore_of_coversText h).symm.trans (textBefore_of_coversText h')
  exact List.append_cancel_left hsame

/-- The constraint's span covers an expression, and that has the constraint's normal form. -/
def Constraint.PointsAtWhole (source file : String) (constraint : Constraint) : Prop :=
  ∃ slice tokens e, CoversText source constraint.sourceSpan slice ∧
    lexFile (String.ofList slice) file = .ok tokens ∧
    (⟨tokens, String.ofList slice, file⟩ : Parser).parseExpression 0 = .ok (e, tokens.length) ∧
    normalizeExpression e = constraint.expression

/-- The expression is written with no operand in parentheses at its beginning or end, and in its
text the quotes pair up and every slash-star is closed. -/
def Expr.WrittenWhole (source file : String) (e : Expr) : Prop :=
  ∃ tokens ts level first last slice, lexFile source file = .ok tokens ∧ ts <:+: tokens ∧
    Derives ts (.expr level false false e) ∧ ts.head? = some first ∧ ts.getLast? = some last ∧
    CoversText source ⟨first.span.start, last.span.stop⟩ slice ∧ QuotesPair slice ∧
    CommentsClose slice

def constraintOf (e : Expr) : Constraint :=
  ⟨classifyConstraint e, normalizeExpression e, e.span⟩

theorem lexFile_of_lexes {file : String} {slice : List Char} {kinds : List TokenKind}
    (h : Lexes (String.ofList slice) file slice kinds) (hquotes : QuotesPair slice)
    (hcomments : CommentsClose slice) :
    ∃ tokens, lexFile (String.ofList slice) file = .ok tokens ∧
      tokens.map Token.kind = kinds := by
  obtain ⟨tokens, hloop, hkinds⟩ := h slice.length 0 le_rfl
  refine ⟨tokens, lexFile_eq_ok.mpr ?_, hkinds⟩
  rw [String.toList_ofList]
  exact ⟨(openBlockComment_iff slice 0 none).mpr hcomments, (openString_iff slice 0 0 false).1.mpr
    hquotes, hloop⟩

section

variable {source file : String} {tokens ts : List Token} {e : Expr}

/-- The span of a derived expression covers its core, which reads as the same tokens on its own. -/
theorem coversText_of_reaches (hlex : lexFile source file = .ok tokens) (hts : ts <:+: tokens)
    {span : Span} (h : Parser.Reaches ts span) :
    ∃ slice, CoversText source span slice ∧
      ∀ source' file', Lexes source' file' slice (Parser.kinds ts) := by
  obtain ⟨first, last, hfirst, hlast, rfl⟩ := h
  obtain ⟨before, slice, after, hsplit, hstart, hstop, hlexes⟩ :=
    lexes_between hlex hts hfirst hlast
  exact ⟨slice, ⟨before, after, hsplit, by rw [hstart, hstop]⟩, hlexes⟩

theorem pointsAtWhole_of_writtenWhole (h : e.WrittenWhole source file) :
    (constraintOf e).PointsAtWhole source file := by
  obtain ⟨tokens, ts, level, first, last, slice, hlex, hts, hderives, hfirst, hlast, hcovers,
    hquotes, hcomments⟩ := h
  obtain ⟨opens, core, closes, hcore⟩ := Parser.cored_of_derives hderives
  have hopens : opens = [] := by simpa using hcore.first
  have hcloses : closes = [] := by simpa using hcore.last
  have hsame : ts = core := by simpa [hopens, hcloses] using hcore.split
  obtain ⟨first', last', hfirst', hlast', hspan⟩ := hcore.reaches
  rw [← hsame] at hfirst' hlast'
  obtain rfl := Option.some.inj (hfirst.symm.trans hfirst')
  obtain rfl := Option.some.inj (hlast.symm.trans hlast')
  obtain ⟨slice', hcovers', hlexes⟩ :=
    coversText_of_reaches hlex hts ⟨first, last, hfirst, hlast, rfl⟩
  obtain rfl := coversText_unique hcovers hcovers'
  obtain ⟨tokens', hlex', hkinds⟩ :=
    lexFile_of_lexes (hlexes (String.ofList slice) file) hquotes hcomments
  obtain ⟨e', herased, hparse⟩ := Parser.parseExpression_of_derives hderives
    (p := ⟨tokens', String.ofList slice, file⟩) hkinds
  refine ⟨slice, tokens', e', ?_, hlex', hparse, ?_⟩
  · rw [constraintOf, hspan]
    exact hcovers
  · rw [constraintOf, ← normalizeExpression_erased e', herased, normalizeExpression_erased]

theorem writtenWhole_of_pointsAtWhole (hlex : lexFile source file = .ok tokens)
    (hphrased : Phrased tokens e) (h : (constraintOf e).PointsAtWhole source file) :
    e.WrittenWhole source file := by
  obtain ⟨ts, hts, level, first, last, -, hderives⟩ := hphrased
  obtain ⟨opens, core, closes, hcore⟩ := Parser.cored_of_derives hderives
  obtain ⟨slice, tokens', e', hcovers, hlex', hparse, -⟩ := h
  have hinner : core <:+: tokens := by
    refine List.IsInfix.trans ?_ hts
    exact ⟨opens, closes, hcore.split.symm⟩
  obtain ⟨slice', hcovers', hlexes⟩ := coversText_of_reaches hlex hinner hcore.reaches
  obtain rfl := coversText_unique hcovers hcovers'
  obtain ⟨hcomments, hquotes, hloop⟩ := lexFile_eq_ok.mp hlex'
  rw [String.toList_ofList] at hcomments hquotes hloop
  -- the slice reads as the kinds of the core, and whatever parses has its parentheses in pairs
  obtain ⟨again, hagain, hkinds⟩ := hlexes (String.ofList slice) file slice.length 0 le_rfl
  obtain rfl := Except.ok.inj (hloop.symm.trans hagain)
  obtain ⟨ts', hdrop, _, _, _, _, _, hwhole⟩ := Parser.parses_parseExpression.of_ok hparse
  have hall : tokens' = ts' := by simpa using hdrop
  rw [← hall] at hwhole
  have hbalanced := Parser.balanced_of_derives hwhole
  rw [Parser.kinds, hkinds] at hbalanced
  rcases hcore.whole with hcorederives | hunbalanced
  · obtain ⟨level, hcorederives⟩ := hcorederives
    obtain ⟨first, last, hfirst, hlast, hspan⟩ := hcore.reaches
    refine ⟨tokens, core, level, first, last, slice, hlex, hinner, hcorederives, hfirst, hlast,
      ?_, (openString_iff slice 0 0 false).1.mp hquotes,
      (openBlockComment_iff slice 0 none).mp hcomments⟩
    rw [← hspan]
    exact hcovers
  · exact absurd hbalanced hunbalanced

/-- Every require of a parsed source is a segment of its tokens. -/
theorem phrased_of_parseFile {program : Program} (h : parseFile source file = .ok program) :
    ∃ tokens, lexFile source file = .ok tokens ∧
      ∀ contract ∈ program.contracts, ∀ spend ∈ contract.spends, ∀ e ∈ requireExprs spend,
        Phrased tokens e := by
  unfold parseFile at h
  cases hlex : lexFile source file with
  | error error =>
    rw [hlex] at h
    cases h
  | ok tokens =>
    rw [hlex] at h
    obtain ⟨parsed, hparse, rfl⟩ := Library.map_eq_ok.mp h
    obtain ⟨_, _, _, _, hspelled⟩ := Parser.parses_parseProgram.of_ok hparse
    refine ⟨tokens, rfl, ?_⟩
    intro contract hcontract spend hspend e he
    obtain ⟨stmt, hstmt, hrequire⟩ := List.mem_filterMap.mp he
    have hstmt := ((hspelled contract hcontract).spends spend hspend).body stmt hstmt
    cases stmt with
    | require e' span =>
      obtain rfl := Option.some.inj hrequire
      exact hstmt
    | «let» _ _ _ | «return» _ _ => cases hrequire

end

/-- The expression is a require of the program. -/
def Program.Requires (program : Program) (e : Expr) : Prop :=
  ∃ contract ∈ program.contracts, ∃ spend ∈ contract.spends, e ∈ requireExprs spend

theorem require_of_constraint {program : Program} {contract : ContractModel}
    (hcontract : contract ∈ (buildApplicationModel program).contracts)
    {transition : TransitionModel} (htransition : transition ∈ contract.transitions)
    {constraint : Constraint} (hconstraint : constraint ∈ transition.constraints) :
    ∃ e, program.Requires e ∧ constraint = constraintOf e := by
  obtain ⟨source, hsource, rfl⟩ := List.mem_map.mp hcontract
  obtain ⟨spend, hspend, rfl⟩ := List.mem_map.mp htransition
  obtain ⟨e, he, rfl⟩ := List.mem_map.mp hconstraint
  exact ⟨e, ⟨source, hsource, spend, hspend, he⟩, rfl⟩

/-- Every constraint of a compiled source stems from a require. Its span covers a piece of the
source, and that piece is the whole condition exactly when the require is written so. -/
theorem constraint_pointsAtWhole_iff (sha256 : Bytes → Bytes) (source file : String)
    (target : Target) (artifact : CompiledArtifact)
    (h : compileFileForTarget sha256 source file target = .ok artifact) :
    ∃ program, parseFile source file = .ok program ∧
      ∀ contract ∈ artifact.application.contracts, ∀ transition ∈ contract.transitions,
        ∀ constraint ∈ transition.constraints,
          ∃ e, program.Requires e ∧ constraint.expression = normalizeExpression e ∧
            (∃ slice, CoversText source constraint.sourceSpan slice) ∧
            (constraint.PointsAtWhole source file ↔ e.WrittenWhole source file) := by
  obtain ⟨ir, hlower, hcompile⟩ := lowerFile_of_compile h
  obtain ⟨program, hparse, _, hlower⟩ := program_of_lowerFile hlower
  obtain ⟨_, happlication, _⟩ := lowerProgram_eq_ok hlower
  obtain ⟨tokens, hlex, hphrased⟩ := phrased_of_parseFile hparse
  refine ⟨program, hparse, ?_⟩
  intro contract hcontract transition htransition constraint hconstraint
  rw [application_of_compileToccata hcompile, happlication] at hcontract
  obtain ⟨e, hrequires, rfl⟩ := require_of_constraint hcontract htransition hconstraint
  obtain ⟨source', hsource', spend, hspend, he⟩ := hrequires
  have hwritten := hphrased source' hsource' spend hspend e he
  refine ⟨e, ⟨source', hsource', spend, hspend, he⟩, rfl, ?_,
    writtenWhole_of_pointsAtWhole hlex hwritten, pointsAtWhole_of_writtenWhole⟩
  obtain ⟨ts, hts, level, first, last, -, hderives⟩ := hwritten
  obtain ⟨opens, core, closes, hcore⟩ := Parser.cored_of_derives hderives
  have hinner : core <:+: tokens := by
    refine List.IsInfix.trans ?_ hts
    exact ⟨opens, closes, hcore.split.symm⟩
  obtain ⟨slice, hcovers, _⟩ := coversText_of_reaches hlex hinner hcore.reaches
  exact ⟨slice, hcovers⟩

def plainSource : String := "contract A\x7bspend s()\x7brequire (1==1);\x7d\x7d"

def plainTokens : List Token :=
  [⟨.contract, ⟨0, 8⟩⟩, ⟨.identifier "A", ⟨9, 10⟩⟩, ⟨.leftBrace, ⟨10, 11⟩⟩, ⟨.spend, ⟨11, 16⟩⟩,
    ⟨.identifier "s", ⟨17, 18⟩⟩, ⟨.leftParen, ⟨18, 19⟩⟩, ⟨.rightParen, ⟨19, 20⟩⟩,
    ⟨.leftBrace, ⟨20, 21⟩⟩, ⟨.require, ⟨21, 28⟩⟩, ⟨.leftParen, ⟨29, 30⟩⟩,
    ⟨.integer "1", ⟨30, 31⟩⟩, ⟨.equalEqual, ⟨31, 33⟩⟩, ⟨.integer "1", ⟨33, 34⟩⟩,
    ⟨.rightParen, ⟨34, 35⟩⟩, ⟨.semicolon, ⟨35, 36⟩⟩, ⟨.rightBrace, ⟨36, 37⟩⟩,
    ⟨.rightBrace, ⟨37, 38⟩⟩]

theorem lex_plain : lexFile plainSource "p.ks" = .ok plainTokens := by
  decide +kernel

/-- Parentheses around the whole condition are no part of its span. -/
theorem constraint_pointsAtWhole_plain : ∃ artifact program,
    compileFileForTarget (fun _ => []) plainSource "p.ks" .verifiedTn12 = .ok artifact ∧
      parseFile plainSource "p.ks" = .ok program ∧
      ∀ contract ∈ artifact.application.contracts, ∀ transition ∈ contract.transitions,
        ∀ constraint ∈ transition.constraints,
          ∃ e, program.Requires e ∧ constraint.expression = normalizeExpression e ∧
            (∃ slice, CoversText plainSource constraint.sourceSpan slice) ∧
            (constraint.PointsAtWhole plainSource "p.ks" ↔ e.WrittenWhole plainSource "p.ks") := by
  have hrun : ∃ artifact,
      compileFileForTarget (fun _ => []) plainSource "p.ks" .verifiedTn12 = .ok artifact ∧
        artifact.backend = "kaspa-txscript" := by
    apply Library.toOption_map_eq_some
    rw [compileFileForTarget, lowerFile_of_lex lex_plain]
    decide +kernel
  obtain ⟨artifact, hcompile, _⟩ := hrun
  obtain ⟨program, hparse, hconstraints⟩ := constraint_pointsAtWhole_iff (fun _ => [])
    plainSource "p.ks" .verifiedTn12 artifact hcompile
  exact ⟨artifact, program, hcompile, hparse, hconstraints⟩

/-- The condition begins with an operand in parentheses. -/
def edgeSource : String := "contract A\x7bspend s()\x7brequire (1==1)==true;\x7d\x7d"

def edgeTokens : List Token :=
  [⟨.contract, ⟨0, 8⟩⟩, ⟨.identifier "A", ⟨9, 10⟩⟩, ⟨.leftBrace, ⟨10, 11⟩⟩, ⟨.spend, ⟨11, 16⟩⟩,
    ⟨.identifier "s", ⟨17, 18⟩⟩, ⟨.leftParen, ⟨18, 19⟩⟩, ⟨.rightParen, ⟨19, 20⟩⟩,
    ⟨.leftBrace, ⟨20, 21⟩⟩, ⟨.require, ⟨21, 28⟩⟩, ⟨.leftParen, ⟨29, 30⟩⟩,
    ⟨.integer "1", ⟨30, 31⟩⟩, ⟨.equalEqual, ⟨31, 33⟩⟩, ⟨.integer "1", ⟨33, 34⟩⟩,
    ⟨.rightParen, ⟨34, 35⟩⟩, ⟨.equalEqual, ⟨35, 37⟩⟩, ⟨.true, ⟨37, 41⟩⟩,
    ⟨.semicolon, ⟨41, 42⟩⟩, ⟨.rightBrace, ⟨42, 43⟩⟩, ⟨.rightBrace, ⟨43, 44⟩⟩]

theorem lex_edge : lexFile edgeSource "e.ks" = .ok edgeTokens := by
  decide +kernel

/-- What the span of the condition covers. -/
def edgeSlice : List Char := "1==1)==true".toList

def edgeSliceTokens : List Token :=
  [⟨.integer "1", ⟨0, 1⟩⟩, ⟨.equalEqual, ⟨1, 3⟩⟩, ⟨.integer "1", ⟨3, 4⟩⟩,
    ⟨.rightParen, ⟨4, 5⟩⟩, ⟨.equalEqual, ⟨5, 7⟩⟩, ⟨.true, ⟨7, 11⟩⟩]

theorem lex_edgeSlice : lexFile (String.ofList edgeSlice) "e.ks" = .ok edgeSliceTokens := by
  decide +kernel

theorem coversText_edge : CoversText edgeSource ⟨30, 41⟩ edgeSlice :=
  ⟨edgeSource.toList.take 30, edgeSource.toList.drop 41, by decide +kernel, by decide +kernel⟩

/-- The span leaves out the opening parenthesis, and what it covers is no expression. -/
theorem constraint_misses_parenthesis : ∃ artifact,
    compileFileForTarget (fun _ => []) edgeSource "e.ks" .verifiedTn12 = .ok artifact ∧
      ∃ contract ∈ artifact.application.contracts, ∃ transition ∈ contract.transitions,
        ∃ constraint ∈ transition.constraints, ¬ constraint.PointsAtWhole edgeSource "e.ks" := by
  have hrun : ∃ artifact,
      compileFileForTarget (fun _ => []) edgeSource "e.ks" .verifiedTn12 = .ok artifact ∧
        ((artifact.application.contracts.flatMap ContractModel.transitions).flatMap
          TransitionModel.constraints).map Constraint.sourceSpan = [⟨30, 41⟩] := by
    apply Library.toOption_map_eq_some
    rw [compileFileForTarget, lowerFile_of_lex lex_edge]
    decide +kernel
  obtain ⟨artifact, hcompile, hspans⟩ := hrun
  have hspan : (⟨30, 41⟩ : Span) ∈ ((artifact.application.contracts.flatMap
      ContractModel.transitions).flatMap TransitionModel.constraints).map
      Constraint.sourceSpan := by
    rw [hspans]
    exact List.mem_singleton_self _
  obtain ⟨constraint, hconstraint, hspan⟩ := List.mem_map.mp hspan
  obtain ⟨transition, htransition, hconstraint⟩ := List.mem_flatMap.mp hconstraint
  obtain ⟨contract, hcontract, htransition⟩ := List.mem_flatMap.mp htransition
  refine ⟨artifact, hcompile, contract, hcontract, transition, htransition, constraint,
    hconstraint, ?_⟩
  intro hwhole
  obtain ⟨slice, tokens, e, hcovers, hlex, hparse, _⟩ := hwhole
  rw [hspan] at hcovers
  obtain rfl := coversText_unique hcovers coversText_edge
  obtain rfl := Except.ok.inj (hlex.symm.trans lex_edgeSlice)
  -- the parser stops at the parenthesis that nothing opened
  have hstop : ((⟨edgeSliceTokens, String.ofList edgeSlice, "e.ks"⟩ : Parser).parseExpression
      0).toOption.map Prod.snd = some 3 := by decide +kernel
  rw [hparse] at hstop
  have hlength : edgeSliceTokens.length = 3 := Option.some.inj hstop
  exact absurd hlength (by decide)

end KaspaScript
