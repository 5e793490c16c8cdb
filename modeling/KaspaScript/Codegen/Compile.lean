import KaspaScript.Codegen.Toccata
import KaspaScript.Ir.Lowers
import KaspaScript.Lexer.Lexer
import KaspaScript.Semantic.Accepted

namespace KaspaScript

def parseErrorOfLexError (error : LexError) : ParseError :=
  ⟨error.file, error.line, error.column, error.span, error.message⟩

/-- Parses a KaspaScript source file. -/
def parseFile (source file : String) : Except ParseFailure Program :=
  match lexFile source file with
  | .error error => .error (.error (parseErrorOfLexError error))
  | .ok tokens => Prod.fst <$> Parser.parseProgram ⟨tokens, source, file⟩ 0

/-- Lowers source into opcode-agnostic IR. -/
def lowerFile (source file : String) : Except IrError IrProgram :=
  match parseFile source file with
  | .error error => .error (.semantic ⟨.parse error, []⟩)
  | .ok program =>
      match analyzeProgram program source file with
      | .error failure => .error (.semantic failure)
      | .ok analysis => lowerProgram analysis.program analysis.kipRequirements file

/-- The passes after the lexer. -/
def lowerTokens (tokens : List Token) (source file : String) : Except IrError IrProgram :=
  match Prod.fst <$> Parser.parseProgram ⟨tokens, source, file⟩ 0 with
  | .error error => .error (.semantic ⟨.parse error, []⟩)
  | .ok program =>
      match analyzeProgram program source file with
      | .error failure => .error (.semantic failure)
      | .ok analysis => lowerProgram analysis.program analysis.kipRequirements file

theorem lowerFile_of_lex {source file : String} {tokens : List Token}
    (h : lexFile source file = .ok tokens) :
    lowerFile source file = lowerTokens tokens source file := by
  rw [lowerFile, parseFile, h]
  rfl

/-- The crate version the artifacts carry. -/
def cargoPkgVersion : String := "0.1.0"

/-- Runs IR lowering and code generation for an explicit target gate. -/
def compileFileForTarget (sha256 : Bytes → Bytes) (source file : String) (target : Target) :
    Except CodegenError CompiledArtifact :=
  match lowerFile source file with
  | .error error => .error (.ir error)
  | .ok ir => compileToccata sha256 source ir cargoPkgVersion target

/-- An artifact's contracts are those of the lowered program. -/
theorem contracts_of_compileToccata {sha256 : Bytes → Bytes} {source : String} {ir : IrProgram}
    {version : String} {target : Target} {artifact : CompiledArtifact}
    (h : compileToccata sha256 source ir version target = .ok artifact) :
    artifact.contracts = ir.contracts.map artifactContract := by
  unfold compileToccata at h
  obtain ⟨warnings, _, h⟩ := Library.bind_eq_ok.mp h
  obtain ⟨⟨bytecode, all⟩, _, h⟩ := Library.bind_eq_ok.mp h
  rw [Library.pure_eq_ok] at h
  rw [← h]

theorem application_of_compileToccata {sha256 : Bytes → Bytes} {source : String} {ir : IrProgram}
    {version : String} {target : Target} {artifact : CompiledArtifact}
    (h : compileToccata sha256 source ir version target = .ok artifact) :
    artifact.application = ir.application := by
  unfold compileToccata at h
  obtain ⟨warnings, _, h⟩ := Library.bind_eq_ok.mp h
  obtain ⟨⟨bytecode, all⟩, _, h⟩ := Library.bind_eq_ok.mp h
  rw [Library.pure_eq_ok] at h
  rw [← h]

theorem lowerFile_of_compile {sha256 : Bytes → Bytes} {source file : String} {target : Target}
    {artifact : CompiledArtifact}
    (h : compileFileForTarget sha256 source file target = .ok artifact) :
    ∃ ir, lowerFile source file = .ok ir ∧
      compileToccata sha256 source ir cargoPkgVersion target = .ok artifact := by
  unfold compileFileForTarget at h
  cases hlower : lowerFile source file with
  | error error =>
    rw [hlower] at h
    cases h
  | ok ir =>
    rw [hlower] at h
    exact ⟨ir, rfl, h⟩

theorem program_of_lowerFile {source file : String} {ir : IrProgram}
    (h : lowerFile source file = .ok ir) :
    ∃ program, parseFile source file = .ok program ∧ ProgramAccepted program source file ∧
      lowerProgram program (collectKipRequirements program) file = .ok ir := by
  unfold lowerFile at h
  cases hparse : parseFile source file with
  | error error =>
    rw [hparse] at h
    cases h
  | ok program =>
    simp only [hparse] at h
    cases hanalyze : analyzeProgram program source file with
    | error failure =>
      rw [hanalyze] at h
      cases h
    | ok analysis =>
      simp only [hanalyze] at h
      obtain ⟨haccepted, hprogram, hkips⟩ := accepted_of_analyzeProgram hanalyze
      rw [hprogram, hkips] at h
      exact ⟨program, rfl, haccepted, h⟩

/-- An artifact of the compiler comes from a program that analysis accepted. -/
theorem program_of_compile {sha256 : Bytes → Bytes} {source file : String} {target : Target}
    {artifact : CompiledArtifact}
    (h : compileFileForTarget sha256 source file target = .ok artifact) :
    ∃ program ir, ProgramAccepted program source file ∧
      lowerProgram program (collectKipRequirements program) file = .ok ir ∧
      compileToccata sha256 source ir cargoPkgVersion target = .ok artifact := by
  obtain ⟨ir, hlower, hcompile⟩ := lowerFile_of_compile h
  obtain ⟨program, _, haccepted, hlower⟩ := program_of_lowerFile hlower
  exact ⟨program, ir, haccepted, hlower, hcompile⟩

end KaspaScript
