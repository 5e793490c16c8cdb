import KaspaScript.Parser.Ast

namespace KaspaScript

/-- Largest value of the source's `u64`. -/
def u64Max : Nat := 2 ^ 64 - 1

/-- Parser error with source location; a lexical error is carried over unchanged. -/
structure ParseError where
  file : String
  line : Nat
  column : Nat
  span : Span
  message : String
  deriving DecidableEq, Repr

/-- How a parse can stop: with the source's error, or because the recursion bound of the model
was reached. -/
inductive ParseFailure where
  | error (error : ParseError)
  | outOfFuel
  deriving DecidableEq, Repr

/-- Pratt parser for KaspaScript; the cursor is the state of `ParseM`. -/
structure Parser where
  tokens : List Token
  source : String
  file : String

abbrev ParseM := StateT Nat (Except ParseFailure)

def isValueKeyword : TokenKind → Bool
  | .covenant | .covenantId | .zkVerify | .finalityDepth | .sequencing | .multisig
  | .inputBuiltin | .outputBuiltin | .block => true
  | _ => false

def tokenText : TokenKind → String
  | .covenant => "covenant"
  | .covenantId => "covenant_id"
  | .zkVerify => "zk_verify"
  | .finalityDepth => "finality_depth"
  | .sequencing => "sequencing"
  | .multisig => "multisig"
  | .inputBuiltin => "input"
  | .outputBuiltin => "output"
  | .block => "block"
  | _ => "<token>"

def displayKind : TokenKind → String
  | .identifier value => s!"identifier `{value}`"
  | .integer value => s!"integer `{value}`"
  | .string _ => "string"
  | .contract => "Contract"
  | .params => "Params"
  | .spend => "Spend"
  | .require => "Require"
  | .let => "Let"
  | .if => "If"
  | .else => "Else"
  | .return => "Return"
  | .true => "True"
  | .false => "False"
  | .covenant => "Covenant"
  | .covenantId => "CovenantId"
  | .zkVerify => "ZkVerify"
  | .finalityDepth => "FinalityDepth"
  | .sequencing => "Sequencing"
  | .multisig => "Multisig"
  | .inputBuiltin => "InputBuiltin"
  | .outputBuiltin => "OutputBuiltin"
  | .block => "Block"
  | .type ty => "Type(" ++ ty.debug ++ ")"
  | .equal => "Equal"
  | .equalEqual => "EqualEqual"
  | .bang => "Bang"
  | .bangEqual => "BangEqual"
  | .greater => "Greater"
  | .greaterEqual => "GreaterEqual"
  | .less => "Less"
  | .lessEqual => "LessEqual"
  | .andAnd => "AndAnd"
  | .orOr => "OrOr"
  | .plus => "Plus"
  | .minus => "Minus"
  | .star => "Star"
  | .slash => "Slash"
  | .percent => "Percent"
  | .arrow => "Arrow"
  | .leftBrace => "LeftBrace"
  | .rightBrace => "RightBrace"
  | .leftParen => "LeftParen"
  | .rightParen => "RightParen"
  | .leftBracket => "LeftBracket"
  | .rightBracket => "RightBracket"
  | .comma => "Comma"
  | .colon => "Colon"
  | .semicolon => "Semicolon"
  | .dot => "Dot"

/-- The operator a token stands for and its precedence. -/
def binaryOpOf : TokenKind → Option (BinaryOp × Nat)
  | .orOr => some (.or, 1)
  | .andAnd => some (.and, 2)
  | .equalEqual => some (.equal, 3)
  | .bangEqual => some (.notEqual, 3)
  | .greater => some (.greater, 4)
  | .greaterEqual => some (.greaterEqual, 4)
  | .less => some (.less, 4)
  | .lessEqual => some (.lessEqual, 4)
  | .plus => some (.add, 5)
  | .minus => some (.sub, 5)
  | .star => some (.mul, 6)
  | .slash => some (.div, 6)
  | .percent => some (.mod, 6)
  | _ => none

namespace Parser

variable (p : Parser)

def currentKind (cursor : Nat) : Option TokenKind := (p.tokens[cursor]?).map Token.kind

def isAtEnd (cursor : Nat) : Bool := p.tokens.length ≤ cursor

def errorAt {α : Type} (span : Span) (message : String) : ParseM α := fun _ =>
  let location := locate p.source p.file span.start
  .error (.error ⟨location.file, location.line, location.column, span, message⟩)

/-- Points at the current token, past the end at the last one. -/
def errorHere {α : Type} (message : String) : ParseM α := fun cursor =>
  let span :=
    match p.tokens[cursor]? with
    | some token => token.span
    | none => match p.tokens.getLast? with
      | some token => token.span
      | none => ⟨0, 0⟩
  p.errorAt span message cursor

def outOfFuel {α : Type} : ParseM α := fun _ => .error .outOfFuel

def advanceOrError (message : String) : ParseM Token := fun cursor =>
  match p.tokens[cursor]? with
  | some token => .ok (token, cursor + 1)
  | none => p.errorHere message cursor

/-- The kinds compared here carry no text, so equality is the source's discriminant test. -/
def checkExact (expected : TokenKind) : ParseM Bool := fun cursor =>
  .ok (p.currentKind cursor = some expected, cursor)

def matchExact (expected : TokenKind) : ParseM Bool := fun cursor =>
  if p.currentKind cursor = some expected then .ok (true, cursor + 1) else .ok (false, cursor)

def expectExact (expected : TokenKind) (label : String) : ParseM Token := do
  let token ← p.advanceOrError s!"expected {label}"
  if token.kind = expected then pure token
  else p.errorAt token.span s!"expected {label} found {displayKind token.kind}"

def previousSpan : ParseM Span := fun cursor =>
  .ok (((p.tokens[cursor - 1]?).map Token.span).getD ⟨0, 0⟩, cursor)

/-- Decimal value of a digit string. -/
def decimalValue (value : String) : Nat :=
  value.toList.foldl (fun total ch => 10 * total + (ch.toNat - '0'.toNat)) 0

def parseU64 (value : String) (span : Span) : ParseM Nat :=
  if decimalValue value ≤ u64Max then pure (decimalValue value)
  else p.errorAt span "integer literal exceeds u64 range"

def parseIdentifier : ParseM Ident := do
  let token ← p.advanceOrError "expected identifier"
  match token.kind with
  | .identifier name => pure ⟨name, token.span⟩
  | kind =>
      if isValueKeyword kind then pure ⟨tokenText kind, token.span⟩
      else p.errorAt token.span "expected identifier"

mutual

def parsePrecedence : Nat → Nat → ParseM Expr
  | 0, _ => outOfFuel
  | fuel + 1, minPrecedence => do
      let left ← parseUnary fuel
      parseBinaryRest fuel minPrecedence left

/-- The loop of `parse_precedence` over operators that bind at least as tightly. -/
def parseBinaryRest : Nat → Nat → Expr → ParseM Expr
  | 0, _, _ => outOfFuel
  | fuel + 1, minPrecedence, left => do
      match (p.currentKind (← get)).bind binaryOpOf with
      | none => pure left
      | some (op, precedence) =>
          if precedence < minPrecedence then pure left
          else do
            modify (· + 1)
            let right ← parsePrecedence fuel (precedence + 1)
            parseBinaryRest fuel minPrecedence
              (.binary left op right ⟨left.span.start, right.span.stop⟩)

def parseUnary : Nat → ParseM Expr
  | 0 => outOfFuel
  | fuel + 1 => do
      if ← p.matchExact .bang then
        let start := (← p.previousSpan).start
        let expr ← parseUnary fuel
        return .unary .not expr ⟨start, expr.span.stop⟩
      if ← p.matchExact .minus then
        let start := (← p.previousSpan).start
        let expr ← parseUnary fuel
        return .unary .negate expr ⟨start, expr.span.stop⟩
      parsePostfix fuel

def parsePostfix : Nat → ParseM Expr
  | 0 => outOfFuel
  | fuel + 1 => do
      let expr ← parsePrimary fuel
      parsePostfixRest fuel expr

/-- The loop of `parse_postfix` over calls and field accesses. -/
def parsePostfixRest : Nat → Expr → ParseM Expr
  | 0, _ => outOfFuel
  | fuel + 1, expr => do
      if ← p.matchExact .leftParen then
        let args ← parseArguments fuel
        let stop := (← p.expectExact .rightParen "`)`").span.stop
        return ← parsePostfixRest fuel (.call expr args ⟨expr.span.start, stop⟩)
      if ← p.matchExact .dot then
        let field ← p.parseIdentifier
        return ← parsePostfixRest fuel (.field expr field ⟨expr.span.start, field.span.stop⟩)
      pure expr

def parseArguments : Nat → ParseM (List Expr)
  | 0 => outOfFuel
  | fuel + 1 => do
      if ← p.checkExact .rightParen then return []
      let arg ← parsePrecedence fuel 0
      if !(← p.matchExact .comma) then
        if !(← p.checkExact .rightParen) then
          (p.errorHere "expected `,` or `)`" : ParseM Unit)
      let rest ← parseArguments fuel
      pure (arg :: rest)

def parsePrimary : Nat → ParseM Expr
  | 0 => outOfFuel
  | fuel + 1 => do
      let token ← p.advanceOrError "expected expression"
      match token.kind with
      | .identifier name => pure (.ident ⟨name, token.span⟩)
      | .integer value => do
          let value ← p.parseU64 value token.span
          pure (.integer value token.span)
      | .string value => pure (.string value token.span)
      | .true => pure (.bool true token.span)
      | .false => pure (.bool false token.span)
      | .leftParen => do
          let expr ← parsePrecedence fuel 0
          let _ ← p.expectExact .rightParen "`)`"
          pure expr
      | .leftBracket => do
          let elements ← parseElements fuel
          let stop := (← p.expectExact .rightBracket "`]`").span.stop
          pure (.array elements ⟨token.span.start, stop⟩)
      | kind =>
          if isValueKeyword kind then pure (.ident ⟨tokenText kind, token.span⟩)
          else p.errorAt token.span "expected expression"

/-- The element loop of `parse_array`. -/
def parseElements : Nat → ParseM (List Expr)
  | 0 => outOfFuel
  | fuel + 1 => do
      if ← p.checkExact .rightBracket then return []
      let element ← parsePrecedence fuel 0
      if !(← p.matchExact .comma) then
        if !(← p.checkExact .rightBracket) then
          (p.errorHere "expected `,` or `]`" : ParseM Unit)
      let rest ← parseElements fuel
      pure (element :: rest)

end

attribute [grind =] parsePrecedence parseBinaryRest parseUnary parsePostfix parsePostfixRest
  parseArguments parsePrimary parseElements

/-- Enough for every chain of nested calls: a token opens at most five of them. -/
def fuel : Nat := 8 * p.tokens.length + 8

def parseExpression : ParseM Expr := p.parsePrecedence p.fuel 0

def parseStatement : ParseM Stmt := do
  if ← p.matchExact .let then
    let start := (← p.previousSpan).start
    let name ← p.parseIdentifier
    let _ ← p.expectExact .equal "`=`"
    let expr ← p.parseExpression
    let stop := (← p.expectExact .semicolon "`;`").span.stop
    return .let name expr ⟨start, stop⟩
  if ← p.matchExact .require then
    let start := (← p.previousSpan).start
    let expr ← p.parseExpression
    let stop := (← p.expectExact .semicolon "`;`").span.stop
    return .require expr ⟨start, stop⟩
  if ← p.matchExact .return then
    let start := (← p.previousSpan).start
    let expr ← p.parseExpression
    let stop := (← p.expectExact .semicolon "`;`").span.stop
    return .return expr ⟨start, stop⟩
  p.errorHere "expected statement"

def parseTypedParams (terminator : TokenKind) : Nat → ParseM (List Param)
  | 0 => outOfFuel
  | fuel + 1 => do
      if ← p.checkExact terminator then return []
      let name ← p.parseIdentifier
      let _ ← p.expectExact .colon "`:`"
      let token ← p.advanceOrError "expected type"
      let ty ← match token.kind with
        | .type ty => pure ty
        | _ => p.errorAt token.span "expected type"
      if !(← p.matchExact .comma) then
        if !(← p.checkExact terminator) then
          (p.errorHere "expected `,` or terminator" : ParseM Unit)
      let rest ← parseTypedParams terminator fuel
      pure (⟨name, ty, ⟨name.span.start, token.span.stop⟩⟩ :: rest)

def parseBody : Nat → ParseM (List Stmt)
  | 0 => outOfFuel
  | fuel + 1 => do
      if ← p.checkExact .rightBrace then return []
      if p.isAtEnd (← get) then
        (p.errorHere "expected `\x7d`" : ParseM Unit)
      let stmt ← p.parseStatement
      let rest ← parseBody fuel
      pure (stmt :: rest)

def parseSpend : ParseM Spend := do
  let name ← p.parseIdentifier
  let start := name.span.start
  let _ ← p.expectExact .leftParen "`(`"
  let params ← p.parseTypedParams .rightParen p.fuel
  let _ ← p.expectExact .rightParen "`)`"
  let _ ← p.expectExact .leftBrace "`\x7b`"
  let body ← p.parseBody p.fuel
  let stop := (← p.expectExact .rightBrace "`\x7d`").span.stop
  pure ⟨name, params, body, ⟨start, stop⟩⟩

/-- The loop of `parse_params_block`; a later `finality_depth` replaces an earlier one. -/
def parseParamEntries : Nat → Option Nat → ParseM (List Param × Option Nat)
  | 0, _ => outOfFuel
  | fuel + 1, finalityDepth => do
      if ← p.checkExact .rightBrace then return ([], finalityDepth)
      let name ← p.parseIdentifier
      let _ ← p.expectExact .colon "`:`"
      if name.name = "finality_depth" then
        let token ← p.advanceOrError "expected integer literal"
        let value ← match token.kind with
          | .integer value => p.parseU64 value token.span
          | _ => p.errorAt token.span "expected integer literal"
        if !(← p.matchExact .comma) then
          if !(← p.checkExact .rightBrace) then
            (p.errorHere "expected `,` or `\x7d`" : ParseM Unit)
        parseParamEntries fuel (some value)
      else
        let token ← p.advanceOrError "expected type"
        let ty ← match token.kind with
          | .type ty => pure ty
          | _ => p.errorAt token.span "expected type"
        let span := ⟨name.span.start, (← p.previousSpan).stop⟩
        if !(← p.matchExact .comma) then
          if !(← p.checkExact .rightBrace) then
            (p.errorHere "expected `,` or `\x7d`" : ParseM Unit)
        let (params, depth) ← parseParamEntries fuel finalityDepth
        pure (⟨name, ty, span⟩ :: params, depth)

def parseParamsBlock : ParseM (List Param × Option Nat) := do
  let _ ← p.expectExact .leftBrace "`\x7b`"
  let entries ← p.parseParamEntries p.fuel none
  let _ ← p.expectExact .rightBrace "`\x7d`"
  pure entries

/-- The member loop of `parse_contract`. -/
def parseMembers : Nat → List Param × Option Nat × List Spend →
    ParseM (List Param × Option Nat × List Spend)
  | 0, _ => outOfFuel
  | fuel + 1, (params, finalityDepth, spends) => do
      if ← p.checkExact .rightBrace then return (params, finalityDepth, spends)
      if p.isAtEnd (← get) then
        (p.errorHere "expected `\x7d`" : ParseM Unit)
      if ← p.matchExact .params then
        let (parsed, depth) ← p.parseParamsBlock
        return ← parseMembers fuel (params ++ parsed, depth.or finalityDepth, spends)
      if ← p.matchExact .spend then
        let spend ← p.parseSpend
        return ← parseMembers fuel (params, finalityDepth, spends ++ [spend])
      p.errorHere "expected `params`, `spend`, or `\x7d`"

def parseContract : ParseM Contract := do
  let start := (← p.expectExact .contract "`contract`").span.start
  let name ← p.parseIdentifier
  let _ ← p.expectExact .leftBrace "`\x7b`"
  let (params, finalityDepth, spends) ← p.parseMembers p.fuel ([], none, [])
  let stop := (← p.expectExact .rightBrace "`\x7d`").span.stop
  pure ⟨name, params, finalityDepth, spends, ⟨start, stop⟩⟩

def parseContracts : Nat → ParseM (List Contract)
  | 0 => outOfFuel
  | fuel + 1 => do
      if p.isAtEnd (← get) then return []
      let contract ← p.parseContract
      let rest ← parseContracts fuel
      pure (contract :: rest)

/-- Parses the complete token stream. -/
def parseProgram : ParseM Program := do
  let contracts ← p.parseContracts p.fuel
  pure ⟨contracts⟩

end Parser

end KaspaScript
