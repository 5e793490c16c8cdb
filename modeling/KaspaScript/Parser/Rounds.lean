import KaspaScript.Parser.Parser

namespace KaspaScript.Parser

variable (p : Parser)

/-- A comma, or the closing token that stands next. -/
def separator (close : TokenKind) (message : String) : ParseM Unit := do
  if !(← p.matchExact .comma) then
    if !(← p.checkExact close) then
      p.errorHere message

/-- A loop that collects what its rounds return until `stop` holds. -/
def listLoop {α : Type} (stop : ParseM Bool) (round : ParseM α) (loop : ParseM (List α)) :
    ParseM (List α) := do
  if ← stop then return []
  let item ← round
  let rest ← loop
  pure (item :: rest)

/-- A round of the argument loop. -/
def argumentRound (n : Nat) : ParseM Expr := do
  let arg ← p.parsePrecedence n 0
  p.separator .rightParen "expected `,` or `)`"
  pure arg

theorem separator_bind {β : Type} (close : TokenKind) (message : String) (k : ParseM β) :
    (p.separator close message >>= fun _ => k) = (do
      if !(← p.matchExact .comma) then
        if !(← p.checkExact close) then
          (p.errorHere message : ParseM Unit)
      k) := by
  rw [separator]
  simp only [bind_assoc]
  congr 1
  funext b
  cases b with
  | true => rfl
  | false =>
    simp only [Bool.not_false, if_true, bind_assoc]
    congr 1
    funext b
    cases b <;> rfl

theorem parseArguments_succ (n : Nat) :
    p.parseArguments (n + 1) =
      listLoop (p.checkExact .rightParen) (p.argumentRound n) (p.parseArguments n) := by
  rw [parseArguments]
  simp only [← separator_bind, listLoop, argumentRound, bind_assoc, pure_bind]

/-- A round of the element loop. -/
def elementRound (n : Nat) : ParseM Expr := do
  let element ← p.parsePrecedence n 0
  p.separator .rightBracket "expected `,` or `]`"
  pure element

theorem parseElements_succ (n : Nat) :
    p.parseElements (n + 1) =
      listLoop (p.checkExact .rightBracket) (p.elementRound n) (p.parseElements n) := by
  rw [parseElements]
  simp only [← separator_bind, listLoop, elementRound, bind_assoc, pure_bind]

def typeOf (token : Token) : ParseM TypeName :=
  match token.kind with
  | .type ty => pure ty
  | _ => p.errorAt token.span "expected type"

/-- A round of the loop over typed parameters. -/
def typedParam (terminator : TokenKind) : ParseM Param := do
  let name ← p.parseIdentifier
  let _ ← p.expectExact .colon "`:`"
  let token ← p.advanceOrError "expected type"
  let ty ← p.typeOf token
  p.separator terminator "expected `,` or terminator"
  pure ⟨name, ty, ⟨name.span.start, token.span.stop⟩⟩

theorem parseTypedParams_succ (n : Nat) (terminator : TokenKind) :
    p.parseTypedParams terminator (n + 1) =
      listLoop (p.checkExact terminator) (p.typedParam terminator)
        (p.parseTypedParams terminator n) := by
  rw [parseTypedParams]
  simp only [← separator_bind, listLoop, typedParam, bind_assoc, pure_bind]
  refine bind_congr fun stop => ?_
  split
  · rfl
  refine bind_congr fun name => bind_congr fun _ => bind_congr fun token => ?_
  rw [typeOf]
  cases token.kind <;> rfl

/-- An entry of the parameter block: the finality depth, or a parameter. -/
inductive ParamEntry where
  | finalityDepth (value : Nat)
  | param (param : Param)

def depthOf (token : Token) : ParseM Nat :=
  match token.kind with
  | .integer value => p.parseU64 value token.span
  | _ => p.errorAt token.span "expected integer literal"

/-- A round of the loop over the parameter block. -/
def paramEntry : ParseM ParamEntry := do
  let name ← p.parseIdentifier
  let _ ← p.expectExact .colon "`:`"
  if name.name = "finality_depth" then
    let token ← p.advanceOrError "expected integer literal"
    let value ← p.depthOf token
    p.separator .rightBrace "expected `,` or `\x7d`"
    pure (.finalityDepth value)
  else
    let token ← p.advanceOrError "expected type"
    let ty ← p.typeOf token
    let span := ⟨name.span.start, (← p.previousSpan).stop⟩
    p.separator .rightBrace "expected `,` or `\x7d`"
    pure (.param ⟨name, ty, span⟩)

theorem parseParamEntries_succ (n : Nat) (finalityDepth : Option Nat) :
    p.parseParamEntries (n + 1) finalityDepth = (do
      if ← p.checkExact .rightBrace then return ([], finalityDepth)
      match ← p.paramEntry with
      | .finalityDepth value => p.parseParamEntries n (some value)
      | .param param =>
          let (params, depth) ← p.parseParamEntries n finalityDepth
          pure (param :: params, depth)) := by
  rw [parseParamEntries]
  simp only [← separator_bind, paramEntry, bind_assoc, pure_bind]
  refine bind_congr fun stop => ?_
  split
  · rfl
  refine bind_congr fun name => bind_congr fun _ => ?_
  split
  · simp only [bind_assoc, pure_bind]
    refine bind_congr fun token => ?_
    rw [depthOf]
    cases token.kind <;> rfl
  · simp only [bind_assoc, pure_bind]
    refine bind_congr fun token => ?_
    rw [typeOf]
    cases token.kind <;> rfl

/-- A round of the loop over a spend's body. -/
def statementRound : ParseM Stmt := do
  if p.isAtEnd (← get) then
    (p.errorHere "expected `\x7d`" : ParseM Unit)
  p.parseStatement

theorem parseBody_succ (n : Nat) :
    p.parseBody (n + 1) =
      listLoop (p.checkExact .rightBrace) p.statementRound (p.parseBody n) := by
  rw [parseBody, listLoop, statementRound]
  refine bind_congr fun stop => ?_
  split
  · rfl
  simp only [bind_assoc]
  refine bind_congr fun cursor => ?_
  cases p.isAtEnd cursor <;> rfl

/-- What the loop over a contract's members carries. -/
abbrev Members := List Param × Option Nat × List Spend

/-- A round of the loop over a contract's members. -/
def memberRound (members : Members) : ParseM Members := do
  if p.isAtEnd (← get) then
    (p.errorHere "expected `\x7d`" : ParseM Unit)
  if ← p.matchExact .params then
    let (parsed, depth) ← p.parseParamsBlock
    return (members.1 ++ parsed, depth.or members.2.1, members.2.2)
  if ← p.matchExact .spend then
    let spend ← p.parseSpend
    return (members.1, members.2.1, members.2.2 ++ [spend])
  p.errorHere "expected `params`, `spend`, or `\x7d`"

theorem errorHere_bind {α β : Type} (message : String) (k : α → ParseM β) :
    (p.errorHere message >>= k) = p.errorHere message := rfl

theorem parseMembers_succ (n : Nat) (members : Members) :
    p.parseMembers (n + 1) members = (do
      if ← p.checkExact .rightBrace then return members
      let members ← p.memberRound members
      p.parseMembers n members) := by
  obtain ⟨params, depth, spends⟩ := members
  rw [parseMembers, memberRound]
  refine bind_congr fun stop => ?_
  split
  · rfl
  simp only [bind_assoc]
  refine bind_congr fun cursor => ?_
  cases p.isAtEnd cursor with
  | true => rfl
  | false =>
    simp only [Bool.false_eq_true, if_false, bind_assoc]
    refine bind_congr fun isParams => ?_
    cases isParams with
    | true =>
      simp only [if_true, bind_assoc]
      refine bind_congr fun parsed => ?_
      rfl
    | false =>
      simp only [Bool.false_eq_true, if_false, bind_assoc]
      refine bind_congr fun isSpend => ?_
      cases isSpend with
      | true =>
        simp only [if_true, bind_assoc]
        refine bind_congr fun spend => ?_
        rfl
      | false => rfl

theorem parseContracts_succ (n : Nat) :
    p.parseContracts (n + 1) =
      listLoop (p.isAtEnd <$> get) p.parseContract (p.parseContracts n) := by
  rw [parseContracts, listLoop]
  simp only [map_eq_pure_bind, bind_assoc, pure_bind]

end KaspaScript.Parser
