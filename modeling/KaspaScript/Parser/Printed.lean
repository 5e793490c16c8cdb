import KaspaScript.Parser.Parser

namespace KaspaScript

/-- The token of a binary operator. -/
def binaryToken : BinaryOp → TokenKind
  | .or => .orOr
  | .and => .andAnd
  | .equal => .equalEqual
  | .notEqual => .bangEqual
  | .greater => .greater
  | .greaterEqual => .greaterEqual
  | .less => .less
  | .lessEqual => .lessEqual
  | .add => .plus
  | .sub => .minus
  | .mul => .star
  | .div => .slash
  | .mod => .percent

/-- The documented levels: `||`, `&&`, equality, orderings, sums, products. -/
def binaryPrecedence : BinaryOp → Nat
  | .or => 1
  | .and => 2
  | .equal | .notEqual => 3
  | .greater | .greaterEqual | .less | .lessEqual => 4
  | .add | .sub => 5
  | .mul | .div | .mod => 6

def unaryToken : UnaryOp → TokenKind
  | .not => .bang
  | .negate => .minus

/-- The token of a name: its keyword where the name is a value keyword, else an identifier. -/
def nameToken (name : String) : TokenKind :=
  if name = "covenant" then .covenant
  else if name = "covenant_id" then .covenantId
  else if name = "zk_verify" then .zkVerify
  else if name = "finality_depth" then .finalityDepth
  else if name = "sequencing" then .sequencing
  else if name = "multisig" then .multisig
  else if name = "input" then .inputBuiltin
  else if name = "output" then .outputBuiltin
  else if name = "block" then .block
  else .identifier name

/-- How tightly the outermost form of an expression binds: a binary operator by its precedence,
then unary operators, then calls and fields, then what stands on its own. -/
def Expr.level : Expr → Nat
  | .binary _ op _ _ => binaryPrecedence op
  | .unary _ _ _ => 7
  | .call _ _ _ | .field _ _ _ => 8
  | _ => 9

/-- Parentheses where the context binds more tightly than the expression. -/
def enclosed (needed level : Nat) (tokens : List TokenKind) : List TokenKind :=
  if level < needed then .leftParen :: tokens ++ [.rightParen] else tokens

mutual

/-- The tokens of an expression, with parentheses only where the levels need them. -/
def Expr.printed : Expr → List TokenKind
  | .ident id => [nameToken id.name]
  | .integer value _ => [.integer (toString value)]
  | .string value _ => [.string value]
  | .bool value _ => [if value then .true else .false]
  | .array elements _ => .leftBracket :: printedList elements ++ [.rightBracket]
  | .unary op e _ => unaryToken op :: enclosed 7 e.level e.printed
  | .binary left op right _ =>
      enclosed (binaryPrecedence op) left.level left.printed ++
        binaryToken op :: enclosed (binaryPrecedence op + 1) right.level right.printed
  | .call callee args _ =>
      enclosed 8 callee.level callee.printed ++ .leftParen :: printedList args ++ [.rightParen]
  | .field object field _ =>
      enclosed 8 object.level object.printed ++ [.dot, nameToken field.name]

/-- The expressions of an argument or element list with commas between them. -/
def printedList : List Expr → List TokenKind
  | [] => []
  | e :: rest => e.printed ++ if rest.isEmpty then [] else .comma :: printedList rest

end

attribute [grind =] Expr.printed printedList

mutual

/-- The expression without its spans. -/
def Expr.erased : Expr → Expr
  | .ident id => .ident ⟨id.name, ⟨0, 0⟩⟩
  | .integer value _ => .integer value ⟨0, 0⟩
  | .string value _ => .string value ⟨0, 0⟩
  | .bool value _ => .bool value ⟨0, 0⟩
  | .array elements _ => .array (erasedList elements) ⟨0, 0⟩
  | .unary op e _ => .unary op e.erased ⟨0, 0⟩
  | .binary left op right _ => .binary left.erased op right.erased ⟨0, 0⟩
  | .call callee args _ => .call callee.erased (erasedList args) ⟨0, 0⟩
  | .field object field _ => .field object.erased ⟨field.name, ⟨0, 0⟩⟩ ⟨0, 0⟩

def erasedList : List Expr → List Expr
  | [] => []
  | e :: rest => e.erased :: erasedList rest

end

attribute [grind =] Expr.erased erasedList

/-- Every integer literal of the expression is a `u64` of the source. -/
def Expr.IntegersFit (e : Expr) : Prop :=
  ∀ value span, .integer value span ∈ e.nodes → value ≤ u64Max

@[simp] theorem binaryOpOf_binaryToken (op : BinaryOp) :
    binaryOpOf (binaryToken op) = some (op, binaryPrecedence op) := by
  cases op <;> rfl

theorem one_le_binaryPrecedence (op : BinaryOp) : 1 ≤ binaryPrecedence op := by
  cases op <;> decide

theorem binaryPrecedence_le (op : BinaryOp) : binaryPrecedence op ≤ 6 := by
  cases op <;> decide

theorem binaryOpOf_eq_some {kind : TokenKind} {op : BinaryOp} {precedence : Nat}
    (h : binaryOpOf kind = some (op, precedence)) :
    kind = binaryToken op ∧ precedence = binaryPrecedence op := by
  cases kind <;> simp_all [binaryOpOf] <;> obtain ⟨rfl, rfl⟩ := h <;> simp [binaryToken, binaryPrecedence]

/-- A value keyword reads back as the name that it was printed for. -/
theorem nameToken_cases (name : String) :
    nameToken name = .identifier name ∨
      (isValueKeyword (nameToken name) = true ∧ tokenText (nameToken name) = name) := by
  unfold nameToken
  split_ifs <;> simp_all [isValueKeyword, tokenText]

end KaspaScript
