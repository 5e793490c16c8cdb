import KaspaScript.Lexer.Token

namespace KaspaScript

/-- Identifier with source span. -/
structure Ident where
  name : String
  span : Span
  deriving DecidableEq, Repr

/-- A typed parameter of a contract or of a spend. -/
structure Param where
  name : Ident
  ty : TypeName
  span : Span
  deriving DecidableEq, Repr

inductive UnaryOp where
  | not | negate
  deriving DecidableEq, Repr

inductive BinaryOp where
  | or | and | equal | notEqual | greater | greaterEqual | less | lessEqual
  | add | sub | mul | div | mod
  deriving DecidableEq, Repr

/-- Expression AST. Integers are the source's `u64` values. -/
inductive Expr where
  | ident (id : Ident)
  | integer (value : Nat) (span : Span)
  | string (value : String) (span : Span)
  | bool (value : Bool) (span : Span)
  | array (elements : List Expr) (span : Span)
  | unary (op : UnaryOp) (expr : Expr) (span : Span)
  | binary (left : Expr) (op : BinaryOp) (right : Expr) (span : Span)
  | call (callee : Expr) (args : List Expr) (span : Span)
  | field (object : Expr) (field : Ident) (span : Span)
  deriving Repr, Inhabited

def Expr.span : Expr → Span
  | .ident id => id.span
  | .integer _ span | .string _ span | .bool _ span | .array _ span | .unary _ _ span
  | .binary _ _ _ span | .call _ _ span | .field _ _ span => span

/-- Spend body statement. -/
inductive Stmt where
  | «let» (name : Ident) (expr : Expr) (span : Span)
  | require (expr : Expr) (span : Span)
  | «return» (expr : Expr) (span : Span)
  deriving Repr

def Stmt.expr : Stmt → Expr
  | .let _ expr _ | .require expr _ | .return expr _ => expr

/-- Spend function. -/
structure Spend where
  name : Ident
  params : List Param
  body : List Stmt
  span : Span
  deriving Repr

/-- Contract declaration. -/
structure Contract where
  name : Ident
  params : List Param
  finalityDepth : Option Nat
  spends : List Spend
  span : Span
  deriving Repr

/-- Complete KaspaScript source file. -/
structure Program where
  contracts : List Contract
  deriving Repr

/-- Induction over expressions that reaches the elements of arrays and the arguments of calls. -/
theorem Expr.induct {P : Expr → Prop}
    (ident : ∀ id, P (.ident id))
    (integer : ∀ value span, P (.integer value span))
    (string : ∀ value span, P (.string value span))
    (bool : ∀ value span, P (.bool value span))
    (array : ∀ elements span, (∀ e ∈ elements, P e) → P (.array elements span))
    (unary : ∀ op e span, P e → P (.unary op e span))
    (binary : ∀ l op r span, P l → P r → P (.binary l op r span))
    (call : ∀ callee args span, P callee → (∀ a ∈ args, P a) → P (.call callee args span))
    (field : ∀ object field span, P object → P (.field object field span)) :
    ∀ e, P e := by
  intro e
  apply @Expr.rec P (fun es => ∀ e ∈ es, P e) ident integer string bool array unary binary call field
  · simp
  · intro head tail hhead htail e he
    rcases List.mem_cons.mp he with rfl | he
    · exact hhead
    · exact htail e he

mutual

/-- Every node of an expression, itself first. -/
def Expr.nodes : Expr → List Expr
  | .ident id => [.ident id]
  | .integer value span => [.integer value span]
  | .string value span => [.string value span]
  | .bool value span => [.bool value span]
  | .array elements span => .array elements span :: allNodes elements
  | .unary op e span => .unary op e span :: e.nodes
  | .binary left op right span => .binary left op right span :: (left.nodes ++ right.nodes)
  | .call callee args span => .call callee args span :: (callee.nodes ++ allNodes args)
  | .field object field span => .field object field span :: object.nodes

def allNodes : List Expr → List Expr
  | [] => []
  | e :: rest => e.nodes ++ allNodes rest

end

attribute [grind =] Expr.nodes allNodes

theorem mem_allNodes {es : List Expr} {node : Expr} :
    node ∈ allNodes es ↔ ∃ e ∈ es, node ∈ e.nodes := by
  induction es with
  | nil => simp [allNodes]
  | cons e es ih => simp [allNodes, ih]

theorem Expr.mem_nodes_self (e : Expr) : e ∈ e.nodes := by
  cases e <;> simp [Expr.nodes]

/-- The nodes of a node are nodes. -/
theorem Expr.nodes_trans {e node inner : Expr} (hnode : node ∈ e.nodes)
    (hinner : inner ∈ node.nodes) : inner ∈ e.nodes := by
  have all {es : List Expr} (ih : ∀ e ∈ es, node ∈ e.nodes → inner ∈ e.nodes)
      (h : node ∈ allNodes es) : inner ∈ allNodes es := by
    obtain ⟨e, he, hmem⟩ := mem_allNodes.mp h
    exact mem_allNodes.mpr ⟨e, he, ih e he hmem⟩
  induction e using Expr.induct with
  | ident id | integer value span | string value span | bool value span =>
    rw [Expr.nodes, List.mem_singleton] at hnode
    exact hnode ▸ hinner
  | array elements span ih =>
    rw [Expr.nodes, List.mem_cons] at hnode
    rcases hnode with rfl | hnode
    · exact hinner
    · rw [Expr.nodes, List.mem_cons]
      exact Or.inr (all ih hnode)
  | unary op e span ih =>
    rw [Expr.nodes, List.mem_cons] at hnode
    rcases hnode with rfl | hnode
    · exact hinner
    · rw [Expr.nodes, List.mem_cons]
      exact Or.inr (ih hnode)
  | binary left op right span ihl ihr =>
    rw [Expr.nodes, List.mem_cons, List.mem_append] at hnode
    rcases hnode with rfl | hnode | hnode
    · exact hinner
    · rw [Expr.nodes, List.mem_cons, List.mem_append]
      exact Or.inr (Or.inl (ihl hnode))
    · rw [Expr.nodes, List.mem_cons, List.mem_append]
      exact Or.inr (Or.inr (ihr hnode))
  | call callee args span ihc ih =>
    rw [Expr.nodes, List.mem_cons, List.mem_append] at hnode
    rcases hnode with rfl | hnode | hnode
    · exact hinner
    · rw [Expr.nodes, List.mem_cons, List.mem_append]
      exact Or.inr (Or.inl (ihc hnode))
    · rw [Expr.nodes, List.mem_cons, List.mem_append]
      exact Or.inr (Or.inr (all ih hnode))
  | field object field span ih =>
    rw [Expr.nodes, List.mem_cons] at hnode
    rcases hnode with rfl | hnode
    · exact hinner
    · rw [Expr.nodes, List.mem_cons]
      exact Or.inr (ih hnode)

end KaspaScript
