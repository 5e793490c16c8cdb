import Mathlib.Data.List.Basic
import Mathlib.Tactic.Linarith

namespace KaspaScript

/-- Byte span within a source file. -/
structure Span where
  start : Nat
  stop : Nat
  deriving DecidableEq, Repr, Inhabited

/-- A source location resolved from a byte offset. -/
structure SourceLocation where
  file : String
  line : Nat
  column : Nat
  deriving DecidableEq, Repr

/-- KaspaScript primitive and composite type names. -/
inductive TypeName where
  | publicKey | signature | hash | blockHeight | amount | bool | bytes
  | covenantId | zkProof | utxo | output | input
  deriving DecidableEq, Repr

/-- The text that the source's derived `Debug` prints. -/
def TypeName.debug : TypeName → String
  | .publicKey => "PublicKey"
  | .signature => "Signature"
  | .hash => "Hash"
  | .blockHeight => "BlockHeight"
  | .amount => "Amount"
  | .bool => "Bool"
  | .bytes => "Bytes"
  | .covenantId => "CovenantID"
  | .zkProof => "ZKProof"
  | .utxo => "UTXO"
  | .output => "Output"
  | .input => "Input"

/-- KaspaScript token kinds; only the last literals carry text. -/
inductive TokenKind where
  | contract | params | spend | require | «let» | «if» | «else» | «return» | «true» | «false»
  | covenant | covenantId | zkVerify | finalityDepth | sequencing | multisig
  | inputBuiltin | outputBuiltin | block
  | type (ty : TypeName)
  | identifier (value : String)
  | integer (value : String)
  | string (value : String)
  | equal | equalEqual | bang | bangEqual | greater | greaterEqual | less | lessEqual
  | andAnd | orOr | plus | minus | star | slash | percent | arrow
  | leftBrace | rightBrace | leftParen | rightParen | leftBracket | rightBracket
  | comma | colon | semicolon | dot
  deriving DecidableEq, Repr

/-- A token and its byte span. -/
structure Token where
  kind : TokenKind
  span : Span
  deriving DecidableEq, Repr

/-- Walks the characters before byte `offset`, counting lines and columns. -/
def locateFrom (offset : Nat) : List Char → Nat → Nat → Nat → Nat × Nat
  | [], _, line, column => (line, column)
  | ch :: rest, byte, line, column =>
      if offset ≤ byte then (line, column)
      else if ch = '\n' then locateFrom offset rest (byte + ch.utf8Size) (line + 1) 1
      else locateFrom offset rest (byte + ch.utf8Size) line (column + 1)

/-- Resolves a byte offset into a source location. -/
def locate (source file : String) (offset : Nat) : SourceLocation :=
  let (line, column) := locateFrom offset source.toList 0 1 1
  ⟨file, line, column⟩

end KaspaScript
