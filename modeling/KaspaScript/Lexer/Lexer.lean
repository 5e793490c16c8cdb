import KaspaScript.Library.MaxMunch
import KaspaScript.Lexer.Token

namespace KaspaScript

open Library (Rule munch)

/-- Lexer error with file, line, and column. -/
structure LexError where
  file : String
  line : Nat
  column : Nat
  span : Span
  message : String
  deriving DecidableEq, Repr

/-- What a token pattern yields: nothing for the skipped ones, or a rejected escape. -/
abbrev RawToken := Except Char (Option TokenKind)

/-- The span that Logos reports for an error is only known to start at the bad token; the model
ends it after the first character, the one the message names. -/
def lexErrorAt (source file : String) (span : Span) (message : String) : LexError :=
  let location := locate source file span.start
  ⟨location.file, location.line, location.column, span, message⟩

/-- Replaces the escapes of a string body. -/
def decodeEscapes : List Char → Except Char (List Char)
  | [] => .ok []
  | '\\' :: [] => .error '\\'
  | '\\' :: escaped :: rest =>
      match escaped with
      | '"' => ('"' :: ·) <$> decodeEscapes rest
      | '\\' => ('\\' :: ·) <$> decodeEscapes rest
      | '/' => ('/' :: ·) <$> decodeEscapes rest
      | 'n' => ('\n' :: ·) <$> decodeEscapes rest
      | 'r' => ('\r' :: ·) <$> decodeEscapes rest
      | 't' => ('\t' :: ·) <$> decodeEscapes rest
      | other => .error other
  | ch :: rest => (ch :: ·) <$> decodeEscapes rest

def decodeString (slice : List Char) : RawToken :=
  (fun decoded => some (.string (String.ofList decoded))) <$>
    decodeEscapes (slice.drop 1).dropLast

def isBlank (ch : Char) : Bool :=
  ch == ' ' || ch == '\t' || ch == '\r' || ch == '\n' || ch == '\x0c'

def isIdentStart (ch : Char) : Bool := ch.isAlpha || ch == '_'

def isIdentRest (ch : Char) : Bool := ch.isAlphanum || ch == '_'

def skip : List Char → RawToken := fun _ => .ok none

def token (text : String) (kind : TokenKind) : Rule RawToken :=
  Rule.literal text.toList (.ok (some kind))

/-- `[ \t\r\n\f]+` -/
def whitespaceRule : Rule RawToken := Rule.run isBlank [] isBlank skip

/-- `//[^\n]*` -/
def lineCommentRule : Rule RawToken := Rule.run (· == '/') [(· == '/')] (· != '\n') skip

/-- `/\*([^*]|\*[^/])*\*/` -/
def blockCommentRule : Rule RawToken :=
  Rule.delimited ['/', '*'] (· != '*') (· == '*') (· != '/') '*' ['/']
    ⟨by decide, fun _ => ⟨'/', [], rfl, by decide⟩, fun c hc => by simpa using hc⟩ skip

/-- `[0-9]+` -/
def integerRule : Rule RawToken :=
  Rule.run Char.isDigit [] Char.isDigit fun slice => .ok (some (.integer (String.ofList slice)))

/-- `"([^"\\]|\\["\\/nrt])*"` -/
def stringRule : Rule RawToken :=
  Rule.delimited ['"'] (fun c => c != '"' && c != '\\') (· == '\\')
    (fun c => c == '"' || c == '\\' || c == '/' || c == 'n' || c == 'r' || c == 't') '"' []
    ⟨by decide, fun h => by simp at h, fun c hc => by simp at hc; simp [hc.2]⟩ decodeString

/-- `[A-Za-z_][A-Za-z0-9_]*` -/
def identifierRule : Rule RawToken :=
  Rule.run isIdentStart [] isIdentRest fun slice => .ok (some (.identifier (String.ofList slice)))

/-- The fixed texts, in the order of the source's enum. -/
def tokenRules : List (Rule RawToken) :=
  [token "contract" .contract, token "params" .params, token "spend" .spend,
    token "require" .require, token "let" .let, token "if" .if, token "else" .else,
    token "return" .return, token "true" .true, token "false" .false,
    token "covenant" .covenant, token "covenant_id" .covenantId, token "zk_verify" .zkVerify,
    token "finality_depth" .finalityDepth, token "sequencing" .sequencing,
    token "multisig" .multisig, token "input" .inputBuiltin, token "output" .outputBuiltin,
    token "block" .block,
    token "PublicKey" (.type .publicKey), token "Signature" (.type .signature),
    token "Hash" (.type .hash), token "BlockHeight" (.type .blockHeight),
    token "Amount" (.type .amount), token "Bool" (.type .bool), token "Bytes" (.type .bytes),
    token "CovenantID" (.type .covenantId), token "ZKProof" (.type .zkProof),
    token "UTXO" (.type .utxo), token "Output" (.type .output), token "Input" (.type .input),
    token "==" .equalEqual, token "!=" .bangEqual, token ">=" .greaterEqual,
    token "<=" .lessEqual, token "&&" .andAnd, token "||" .orOr, token "->" .arrow,
    token "=" .equal, token "!" .bang, token ">" .greater, token "<" .less, token "+" .plus,
    token "-" .minus, token "*" .star, token "/" .slash, token "%" .percent,
    token "\x7b" .leftBrace, token "\x7d" .rightBrace, token "(" .leftParen,
    token ")" .rightParen, token "[" .leftBracket, token "]" .rightBracket, token "," .comma,
    token ":" .colon, token ";" .semicolon, token "." .dot,
    integerRule, stringRule, identifierRule]

/-- The declared patterns; a fixed text stands before the identifiers and wins their ties. -/
def rawRules : List (Rule RawToken) :=
  whitespaceRule :: lineCommentRule :: blockCommentRule :: tokenRules

/-- Bytes of a text in UTF-8. -/
def byteLength (text : List Char) : Nat := (text.map Char.utf8Size).sum

/-- The token loop. Every token takes at least one character, so the number of characters left
bounds the rounds. -/
def lexLoop (source file : String) : Nat → List Char → Nat → Except LexError (List Token)
  | _, [], _ => .ok []
  | 0, _ :: _, _ => .ok []
  | fuel + 1, ch :: rest, offset =>
      match munch rawRules (ch :: rest) with
      | none =>
          .error (lexErrorAt source file ⟨offset, offset + ch.utf8Size⟩
            ("unexpected character `" ++ String.singleton ch ++ "`"))
      | some (rule, n) =>
          let slice := (ch :: rest).take n
          let stop := offset + byteLength slice
          match rule.action slice with
          | .error escaped =>
              .error (lexErrorAt source file ⟨offset, stop⟩
                ("invalid escape sequence \\" ++ String.singleton escaped))
          | .ok none => lexLoop source file fuel ((ch :: rest).drop n) stop
          | .ok (some kind) =>
              (⟨kind, ⟨offset, stop⟩⟩ :: ·) <$> lexLoop source file fuel ((ch :: rest).drop n) stop

/-- Start of the block comment that is still open at the end, if any. Comments are looked for in
the whole text, inside strings and line comments too. -/
def openBlockComment : List Char → Nat → Option Nat → Option Nat
  | [], _, opened => opened
  | '/' :: '*' :: rest, offset, none => openBlockComment rest (offset + 2) (some offset)
  | '*' :: '/' :: rest, offset, some _ => openBlockComment rest (offset + 2) none
  | ch :: rest, offset, opened => openBlockComment rest (offset + ch.utf8Size) opened

def detectUnterminatedBlockComment (source file : String) : Except LexError Unit :=
  match openBlockComment source.toList 0 none with
  | some start => .error (lexErrorAt source file ⟨start, start + 2⟩ "unterminated block comment")
  | none => .ok ()

/-- Start of the first string that meets a newline or the end before its closing quote. The state
is the start of the current string and whether the next character is escaped. -/
def openString : List Char → Nat → Option Nat → Bool → Option Nat
  | [], _, opened, _ => opened
  | ch :: rest, offset, none, _ =>
      openString rest (offset + ch.utf8Size) (if ch = '"' then some offset else none) false
  | ch :: rest, offset, some start, true => openString rest (offset + ch.utf8Size) (some start) false
  | ch :: rest, offset, some start, false =>
      match ch with
      | '\\' => openString rest (offset + ch.utf8Size) (some start) true
      | '"' => openString rest (offset + ch.utf8Size) none false
      | '\n' => some start
      | _ => openString rest (offset + ch.utf8Size) (some start) false

def detectUnterminatedString (source file : String) : Except LexError Unit :=
  match openString source.toList 0 none false with
  | some start => .error (lexErrorAt source file ⟨start, start + 1⟩ "unterminated string")
  | none => .ok ()

/-- Tokenizes source using the provided file name in diagnostics. -/
def lexFile (source file : String) : Except LexError (List Token) := do
  detectUnterminatedBlockComment source file
  detectUnterminatedString source file
  lexLoop source file source.toList.length source.toList 0

end KaspaScript
