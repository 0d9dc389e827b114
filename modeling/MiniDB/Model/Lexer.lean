import MiniDB.Model.Catalog

/-!
# The lexer

`lexer.c`.  The input is a C string: the unread part of it is a list of bytes, and its end is the
end of the list or a zero byte, whichever comes first.
-/

namespace MiniDB

inductive TokenType where
  | tokenNone | tokenSelect | tokenFrom | tokenWhere | tokenInsert | tokenInto | tokenValue
  | tokenSet | tokenIdentifier | tokenInteger | tokenString | tokenUpdate
  | tokenComma | tokenLparen | tokenRparen | tokenSemicolon | tokenEqual | tokenStar
  | tokenEof | tokenInvalid | tokenCreate | tokenTable | tokenTypeText | tokenTypeBoolean
  | tokenTypeInteger | tokenPrimary | tokenKey | tokenTrue | tokenFalse | tokenDelete
  deriving DecidableEq, Repr

/-- `Token`; `text` holds the `text_length` bytes at the pointer. -/
structure Token where
  type : TokenType
  text : List UInt8
  intValue : Int64
  byteOffset : ℕ
  line : ℕ
  column : ℕ
  deriving DecidableEq, Repr

/-- `Tokenizer`: `cursor` is the unread part of the input and `offset` the number of bytes before
it. -/
structure Tokenizer where
  cursor : List UInt8
  offset : ℕ
  line : ℕ
  column : ℕ
  deriving DecidableEq, Repr

/-- `tokenizer_init` -/
def tokenizerInit (sql : List UInt8) : Tokenizer := ⟨sql, 0, 1, 1⟩

/-- The bytes of a string literal of the source. -/
def ascii (s : String) : List UInt8 := s.toList.map fun c => UInt8.ofNat c.toNat

/-! ## Character classes -/

def isDigit (b : UInt8) : Bool := 48 ≤ b && b ≤ 57

def isAlnum (b : UInt8) : Bool := isDigit b || (65 ≤ b && b ≤ 90) || (97 ≤ b && b ≤ 122)

/-- A byte of an identifier, a keyword or a number. -/
def isWordByte (b : UInt8) : Bool := isAlnum b || b == 95

/-- `is_digits`; of no bytes at all it holds. -/
def isDigits (text : List UInt8) : Bool := text.all isDigit

/-- `strtol(text, NULL, 10)` of a run of digits, which saturates at `LONG_MAX`. -/
def strtol (text : List UInt8) : Int64 :=
  Int64.ofNat (min (text.foldl (fun n b => 10 * n + (b.toNat - 48)) 0) (2 ^ 63 - 1))

/-! ## Tokens -/

/-- The chain of `IS_KEYWORD` tests, in its order. -/
def keywords : List (List UInt8 × TokenType) :=
  [(ascii "SELECT", .tokenSelect), (ascii "FROM", .tokenFrom), (ascii "WHERE", .tokenWhere),
    (ascii "INSERT", .tokenInsert), (ascii "INTO", .tokenInto), (ascii "VALUES", .tokenValue),
    (ascii "TABLE", .tokenTable), (ascii "CREATE", .tokenCreate),
    (ascii "INTEGER", .tokenTypeInteger), (ascii "TEXT", .tokenTypeText),
    (ascii "BOOLEAN", .tokenTypeBoolean), (ascii "PRIMARY", .tokenPrimary),
    (ascii "KEY", .tokenKey), (ascii "TRUE", .tokenTrue), (ascii "FALSE", .tokenFalse),
    (ascii "SET", .tokenSet), (ascii "UPDATE", .tokenUpdate), (ascii "DELETE", .tokenDelete)]

/-- `IS_KEYWORD` -/
def isKeyword (text kw : List UInt8) : Bool :=
  text.length == kw.length && text.map tolower == kw.map tolower

/-- The type of a run of word bytes. -/
def wordType (text : List UInt8) : TokenType :=
  match keywords.find? fun kw => isKeyword text kw.1 with
  | some kw => kw.2
  | none => if isDigits text then .tokenInteger else .tokenIdentifier

/-- The tokens of a single byte. -/
def symbolType (b : UInt8) : Option TokenType :=
  if b = 44 then some .tokenComma
  else if b = 59 then some .tokenSemicolon
  else if b = 40 then some .tokenLparen
  else if b = 41 then some .tokenRparen
  else if b = 61 then some .tokenEqual
  else if b = 42 then some .tokenStar
  else none

/-- The loop that passes over blanks. -/
def skipBlanks : List UInt8 → ℕ → ℕ → ℕ → Tokenizer
  | [], offset, line, column => ⟨[], offset, line, column⟩
  | b :: bs, offset, line, column =>
    if b = 10 then skipBlanks bs (offset + 1) (line + 1) 1
    else if b = 32 ∨ b = 9 ∨ b = 13 then skipBlanks bs (offset + 1) line (column + 1)
    else ⟨b :: bs, offset, line, column⟩

/-- Move the cursor over `n` bytes of one line. -/
def Tokenizer.skip (t : Tokenizer) (n : ℕ) : Tokenizer :=
  { t with cursor := t.cursor.drop n, offset := t.offset + n, column := t.column + n }

/-- A string literal, from its opening quote on. -/
def stringToken (t : Tokenizer) (out : Token) : Token × Tokenizer :=
  let body := t.cursor.drop 1
  let text := body.takeWhile fun b => b != 39 && b != 0
  match (body.drop text.length).head? with
  | some 39 => ({ out with type := .tokenString, text := text }, t.skip (text.length + 2))
  | _ => ({ out with type := .tokenInvalid, text := text }, t.skip (text.length + 1))

/-- An identifier, a keyword or a number.  A byte that starts no token makes an empty run here. -/
def wordToken (t : Tokenizer) (out : Token) : Token × Tokenizer :=
  let text := t.cursor.takeWhile isWordByte
  let type := wordType text
  let value := if type = .tokenInteger then strtol text else out.intValue
  ({ out with type := type, text := text, intValue := value }, t.skip text.length)

/-- `get_next_token`: `out` is the token that is overwritten. -/
def getNextToken (t : Tokenizer) (out : Token) : Token × Tokenizer :=
  let t := skipBlanks t.cursor t.offset t.line t.column
  let out := { out with byteOffset := t.offset, line := t.line, column := t.column }
  match t.cursor with
  | [] => ({ out with type := .tokenEof, text := [] }, t)
  | b :: _ =>
    if b = 0 then ({ out with type := .tokenEof, text := [] }, t)
    else
      match symbolType b with
      | some type => ({ out with type := type, text := [b] }, t.skip 1)
      | none => if b = 39 then stringToken t out else wordToken t out

/-- `token_type_name`, which has no case for `SET`, `UPDATE` and `DELETE`; names of tokens with a
text are cut to the 255 bytes of its buffer. -/
def tokenTypeName (token : Token) : List UInt8 :=
  match token.type with
  | .tokenSelect => ascii "TOKEN_SELECT"
  | .tokenFrom => ascii "TOKEN_FROM"
  | .tokenWhere => ascii "TOKEN_WHERE"
  | .tokenInsert => ascii "TOKEN_INSERT"
  | .tokenInto => ascii "TOKEN_INTO"
  | .tokenValue => ascii "TOKEN_VALUE"
  | .tokenIdentifier => (ascii "TOKEN_IDENTIFIER(" ++ token.text ++ ascii ")").take 255
  | .tokenInteger => ascii "TOKEN_INTEGER(" ++ ascii (toString token.intValue.toInt) ++ ascii ")"
  | .tokenString => (ascii "TOKEN_STRING(" ++ token.text ++ ascii ")").take 255
  | .tokenComma => ascii "TOKEN_COMMA"
  | .tokenLparen => ascii "TOKEN_LPAREN"
  | .tokenRparen => ascii "TOKEN_RPAREN"
  | .tokenSemicolon => ascii "TOKEN_SEMICOLON"
  | .tokenEqual => ascii "TOKEN_EQUAL"
  | .tokenStar => ascii "TOKEN_STAR"
  | .tokenEof => ascii "TOKEN_EOF"
  | .tokenInvalid => ascii "TOKEN_INVALID"
  | .tokenNone => ascii "TOKEN_NONE"
  | .tokenCreate => ascii "TOKEN_CREATE"
  | .tokenTable => ascii "TOKEN_TABLE"
  | .tokenTypeText => ascii "TOKEN_TYPE_TEXT"
  | .tokenTypeBoolean => ascii "TOKEN_TYPE_BOOLEAN"
  | .tokenTypeInteger => ascii "TOKEN_TYPE_INTEGER"
  | .tokenPrimary => ascii "TOKEN_PRIMARY"
  | .tokenKey => ascii "TOKEN_KEY"
  | .tokenTrue => ascii "TOKEN_TRUE"
  | .tokenFalse => ascii "TOKEN_FALSE"
  | .tokenSet | .tokenUpdate | .tokenDelete => ascii "TOKEN_UNKNOWN"

/-! ## Loops over all tokens -/

/-- A token that `memset` has cleared. -/
def Token.cleared : Token := ⟨.tokenNone, [], 0, 0, 0, 0⟩

/-- The loop of `debug_tokens`, which gets `rounds` rounds: the names it prints. -/
def debugTokensFrom : ℕ → Tokenizer → Token → Exec (List (List UInt8))
  | 0, _, _ => .error .endless
  | rounds + 1, t, out =>
    if out.type = .tokenEof then .ok []
    else do
      let r := getNextToken t out
      return tokenTypeName r.1 :: (← debugTokensFrom rounds r.2 r.1)

/-- `debug_tokens` -/
def debugTokens (rounds : ℕ) (sql : List UInt8) : Exec (List (List UInt8)) :=
  debugTokensFrom rounds (tokenizerInit sql) Token.cleared

/-- The loop of `print_table_schema`, which looks for an identifier or the end. -/
def findIdentifier : ℕ → Tokenizer → Token → Exec Token
  | 0, _, _ => .error .endless
  | rounds + 1, t, out =>
    if out.type = .tokenIdentifier ∨ out.type = .tokenEof then .ok out
    else
      let r := getNextToken t out
      findIdentifier rounds r.2 r.1

end MiniDB
