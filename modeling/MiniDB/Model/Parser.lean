import MiniDB.Model.Lexer

/-!
# The parser

`parser.c`: one token of look-ahead and a function for each kind of statement.  A function that
returns `NULL` has set the parser's error; here it answers the error.  None of the functions looks
at what follows the statement it has read.
-/

namespace MiniDB

/-- `Parser`, without the error text, which a failing function returns. -/
structure Parser where
  tokenizer : Tokenizer
  current : Token
  deriving DecidableEq, Repr

/-- What `parser_set_error` puts into the error text. -/
structure ParseError where
  line : ℕ
  column : ℕ
  expected : String
  found : List UInt8
  deriving DecidableEq, Repr

/-- The text itself, cut to the 255 bytes of its buffer. -/
def ParseError.text (e : ParseError) : List UInt8 :=
  (ascii s!"Parse error at line {e.line}, column {e.column}: expected {e.expected}, found " ++
    e.found).take 255

/-- How a parse function can fail: with an error, or by doing something undefined. -/
inductive ParseFailure where
  | error (e : ParseError)
  | fault (f : Fault)
  deriving DecidableEq, Repr

abbrev Parse := Except ParseFailure

/-- `parser_init` -/
def parserInit (sql : List UInt8) : Parser :=
  let r := getNextToken (tokenizerInit sql) ⟨.tokenNone, [], 0, 0, 0, 0⟩
  ⟨r.2, r.1⟩

/-- `parser_advance` -/
def parserAdvance (p : Parser) : Parser :=
  let r := getNextToken p.tokenizer { p.current with type := .tokenNone }
  ⟨r.2, r.1⟩

/-- `parser_set_error`, and the `return NULL` that follows it. -/
def parserSetError {α : Type} (p : Parser) (expected : String) : Parse α :=
  .error (.error ⟨p.current.line, p.current.column, expected, tokenTypeName p.current⟩)

/-- The check for a token that every statement makes again and again: step over it, or fail. -/
def expectToken (p : Parser) (type : TokenType) (expected : String) : Parse Parser :=
  if p.current.type = type then .ok (parserAdvance p) else parserSetError p expected

/-- The rounds a list loop gets: each one reads a byte of the input or fills one of the eight slots
of its list. -/
def Parser.rounds (p : Parser) : ℕ := p.tokenizer.cursor.length + maxTableColumns + 2

/-! ## Expressions -/

/-- `parse_primary_expression` -/
def parsePrimaryExpression (p : Parser) : Parse (Expr × Parser) :=
  match p.current.type with
  | .tokenInteger => .ok (.literalInt p.current.intValue, parserAdvance p)
  | .tokenString => .ok (.literalString p.current.text, parserAdvance p)
  | .tokenIdentifier => .ok (.column p.current.text, parserAdvance p)
  | .tokenTrue => .ok (.literalBoolean true, parserAdvance p)
  | .tokenFalse => .ok (.literalBoolean false, parserAdvance p)
  | _ => parserSetError p "a literal or column reference"

/-- `parse_expression` -/
def parseExpression (p : Parser) : Parse (Expr × Parser) := do
  let (left, p) ← parsePrimaryExpression p
  if p.current.type = .tokenEqual then
    let (right, p) ← parsePrimaryExpression (parserAdvance p)
    return (.equals left right, p)
  else return (left, p)

/-- The name of a table, which must come next. -/
def parseTableName (p : Parser) : Parse (List UInt8 × Parser) :=
  if p.current.type = .tokenIdentifier then .ok (p.current.text, parserAdvance p)
  else parserSetError p "a table name"

/-- The `WHERE` clause of a statement that may do without one. -/
def parseWhere (p : Parser) : Parse (Option Expr × Parser) :=
  if p.current.type = .tokenWhere then do
    let (where_, p) ← parseExpression (parserAdvance p)
    return (some where_, p)
  else return (none, p)

/-! ## Statements -/

/-- The loop over the column list of a `SELECT`. -/
def parseSelectColumns : ℕ → Parser → List Expr → Parse (List Expr × Parser)
  | 0, _, _ => .error (.fault .endless)
  | rounds + 1, p, columns =>
    if p.current.type = .tokenEof ∨ p.current.type = .tokenFrom then .ok (columns, p)
    else if p.current.type = .tokenComma then parseSelectColumns rounds (parserAdvance p) columns
    else if p.current.type ≠ .tokenIdentifier then parserSetError p "a column name or ','"
    else if maxTableColumns ≤ columns.length then parserSetError p "at most 8 columns"
    else do
      let (column, p) ← parsePrimaryExpression p
      parseSelectColumns rounds p (columns ++ [column])

/-- `parse_select_statement` -/
def parseSelectStatement (p : Parser) : Parse (AstNode × Parser) := do
  let p ← expectToken p .tokenSelect "SELECT"
  let isStar := p.current.type = .tokenStar
  let (columns, p) ← (if isStar then pure ([], parserAdvance p)
    else parseSelectColumns p.rounds p [])
  let p ← expectToken p .tokenFrom "FROM"
  let (table, p) ← parseTableName p
  let (where_, p) ← parseWhere p
  return (.select table isStar columns where_, p)

/-- The loop over the assignments of an `UPDATE`. -/
def parseAssignments : ℕ → Parser → List Expr → List Expr →
    Parse (List Expr × List Expr × Parser)
  | 0, _, _, _ => .error (.fault .endless)
  | rounds + 1, p, columns, values =>
    if p.current.type = .tokenEof ∨ p.current.type = .tokenWhere then .ok (columns, values, p)
    else if p.current.type = .tokenComma then
      parseAssignments rounds (parserAdvance p) columns values
    else if p.current.type ≠ .tokenIdentifier then parserSetError p "a column name or ','"
    else if maxTableColumns ≤ columns.length then parserSetError p "at most 8 columns"
    else do
      let (column, p) ← parsePrimaryExpression p
      let p ← expectToken p .tokenEqual "="
      if maxTableColumns ≤ values.length then parserSetError p "at most 8 columns"
      else
        let (value, p) ← parsePrimaryExpression p
        parseAssignments rounds p (columns ++ [column]) (values ++ [value])

/-- The part of `parse_update_statement` between the allocation of its node and the assignment of
`where`. -/
def parseUpdateHead (p : Parser) : Parse (List UInt8 × List Expr × List Expr × Parser) := do
  let (table, p) ← parseTableName p
  let p ← expectToken p .tokenSet "SET keyword"
  let (columns, values, p) ← parseAssignments p.rounds p [] []
  let p ← expectToken p .tokenWhere "WHERE keyword"
  return (table, columns, values, p)

/-- `parse_update_statement`.  A failure before `where` is assigned ends in an `ast_destroy` that
follows the pointer. -/
def parseUpdateStatement (p : Parser) : Parse (AstNode × Parser) := do
  let p ← expectToken p .tokenUpdate "UPDATE"
  match parseUpdateHead p with
  | .error _ => .error (.fault .uninitialised)
  | .ok (table, columns, values, p) =>
    let (where_, p) ← parseExpression p
    return (.updateTable table columns values (some where_), p)

/-- `parse_delete_statement` -/
def parseDeleteStatement (p : Parser) : Parse (AstNode × Parser) := do
  let p ← expectToken p .tokenDelete "DELETE"
  let p ← expectToken p .tokenFrom "FROM"
  let (table, p) ← parseTableName p
  let (where_, p) ← parseWhere p
  return (.deleteTable table where_, p)

/-- The loop over the values of an `INSERT`. -/
def parseValues : ℕ → Parser → List Expr → Parse (List Expr × Parser)
  | 0, _, _ => .error (.fault .endless)
  | rounds + 1, p, values =>
    if p.current.type = .tokenEof ∨ p.current.type = .tokenRparen then .ok (values, p)
    else if p.current.type = .tokenComma then parseValues rounds (parserAdvance p) values
    else if maxTableColumns ≤ values.length then parserSetError p "at most 8 values"
    else do
      let (value, p) ← parsePrimaryExpression p
      parseValues rounds p (values ++ [value])

/-- `parse_insert_statement` -/
def parseInsertStatement (p : Parser) : Parse (AstNode × Parser) := do
  let p ← expectToken p .tokenInsert "INSERT"
  let p ← expectToken p .tokenInto "INTO"
  let (table, p) ← parseTableName p
  let p ← expectToken p .tokenValue "VALUES"
  let p ← expectToken p .tokenLparen "'('"
  let (values, p) ← parseValues p.rounds p []
  let p ← expectToken p .tokenRparen "')'"
  return (.insert table values, p)

/-- `parse_column_type`, behind the check that makes its default unreachable. -/
def parseColumnType (p : Parser) : Parse (ColumnType × Parser) :=
  match p.current.type with
  | .tokenTypeText => .ok (.columnText, parserAdvance p)
  | .tokenTypeBoolean => .ok (.columnBoolean, parserAdvance p)
  | .tokenTypeInteger => .ok (.columnInteger, parserAdvance p)
  | _ => parserSetError p "TEXT, INTEGER, or BOOLEAN"

/-- One column definition of a `CREATE TABLE`. -/
def parseColumnDefinition (p : Parser) : Parse (ColumnDefinition × Parser) :=
  if p.current.type ≠ .tokenIdentifier then parserSetError p "a column name"
  else do
    let name := p.current.text
    let (columnType, p) ← parseColumnType (parserAdvance p)
    if p.current.type = .tokenPrimary then
      let p ← expectToken (parserAdvance p) .tokenKey "KEY"
      return (⟨name, columnType, true⟩, p)
    else return (⟨name, columnType, false⟩, p)

/-- The loop over the column definitions of a `CREATE TABLE`. -/
def parseColumnDefinitions : ℕ → Parser → List ColumnDefinition →
    Parse (List ColumnDefinition × Parser)
  | 0, _, _ => .error (.fault .endless)
  | rounds + 1, p, definitions =>
    if p.current.type = .tokenEof ∨ p.current.type = .tokenRparen then .ok (definitions, p)
    else do
      let p ← (if definitions.length = 0 then pure p else expectToken p .tokenComma "',' or ')'")
      if maxTableColumns ≤ definitions.length then parserSetError p "at most 8 columns"
      else
        let (definition, p) ← parseColumnDefinition p
        parseColumnDefinitions rounds p (definitions ++ [definition])

/-- `parse_create_statement` -/
def parseCreateStatement (p : Parser) : Parse (AstNode × Parser) := do
  let p ← expectToken p .tokenCreate "CREATE"
  let p ← expectToken p .tokenTable "TABLE"
  let (table, p) ← parseTableName p
  let p ← expectToken p .tokenLparen "'('"
  let (definitions, p) ← parseColumnDefinitions p.rounds p []
  let p ← expectToken p .tokenRparen "')'"
  match definitions.filter ColumnDefinition.isPrimary with
  | [primary] =>
    if primary.columnType = .columnInteger then return (.createTable table definitions, p)
    else parserSetError p "an INTEGER type for the PRIMARY KEY column"
  | _ => parserSetError p "exactly one PRIMARY KEY column"

end MiniDB
