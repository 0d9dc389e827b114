import MiniDB.Model.Parser
import MiniDB.Model.Cursor

/-!
# Commands and sessions

`process_command` runs one input line: it parses the line, looks the table up in the catalog and
hands the tree to the function for its kind of statement.  A session is what happens between opening
and closing the database file; the next session starts from the file the last one left.
-/

namespace MiniDB

/-- The text that a value is printed as. -/
def printValue : Value → Exec (List UInt8)
  | .integer n => .ok (ascii (toString n.toInt))
  | .text field _ => do return field.1.take (← strlen field.1)
  | .boolean b => .ok (if b = 1 then ascii "TRUE" else ascii "FALSE")

/-- The loop of `process_command` that prints the values of a row. -/
def printValues : List Value → Exec (List UInt8)
  | [] => .ok []
  | v :: vs => do return (← printValue v) ++ 32 :: (← printValues vs)

/-- Print all rows. -/
def printRows : List Row → Exec (List (List UInt8))
  | [] => .ok []
  | row :: rows => do return (← printValues row.values) :: (← printRows rows)

/-- The name of the table a statement is about. -/
def AstNode.table : AstNode → List UInt8
  | .insert table _ => table
  | .select table _ _ _ => table
  | .createTable table _ => table
  | .updateTable table _ _ _ => table
  | .deleteTable table _ => table

/-- The `SELECT` branch of `process_command`.  The plan is built before the columns are checked. -/
def selectCommand (s : Pager) (table : Table) (tableNum : ℕ) (tree : AstNode)
    (columns : List Expr) (where_ : Option Expr) : Exec (Outcome × Pager) := do
  let plan ← buildPlan s tree table
  let complaint ← (if where_.isSome ∨ columns.length > 0 then
    validateColumns s table tableNum columns where_ else pure none)
  -- the first of the two texts is printed without an end of the line
  if let some text := complaint then
    return (⟨.commandSuccess, [text ++ ascii "Column(s) entered do not exist!"]⟩, s)
  let cursor ← buildCursor plan
  let (rows, s) ← drain table scanFuel cursor s
  return (⟨.commandSuccess, ← printRows rows⟩, s)

/-- The `Table` that `process_command` fills in from the catalog entry. -/
def openTable (s : Pager) (tableNum : ℕ) (name : List UInt8) : Table where
  rootPageNum := catalogNodeRootPage (s.page 0) tableNum
  tableName := name

/-- The part of `process_command` behind the parser. -/
def execute (s : Pager) (tree : AstNode) : Exec (Outcome × Pager) := do
  match tree, ← catalogNodeFindTable (s.page 0) tree.table with
  | .createTable name definitions, none => createTable s name definitions
  | .createTable _ _, some _ => return (⟨.commandSuccess, [ascii "Table already exists!"]⟩, s)
  | _, none => return (⟨.commandSuccess, [ascii "Table is not found"]⟩, s)
  | .insert name values, some n => insertCommand s (openTable s n name) name values
  | .updateTable name columns values where_, some n =>
    updateCommand s (openTable s n name) name columns values where_
  | .deleteTable name where_, some n =>
    return quiet (← deleteCommand s (openTable s n name) name where_)
  | .select name isStar columns where_, some n =>
    selectCommand s (openTable s n name) n (.select name isStar columns where_) columns where_

/-- The switch of `process_command` over the first token; `none` for a statement it does not
support. -/
def parseStatement (p : Parser) : Option (Parse (AstNode × Parser)) :=
  match p.current.type with
  | .tokenSelect => some (parseSelectStatement p)
  | .tokenCreate => some (parseCreateStatement p)
  | .tokenInsert => some (parseInsertStatement p)
  | .tokenUpdate => some (parseUpdateStatement p)
  | .tokenDelete => some (parseDeleteStatement p)
  | _ => none

/-- `process_command`; a parse error is printed and counts as success. -/
def processCommand (s : Pager) (line : List UInt8) : Exec (Outcome × Pager) :=
  match parseStatement (parserInit line) with
  | none => .ok (⟨.failure, [ascii "Statement is not supported"]⟩, s)
  | some (.error (.error e)) => .ok (⟨.commandSuccess, [e.text]⟩, s)
  | some (.error (.fault f)) => .error f
  | some (.ok (tree, _)) => execute s tree

/-- `column_type_name` -/
def columnTypeName (t : UInt8) : List UInt8 :=
  if t = ColumnType.columnInteger.toByte then ascii "INTEGER"
  else if t = ColumnType.columnText.toByte then ascii "TEXT"
  else if t = ColumnType.columnBoolean.toByte then ascii "BOOLEAN"
  else ascii "UNKNOWN"

/-- The lines that `print_table_schema` prints for the columns. -/
def printColumns (catalog : Page) (tableNum : ℕ) : List ℕ → Exec (List (List UInt8))
  | [] => .ok []
  | i :: is => do
    let field := columnName catalog tableNum i
    let name := field.take (← strlen field)
    let line := ascii "Column Name " ++ name ++ ascii ", its type is " ++
      columnTypeName (storedType catalog tableNum i)
    return line :: (← printColumns catalog tableNum is)

/-- `print_table_schema`, whose loop over the tokens gets `rounds` rounds. -/
def printTableSchema (rounds : ℕ) (s : Pager) (tableName : List UInt8) :
    Exec (List (List UInt8)) := do
  let token ← findIdentifier rounds (tokenizerInit tableName) Token.cleared
  if token.type ≠ .tokenIdentifier then
    return [ascii "Not a real table name, please try again!"]
  match ← catalogNodeFindTable (s.page 0) token.text with
  | none => return [ascii "The table does not exist! "]
  | some n => printColumns (s.page 0) n (List.range (catalogNodeColumnCount (s.page 0) n))

/-! ## Sessions -/

/-- Run lines one after the other. -/
def runLines (s : Pager) : List (List UInt8) → Exec Pager
  | [] => .ok s
  | line :: lines => do
    let (_, s) ← processCommand s line
    runLines s lines

/-- The file before anything was written to it. -/
def Disk.empty : Disk := ⟨fun _ => 0, 0⟩

end MiniDB
