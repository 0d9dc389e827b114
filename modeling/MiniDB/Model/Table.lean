import MiniDB.Model.BTree
import MiniDB.Model.Lexer

/-!
# The statements that change a table

`table.c`: `INSERT`, `UPDATE`, `DELETE` and `CREATE TABLE` on syntax trees.  `INSERT` descends to
one leaf; `UPDATE` and `DELETE` descend to the first leaf and follow the leaf links, testing the
condition on every row.
-/

namespace MiniDB

/-- What a command leaves behind: its result and the lines it prints.  What the pager says about a
page number that is too large is not among them. -/
structure Outcome where
  result : CommandResult
  output : List (List UInt8)

/-- A command that prints nothing. -/
def quiet (r : CommandResult × Pager) : Outcome × Pager := (⟨r.1, []⟩, r.2)

/-- A command that prints a line when it does not succeed. -/
def orPrint (line : List UInt8) (r : CommandResult × Pager) : Outcome × Pager :=
  (⟨r.1, if r.1 = .commandSuccess then [] else [line]⟩, r.2)

/-- The check that a stored column type and a literal go together. -/
def typeMatches (t : UInt8) : Expr → Bool
  | .literalInt _ => t = ColumnType.columnInteger.toByte
  | .literalString _ => t = ColumnType.columnText.toByte
  | .literalBoolean _ => t = ColumnType.columnBoolean.toByte
  | _ => false

/-! ## Conditions -/

/-- `literal_string_equals`.  Neither text holds a terminator before its length. -/
def literalStringEquals (literal : Expr) (field : TextField) : Exec Bool := do
  let text ← literal.asLiteralString
  let n ← strlen field.1
  return text.length == n && text == field.1.take n

/-- The comparison that `row_matches_where` returns for the column it has found. -/
def valueMatches (value : Expr) : Value → Exec Bool
  | .integer n => do return (← value.asLiteralInt) == n
  | .text field _ => literalStringEquals value field
  | .boolean b => do return boolByte (← value.asLiteralBoolean) == b

/-- The loop of `row_matches_where` over the values from column `i` on. -/
def rowMatchesFrom (column value : Expr) (catalog : Page) (tableNum : ℕ) :
    ℕ → List Value → Exec Bool
  | _, [] => .ok false
  | i, v :: vs => do
    if ← columnNameIs column (columnName catalog tableNum i) then valueMatches value v
    else rowMatchesFrom column value catalog tableNum (i + 1) vs

/-- `row_matches_where` -/
def rowMatchesWhere (where_ : Option Expr) (row : Row) (catalog : Page) (tableNum : ℕ) :
    Exec Bool :=
  match where_ with
  | none => .ok true
  | some condition => do
    let (column, value) ← condition.asEquals
    rowMatchesFrom column value catalog tableNum 0 row.values

/-! ## Messages -/

def countMismatch : List UInt8 :=
  ascii "The values count does not match the column count definitions! "

def typeMismatch : List UInt8 := ascii "Type mismatch, exit the program"

def textTooLong : List UInt8 := ascii "Text value too long"

def idDuplicated (key : Int64) : List UInt8 :=
  ascii "Id " ++ ascii (toString key.toInt) ++ ascii " is duplicated"

def cannotInsert : List UInt8 := ascii "Error: cannot insert"

def columnNotFound (name : List UInt8) : List UInt8 :=
  ascii "Column " ++ name ++ ascii " is not found!"

/-! ## `INSERT` -/

/-- The loop that fills the zeroed row; `none` for a text that is too long. -/
def rowValues : List Expr → Exec (Option (List Value))
  | [] => .ok (some [])
  | e :: es => do
    match e with
    | .literalInt n => return (← rowValues es).map (.integer n :: ·)
    | .literalString text =>
      if valueTextMaxLen < text.length then return none
      else return (← rowValues es).map (.text (TextField.zero.overwrite text) text.length :: ·)
    | .literalBoolean b => return (← rowValues es).map (.boolean (boolByte b) :: ·)
    -- a node of another kind has no case in the switch and leaves its slot zeroed
    | _ => return (← rowValues es).map (.integer 0 :: ·)

/-- `insert_command` on the tree `INSERT INTO name VALUES values`. -/
def insertCommand (s : Pager) (table : Table) (name : List UInt8) (values : List Expr) :
    Exec (Outcome × Pager) := do
  let catalog := s.page 0
  let tableNum ← findTable catalog name
  if catalogNodeColumnCount catalog tableNum ≠ values.length then
    return (⟨.failure, [countMismatch]⟩, s)
  if (List.zipWith typeMatches (storedTypes catalog tableNum) values).any (! ·) then
    return (⟨.failure, [typeMismatch]⟩, s)
  let rowSize := catalogNodeRowSize catalog tableNum
  let some pkValue := values[catalogNodePrimaryKeyColumn catalog tableNum]?
    | throw .uninitialised
  let primaryKey ← pkValue.asLiteralInt
  let some s := pagerGetPage s table.rootPageNum | throw .nullPointer
  match ← leafNodeForKey primaryKey walkFuel s table.rootPageNum with
  | (none, s) => return (⟨.failure, [ascii "Could not get the leaf page"]⟩, s)
  | (some leaf, s) =>
    let cellNum := leafNodeFind (s.page leaf) primaryKey rowSize
    if cellNum < numCells (s.page leaf) ∧
        leafNodeKey (s.page leaf) cellNum rowSize = primaryKey then
      return (⟨.idDuplicateError, [idDuplicated primaryKey]⟩, s)
    let some vs ← rowValues values | return (⟨.failure, [textTooLong]⟩, s)
    let r ← (match leafNodeInsert s leaf cellNum primaryKey ⟨vs⟩ rowSize with
      | (.leafFullError, s) => splitLeafNode s table leaf primaryKey ⟨vs⟩ rowSize
      | r => .ok r)
    return orPrint cannotInsert r

/-! ## `UPDATE` -/

/-- The loop that resolves and checks the assigned columns; `error` where the function prints a line
and returns `-1`. -/
def resolveAssignments (catalog : Page) (tableNum : ℕ) :
    List (Expr × Expr) → Exec (Except (List UInt8) (List (ℕ × Expr)))
  | [] => .ok (.ok [])
  | (column, value) :: rest => do
    let name ← column.asColumn
    let some i ← catalogNodeFindColumn catalog tableNum name
      | return .error (columnNotFound name)
    if typeMatches (storedType catalog tableNum i) value then
      return (← resolveAssignments catalog tableNum rest).map ((i, value) :: ·)
    else return .error typeMismatch

/-- One assignment to a value of the row; `none` for a text that is too long. -/
def assignValue (value : Expr) : Value → Exec (Option Value)
  | .integer _ => do return some (.integer (← value.asLiteralInt))
  | .text field _ => do
    let text ← value.asLiteralString
    if valueTextMaxLen < text.length then return none
    else return some (.text (field.overwrite text) text.length)
  | .boolean _ => do return some (.boolean (boolByte (← value.asLiteralBoolean)))

/-- The loop over the assignments to one row. -/
def assignValues : List (ℕ × Expr) → List Value → Exec (Option (List Value))
  | [], vs => .ok (some vs)
  | (i, value) :: rest, vs => do
    let some old := vs[i]? | throw .uninitialised
    let some new ← assignValue value old | return none
    assignValues rest (vs.set i new)

/-- The loop of `update_command` over the cells of one leaf.  Answers whether it got through, and
whether it changed a row. -/
def updateCells (table : Table) (tableNum rowSize : ℕ) (where_ : Option Expr)
    (assignments : List (ℕ × Expr)) (leaf : ℕ) :
    List ℕ → Bool → Pager → Exec (Bool × Bool × Pager)
  | [], dirty, s => .ok (true, dirty, s)
  | i :: is, dirty, s => do
    let row ← deserializeRow s table (s.page leaf) (leafNodeValue i rowSize)
    if ← rowMatchesWhere where_ row (s.page 0) tableNum then
      let some vs ← assignValues assignments row.values | return (false, true, s)
      let page := serializeRow ⟨vs⟩ (s.page leaf) (leafNodeValue i rowSize)
      updateCells table tableNum rowSize where_ assignments leaf is true (s.setPage leaf page)
    else updateCells table tableNum rowSize where_ assignments leaf is dirty s

/-- The loop of `update_command` along the leaf links. -/
def updateLeaves (table : Table) (tableNum rowSize : ℕ) (where_ : Option Expr)
    (assignments : List (ℕ × Expr)) : ℕ → Pager → ℕ → Exec (Outcome × Pager)
  | 0, _, _ => .error .endless
  | fuel + 1, s, leaf => do
    let (through, dirty, s) ← updateCells table tableNum rowSize where_ assignments leaf
      (List.range (numCells (s.page leaf))) false s
    if ! through then return (⟨.failure, [textTooLong]⟩, s)
    let s := if dirty then pagerMarkDirty s leaf else s
    let next := nextLeaf (s.page leaf)
    if next = 0 then return (⟨.commandSuccess, []⟩, s)
    match pagerGetPage s next with
    | none => return (⟨.commandSuccess, []⟩, s)
    | some s => updateLeaves table tableNum rowSize where_ assignments fuel s next

/-- `update_command` on the tree `UPDATE name SET columns = values WHERE where_`. -/
def updateCommand (s : Pager) (table : Table) (name : List UInt8) (columns values : List Expr)
    (where_ : Option Expr) : Exec (Outcome × Pager) := do
  let tableNum ← findTable (s.page 0) name
  let rowSize := catalogNodeRowSize (s.page 0) tableNum
  if columns.length ≠ values.length then return (⟨.failure, [countMismatch]⟩, s)
  match ← resolveAssignments (s.page 0) tableNum (columns.zip values) with
  | .error line => return (⟨.failure, [line]⟩, s)
  | .ok assignments =>
    let some s := pagerGetPage s table.rootPageNum | return (⟨.failure, []⟩, s)
    match ← firstLeaf walkFuel s table.rootPageNum with
    | (none, _) => throw .nullPointer
    | (some leaf, s) => updateLeaves table tableNum rowSize where_ assignments walkFuel s leaf

/-! ## `DELETE` -/

/-- The loop of `delete_command` over one leaf: `remaining` cells are still to be tested, from cell
`i` on.  A deleted cell is overwritten by those behind it. -/
def deleteCells (table : Table) (tableNum rowSize : ℕ) (where_ : Option Expr) (leaf : ℕ) :
    ℕ → ℕ → Bool → Pager → Exec (Bool × Pager)
  | 0, _, dirty, s => .ok (dirty, s)
  | remaining + 1, i, dirty, s => do
    let row ← deserializeRow s table (s.page leaf) (leafNodeValue i rowSize)
    if ← rowMatchesWhere where_ row (s.page 0) tableNum then
      let page := (s.page leaf).memmove (leafNodeCell i rowSize) (leafNodeCell (i + 1) rowSize)
        (remaining * leafNodeCellSize rowSize)
      let s := s.setPage leaf (setNumCells page (i + remaining))
      deleteCells table tableNum rowSize where_ leaf remaining i true s
    else deleteCells table tableNum rowSize where_ leaf remaining (i + 1) dirty s

/-- The loop of `delete_command` along the leaf links. -/
def deleteLeaves (table : Table) (tableNum rowSize : ℕ) (where_ : Option Expr) :
    ℕ → Pager → ℕ → Exec (CommandResult × Pager)
  | 0, _, _ => .error .endless
  | fuel + 1, s, leaf => do
    let (dirty, s) ← deleteCells table tableNum rowSize where_ leaf
      (numCells (s.page leaf)) 0 false s
    let s := if dirty then pagerMarkDirty s leaf else s
    let next := nextLeaf (s.page leaf)
    if next = 0 then return (.commandSuccess, s)
    match pagerGetPage s next with
    | none => return (.commandSuccess, s)
    | some s => deleteLeaves table tableNum rowSize where_ fuel s next

/-- `delete_command` on the tree `DELETE FROM name WHERE where_`. -/
def deleteCommand (s : Pager) (table : Table) (name : List UInt8) (where_ : Option Expr) :
    Exec (CommandResult × Pager) := do
  let tableNum ← findTable (s.page 0) name
  let rowSize := catalogNodeRowSize (s.page 0) tableNum
  let some s := pagerGetPage s table.rootPageNum | return (.failure, s)
  match ← firstLeaf walkFuel s table.rootPageNum with
  | (none, _) => throw .nullPointer
  | (some leaf, s) => deleteLeaves table tableNum rowSize where_ walkFuel s leaf

/-! ## `CREATE TABLE` -/

/-- One round of the loop of `create_table` over the columns. -/
def writeColumn (page : Page) (tableNum i : ℕ) (definition : ColumnDefinition) : Page :=
  let slot := columnSlot tableNum i
  let page := page.zero slot columnNameSize
  let page := page.write slot definition.name
  let page := page.write (slot + columnNameSize) [definition.columnType.toByte]
  if definition.isPrimary then
    page.write (catalogNodeTable tableNum + primaryKeyColumnOffset) [UInt8.ofNat i]
  else page

/-- The loop itself.  Answers whether it got through: a column name that is too long ends the
function, and leaves behind what was written so far. -/
def writeColumns (tableNum : ℕ) : ℕ → List ColumnDefinition → Page → Bool × Page
  | _, [], page => (true, page)
  | i, definition :: rest, page =>
    if columnNameSize < definition.name.length then (false, page)
    else writeColumns tableNum (i + 1) rest (writeColumn page tableNum i definition)

/-- `create_table` on the tree `CREATE TABLE name (definitions)`. -/
def createTable (s : Pager) (name : List UInt8) (definitions : List ColumnDefinition) :
    Exec (Outcome × Pager) := do
  let tableNum := catalogNodeNumTables (s.page 0)
  if maxCatalogTables ≤ tableNum then
    return (⟨.commandSuccess, [ascii "MAX TABLES NUMBER REACHED! "]⟩, s)
  let (root, s) := pagerAllocatePage s
  let some s := pagerGetPage s root | throw .nullPointer
  let s := s.setPage root (leafNodeInit (s.page root))
  -- the name is copied at its full length, whatever the field holds
  if pageSize < catalogNodeTable tableNum + tableNameOffset + name.length then throw .outOfBounds
  let page := (s.page 0).write (catalogNodeTable tableNum + tableNameOffset) name
  let page := page.writeNat (catalogNodeTable tableNum + rootPageNumberOffset) 4 root
  let page := page.write (catalogNodeTable tableNum + columnCountOffset)
    [UInt8.ofNat definitions.length]
  match writeColumns tableNum 0 definitions page with
  | (false, page) => return (⟨.commandSuccess, [ascii "Column name too long"]⟩, s.setPage 0 page)
  | (true, page) =>
    let s := s.setPage 0 (page.writeNat tableCountOffset 4 (tableNum + 1))
    return (⟨.commandSuccess, []⟩, pagerMarkDirty (pagerMarkDirty s 0) root)

end MiniDB
