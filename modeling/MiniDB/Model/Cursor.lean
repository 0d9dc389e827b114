import MiniDB.Model.Table

/-!
# Plans and cursors

The part of `ast.c`, `btree.c` and `table.c` that runs a `SELECT`: the plan that is built from the
tree, the check of its columns, and the cursors that deliver one row at a call.
-/

namespace MiniDB

/-- `PlanNode` -/
inductive PlanNode where
  | tableScan (rootPageNum rowSize : ℕ)
  | pkLookup (rootPageNum : ℕ) (key : Int64) (rowSize : ℕ)
  | filter (child : PlanNode) (condition : Expr)
  | projection (child : PlanNode) (columns : List Expr)
  | insert (rootPageNum : ℕ) (values : List Expr)

/-- `Cursor` -/
inductive Cursor where
  | tableScan (currentPageNum currentCellNum rowSize : ℕ) (done : Bool)
  | pkLookup (rootPageNum : ℕ) (key : Int64) (rowSize : ℕ) (done : Bool)
  | filter (child : Cursor) (condition : Expr)
  | projection (child : Cursor) (columns : List Expr)

/-! ## Plans -/

/-- The source of the rows that `build_plan` chooses for a condition. -/
def buildSource (s : Pager) (tableNum rootPageNum rowSize : ℕ) : Option Expr → Exec PlanNode
  | none => .ok (.tableScan rootPageNum rowSize)
  | some condition => do
    let (left, right) ← condition.asEquals
    if ← isPrimaryKey (s.page 0) tableNum (← left.asColumn) then
      return .pkLookup rootPageNum (← right.asLiteralInt) rowSize
    else return .filter (.tableScan rootPageNum rowSize) condition

/-- `build_plan`; other kinds of trees have no case. -/
def buildPlan (s : Pager) (tree : AstNode) (table : Table) : Exec PlanNode := do
  let tableNum ← findTable (s.page 0) table.tableName
  let rowSize := catalogNodeRowSize (s.page 0) tableNum
  match tree with
  | .insert _ values => return .insert table.rootPageNum values
  | .select _ _ columns where_ =>
    let source ← buildSource s tableNum table.rootPageNum rowSize where_
    return if columns.length > 0 then .projection source columns else source
  | _ => throw .uninitialised

/-- The loop of `validate_columns` over the columns of the table. -/
def columnExists (catalog : Page) (tableNum : ℕ) (column : Expr) : Exec Bool := do
  let found ← findFirst (fun i => columnNameIs column (columnName catalog tableNum i))
    (List.range (catalogNodeColumnCount catalog tableNum))
  return found.isSome

def noSuchColumn (column table : List UInt8) : List UInt8 :=
  ascii "The column " ++ column ++ ascii " does not exist on the table " ++ table

/-- What `validate_columns` prints about a column that the table does not have. -/
def missingColumn (table : Table) (column : Expr) : Exec (List UInt8) := do
  return noSuchColumn (← column.asColumn) table.tableName

/-- The loop of `validate_columns` over the column list of the statement; `some` where the function
prints a text and returns `false`. -/
def missingColumns (catalog : Page) (table : Table) (tableNum : ℕ) :
    List Expr → Exec (Option (List UInt8))
  | [] => .ok none
  | column :: rest => do
    if ← columnExists catalog tableNum column then missingColumns catalog table tableNum rest
    else return some (← missingColumn table column)

/-- `validate_columns` on the tree `SELECT columns ... WHERE where_`: `none` for `true`, and the
text it prints for `false`. -/
def validateColumns (s : Pager) (table : Table) (tableNum : ℕ) (columns : List Expr)
    (where_ : Option Expr) : Exec (Option (List UInt8)) := do
  if let some condition := where_ then
    let (column, _) ← condition.asEquals
    if ! (← columnExists (s.page 0) tableNum column) then return some (← missingColumn table column)
  missingColumns (s.page 0) table tableNum columns

/-! ## Cursors -/

/-- `build_cursor`; a plan for an `INSERT` has no case. -/
def buildCursor : PlanNode → Exec Cursor
  | .tableScan root rowSize => .ok (.tableScan root 0 rowSize false)
  | .pkLookup root key rowSize => .ok (.pkLookup root key rowSize false)
  | .filter child condition => do return .filter (← buildCursor child) condition
  | .projection child columns => do return .projection (← buildCursor child) columns
  | .insert _ _ => .error .uninitialised

/-- What a call of a cursor answers: the row it delivers, if any, and the cursor for the next
call. -/
abbrev CursorResult := Option Row × Cursor × Pager

/-- `table_scan_next` on the cursor `tableScan pageNum cellNum rowSize done`.  From a leaf whose
cells are used up it goes on to the next one, without looking at the number of cells there. -/
def tableScanNext (s : Pager) (table : Table) (pageNum cellNum rowSize : ℕ) (done : Bool) :
    Exec CursorResult := do
  let cursor := Cursor.tableScan pageNum cellNum rowSize done
  let readRow (s : Pager) (page cell : ℕ) : Exec CursorResult := do
    let row ← deserializeRow s table (s.page page) (leafNodeValue cell rowSize)
    return (some row, .tableScan page (cell + 1) rowSize done, s)
  if done then return (none, cursor, s)
  let some s := pagerGetPage s pageNum | return (none, cursor, s)
  let cellNum := if nodeType (s.page pageNum) = nodeInternal then 0 else cellNum
  match ← firstLeaf walkFuel s pageNum with
  | (none, s) => return (none, cursor, s)
  | (some leaf, s) =>
    if numCells (s.page leaf) ≤ cellNum then
      let next := nextLeaf (s.page leaf)
      if next = 0 then return (none, .tableScan pageNum cellNum rowSize true, s)
      let some s := pagerGetPage s next | return (none, cursor, s)
      readRow s next 0
    else readRow s leaf cellNum

/-- `pk_lookup_next` on the cursor `pkLookup root key rowSize done`. -/
def pkLookupNext (s : Pager) (table : Table) (root : ℕ) (key : Int64) (rowSize : ℕ) (done : Bool) :
    Exec CursorResult := do
  if done then return (none, .pkLookup root key rowSize done, s)
  let some s := pagerGetPage s root | return (none, .pkLookup root key rowSize done, s)
  match ← leafNodeForKey key walkFuel s root with
  | (none, _) => throw .nullPointer
  | (some leaf, s) =>
    let cellNum := leafNodeFind (s.page leaf) key rowSize
    if numCells (s.page leaf) ≤ cellNum ∨ leafNodeKey (s.page leaf) cellNum rowSize ≠ key then
      return (none, .pkLookup root key rowSize true, s)
    else
      let row ← deserializeRow s table (s.page leaf) (leafNodeValue cellNum rowSize)
      return (some row, .pkLookup root key rowSize true, s)

/-- The loop of `projection_next` that looks for a column among the values from column `j` on.  A
slot for which there is none stays as it was. -/
def projectColumn (catalog : Page) (tableNum : ℕ) (column : Expr) : ℕ → List Value → Exec Value
  | _, [] => .error .uninitialised
  | j, v :: vs => do
    if ← columnNameIs column (columnName catalog tableNum j) then return v
    else projectColumn catalog tableNum column (j + 1) vs

/-- The loop of `projection_next` over the selected columns. -/
def projectRow (catalog : Page) (tableNum : ℕ) (row : Row) : List Expr → Exec (List Value)
  | [] => .ok []
  | column :: rest => do
    let v ← projectColumn catalog tableNum column 0 row.values
    let vs ← projectRow catalog tableNum row rest
    return v :: vs

/-- The rounds a loop over rows gets, more than all pages can hold. -/
def scanFuel : ℕ := walkFuel * pageSize

/-- `cursor_next`, with `filter_next` and `projection_next`.  The loop of `filter_next` goes on by
asking the same cursor again. -/
def cursorNext (table : Table) : ℕ → Cursor → Pager → Exec CursorResult
  | 0, _, _ => .error .endless
  | _ + 1, .tableScan page cell rowSize done, s => tableScanNext s table page cell rowSize done
  | _ + 1, .pkLookup root key rowSize done, s => pkLookupNext s table root key rowSize done
  | fuel + 1, .filter child condition, s => do
    let tableNum ← findTable (s.page 0) table.tableName
    match ← cursorNext table fuel child s with
    | (none, child, s) => return (none, .filter child condition, s)
    | (some row, child, s) =>
      if ← rowMatchesWhere (some condition) row (s.page 0) tableNum then
        return (some row, .filter child condition, s)
      else cursorNext table fuel (.filter child condition) s
  | fuel + 1, .projection child columns, s => do
    match ← cursorNext table fuel child s with
    | (none, child, s) => return (none, .projection child columns, s)
    | (some row, child, s) =>
      let tableNum ← findTable (s.page 0) table.tableName
      let values ← projectRow (s.page 0) tableNum row columns
      return (some ⟨values⟩, .projection child columns, s)

/-- The loop of `process_command` that asks a cursor for rows until it has no more. -/
def drain (table : Table) : ℕ → Cursor → Pager → Exec (List Row × Pager)
  | 0, _, _ => .error .endless
  | fuel + 1, cursor, s => do
    match ← cursorNext table scanFuel cursor s with
    | (none, _, s) => return ([], s)
    | (some row, cursor, s) =>
      let (rows, s) ← drain table fuel cursor s
      return (row :: rows, s)

end MiniDB
