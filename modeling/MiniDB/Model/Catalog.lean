import MiniDB.Model.Ast

/-!
# The catalog page

Page `0` holds a count and up to thirteen entries of fixed width, one per table: a name field, the
root page, the column count, the index of the primary key column, and eight column slots of a name
field and a type byte.  Name fields are 32 bytes without a stored length; they are read as C
strings, so a name that fills its field has no end.
-/

namespace MiniDB

def tableCountOffset : ℕ := 0
def catalogEntriesOffset : ℕ := 4
def tableNameOffset : ℕ := 0
def rootPageNumberOffset : ℕ := 32
def columnCountOffset : ℕ := 36
def primaryKeyColumnOffset : ℕ := 37
def tableColumnsOffset : ℕ := 38
def columnNameSize : ℕ := 32
def columnTypeSize : ℕ := 1
def columnSize : ℕ := 33
def tableEntrySize : ℕ := 302
def maxCatalogTables : ℕ := 13

/-- `VALUE_TEXT_MAX_LEN` -/
def valueTextMaxLen : ℕ := 255

/-! ## C strings in fixed fields -/

/-- `strlen` of a field. -/
def strlen (field : List UInt8) : Exec ℕ :=
  match cstrlen field with
  | some n => .ok n
  | none => .error .unterminated

def tolower (b : UInt8) : UInt8 := if 65 ≤ b ∧ b ≤ 90 then b + 32 else b

/-- The test `length == strlen(field) && strncasecmp(name, field, length) == 0` that every name
comparison in the program makes. -/
def nameEquals (name field : List UInt8) : Exec Bool := do
  let n ← strlen field
  return name.length == n && name.map tolower == (field.take n).map tolower

/-! ## Accessors -/

/-- `catalog_node_init` -/
def catalogNodeInit (page : Page) : Page := page.zero 0 pageSize

def catalogNodeNumTables (page : Page) : ℕ := page.readNat tableCountOffset 4

/-- `catalog_node_table`: the offset of an entry. -/
def catalogNodeTable (tableNum : ℕ) : ℕ := catalogEntriesOffset + tableNum * tableEntrySize

def catalogNodeName (page : Page) (tableNum : ℕ) : List UInt8 :=
  page.read (catalogNodeTable tableNum + tableNameOffset) 32

def catalogNodeRootPage (page : Page) (tableNum : ℕ) : ℕ :=
  page.readNat (catalogNodeTable tableNum + rootPageNumberOffset) 4

def catalogNodeColumnCount (page : Page) (tableNum : ℕ) : ℕ :=
  (page (catalogNodeTable tableNum + columnCountOffset)).toNat

def catalogNodePrimaryKeyColumn (page : Page) (tableNum : ℕ) : ℕ :=
  (page (catalogNodeTable tableNum + primaryKeyColumnOffset)).toNat

/-- The offset of a column slot. -/
def columnSlot (tableNum i : ℕ) : ℕ :=
  catalogNodeTable tableNum + tableColumnsOffset + i * columnSize

def columnName (page : Page) (tableNum i : ℕ) : List UInt8 := page.read (columnSlot tableNum i) 32

/-- The `stored_type` byte of a column. -/
def storedType (page : Page) (tableNum i : ℕ) : UInt8 :=
  page (columnSlot tableNum i + columnNameSize)

/-- The stored types of all columns of a table. -/
def storedTypes (page : Page) (tableNum : ℕ) : List UInt8 :=
  (List.range (catalogNodeColumnCount page tableNum)).map (storedType page tableNum)

/-- The serialized width of a column; a byte that names no type adds nothing. -/
def typeWidth (t : UInt8) : ℕ :=
  if t = ColumnType.columnInteger.toByte then 8
  else if t = ColumnType.columnText.toByte then valueTextMaxLen
  else if t = ColumnType.columnBoolean.toByte then 1
  else 0

/-- `catalog_node_row_size` -/
def catalogNodeRowSize (page : Page) (tableNum : ℕ) : ℕ :=
  ((storedTypes page tableNum).map typeWidth).sum

/-! ## Name resolution -/

/-- The first index of a list at which a test holds. -/
def findFirst (test : ℕ → Exec Bool) : List ℕ → Exec (Option ℕ)
  | [] => .ok none
  | i :: is => do
    if ← test i then return some i
    findFirst test is

/-- `catalog_node_find_table`; `none` for `UINT32_MAX`. -/
def catalogNodeFindTable (page : Page) (table : List UInt8) : Exec (Option ℕ) :=
  findFirst (fun i => nameEquals table (catalogNodeName page i))
    (List.range (catalogNodeNumTables page))

/-- `catalog_node_find_column`; `none` for `UINT32_MAX`. -/
def catalogNodeFindColumn (page : Page) (tableNum : ℕ) (name : List UInt8) : Exec (Option ℕ) :=
  findFirst (fun i => nameEquals name (columnName page tableNum i))
    (List.range (catalogNodeColumnCount page tableNum))

def isPrimaryKey (page : Page) (tableNum : ℕ) (name : List UInt8) : Exec Bool :=
  nameEquals name (columnName page tableNum (catalogNodePrimaryKeyColumn page tableNum))

/-- `column_name_is` -/
def columnNameIs (column : Expr) (field : List UInt8) : Exec Bool := do
  nameEquals (← column.asColumn) field

/-- The entry of a table that the caller has looked up before; an entry at index `UINT32_MAX` would
lie outside the page. -/
def findTable (page : Page) (table : List UInt8) : Exec ℕ := do
  match ← catalogNodeFindTable page table with
  | some n => return n
  | none => throw .outOfBounds

/-- `open_database_and_initialize_catalog` on a freshly opened pager. -/
def openDatabase (disk : Disk) : Option Pager := do
  let pager := pagerOpen disk
  let s ← pagerGetPage pager 0
  if pager.fileLength = 0 then return s.setPage 0 (catalogNodeInit (s.page 0))
  return s

end MiniDB
