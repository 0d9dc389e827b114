import MiniDB.Statements.Assigning
import MiniDB.Statements.Resolving
import MiniDB.Model.Command
import Mathlib.Data.List.Forall2

/-!
# The tables as their user sees them

What the database is for, without pages and trees: a store is a list of tables, and a table has a
name, its column definitions, and its rows in the order of their keys.  Statements are functions of
the store.  A row is kept under its key, and its values are those that are read back: a text that
was put over a longer one still has the end of that.

* `Relation`: a table; its rows ascend and have the types of its columns.
* `Relation.insert`, `Relation.update`, `Relation.delete`, `Relation.select`: the statements about
  one table.
* `Store.exec`: every statement.
-/

namespace MiniDB

open BPlusTree

/-- A table: its name, its columns, and its rows under their keys. -/
structure Relation where
  name : List UInt8
  definitions : List ColumnDefinition
  valid : ValidDefinitions definitions
  rows : List (Int64 × List Value)
  sorted : Tree.Sorted rows
  typed : ∀ row ∈ rows,
    row.2.map Value.columnType = definitions.map ColumnDefinition.columnType

instance decidableValidDefinitions (definitions : List ColumnDefinition) :
    Decidable (ValidDefinitions definitions) :=
  decidable_of_iff (definitions.length ≤ maxTableColumns ∧
      (definitions.filter ColumnDefinition.isPrimary).map ColumnDefinition.columnType =
        [.columnInteger]) (by
    constructor
    · rintro ⟨hbounded, hprimary⟩
      obtain ⟨d, hd, htype⟩ := List.map_eq_singleton_iff.mp hprimary
      exact ⟨hbounded, d, hd, htype⟩
    · rintro ⟨hbounded, d, hd, htype⟩
      refine ⟨hbounded, ?_⟩
      rw [hd, List.map_singleton, htype])

instance decidableTextFits : (e : Expr) → Decidable (TextFits e)
  | .literalString text => decidable_of_iff (text.length ≤ valueTextMaxLen)
      ⟨fun h _ heq => by cases heq; exact h, fun h => h text rfl⟩
  | .literalInt _ | .literalBoolean _ | .column _ | .equals _ _ => .isTrue fun _ heq => by cases heq

instance decidableMatches (σ : Schema) (values : List Expr) : Decidable (Matches σ values) :=
  inferInstanceAs (Decidable (List.Forall₂ _ σ.types values))

instance decidableTextsFit (values : List Expr) : Decidable (TextsFit values) :=
  decidable_of_iff (∀ e ∈ values, TextFits e)
    ⟨fun h text hmem => h _ hmem text rfl, fun h _ hmem text heq => h text (heq ▸ hmem)⟩

namespace Relation

/-- The names of the columns. -/
def names (r : Relation) : List (List UInt8) := r.definitions.map ColumnDefinition.name

/-- The types of the columns, and which of them is the primary key. -/
def schema (r : Relation) : Schema := schemaOf r.definitions r.valid

/-- The column of a name. -/
def column (r : Relation) (name : List UInt8) : Option ℕ := resolveName r.names name

/-- The name is that of the primary key column. -/
def isKey (r : Relation) (name : List UInt8) : Bool :=
  lowercase name == lowercase (r.names.getD r.schema.primaryKey [])

/-- A table without rows. -/
def empty (name : List UInt8) (definitions : List ColumnDefinition)
    (valid : ValidDefinitions definitions) : Relation where
  name := name
  definitions := definitions
  valid := valid
  rows := []
  sorted := List.Pairwise.nil
  typed := fun _ h => absurd h List.not_mem_nil

/-! ## Conditions -/

/-- The value of the row in the column that is compared equals the literal. -/
def test (r : Relation) : Option Expr → List Value → Exec Bool
  | none, _ => .ok true
  | some condition, vs => do
    let (column, value) ← condition.asEquals
    match (r.column (← column.asColumn)).bind (vs[·]?) with
    | some v => valueMatches value v
    | none => return false

/-- The test succeeds. -/
def selects (r : Relation) (where_ : Option Expr) (vs : List Value) : Bool :=
  match r.test where_ vs with
  | .ok b => b
  | .error _ => false

/-- Every row can be tested. -/
def check (r : Relation) (where_ : Option Expr) : List (Int64 × List Value) → Exec Unit
  | [] => .ok ()
  | row :: rows => do
    let _ ← r.test where_ row.2
    r.check where_ rows

/-- Whether some row is selected; the rows behind it are not looked at. -/
def selectsAny (r : Relation) (where_ : Option Expr) : List (Int64 × List Value) → Exec Bool
  | [] => .ok false
  | row :: rows => do if ← r.test where_ row.2 then return true else r.selectsAny where_ rows

/-! ## Changing rows -/

/-- A row under a new key. -/
def add (r : Relation) (key : Int64) (vs : List Value) (hnew : ∀ a ∈ r.rows, a.1 ≠ key)
    (htyped : vs.map Value.columnType = r.definitions.map ColumnDefinition.columnType) :
    Relation where
  name := r.name
  definitions := r.definitions
  valid := r.valid
  rows := insertCell key vs r.rows
  sorted := sorted_insertCell r.sorted hnew
  typed := fun row hrow => by
    rcases mem_insertCell.mp hrow with rfl | hrow
    · exact htyped
    · exact r.typed row hrow

/-- Some of the rows. -/
def keep (r : Relation) (p : List Value → Bool) : Relation where
  name := r.name
  definitions := r.definitions
  valid := r.valid
  rows := r.rows.filter fun row => p row.2
  sorted := r.sorted.filter _
  typed := fun row hrow => r.typed row (List.mem_of_mem_filter hrow)

/-- The values of every row anew. -/
def rewrite (r : Relation) (f : List Value → List Value)
    (hf : ∀ vs, (f vs).map Value.columnType = vs.map Value.columnType) : Relation where
  name := r.name
  definitions := r.definitions
  valid := r.valid
  rows := r.rows.map fun row => (row.1, f row.2)
  sorted := List.pairwise_map.mpr (r.sorted.imp fun h => h)
  typed := fun row hrow => by
    obtain ⟨row', hrow', rfl⟩ := List.mem_map.mp hrow
    exact (hf row'.2).trans (r.typed row' hrow')

/-! ## Statements -/

/-- `INSERT` -/
def insert (r : Relation) (values : List Expr) : Outcome × Relation :=
  if hm : Matches r.schema values then
    match values[r.schema.primaryKey]? with
    | some (.literalInt key) =>
      if hnew : ∀ a ∈ r.rows, a.1 ≠ key then
        if TextsFit values then
          (⟨.commandSuccess, []⟩, r.add key (insertedRow values).values hnew hm.columnTypes)
        else (⟨.failure, [textTooLong]⟩, r)
      else (⟨.idDuplicateError, [idDuplicated key]⟩, r)
    | _ => (⟨.failure, []⟩, r)
  else (⟨.failure, [valuesMismatch r.schema.types values]⟩, r)

/-- The columns that are assigned, and what; `error` with a message for a column that there is not,
or a literal that does not go with it. -/
def resolve (r : Relation) : List (Expr × Expr) → Exec (Except (List UInt8) (List (ℕ × Expr)))
  | [] => .ok (.ok [])
  | (column, value) :: rest => do
    let name ← column.asColumn
    match r.column name with
    | none => return .error (columnNotFound name)
    | some i =>
      if r.schema.types[i]?.any fun t => typeMatches t.toByte value then
        return (← r.resolve rest).map ((i, value) :: ·)
      else return .error typeMismatch

/-- The values of a row after an `UPDATE`. -/
def assign (r : Relation) (where_ : Option Expr) (as : List (ℕ × Expr)) (vs : List Value) :
    List Value :=
  if r.selects where_ vs then (assigned as vs).map Value.stored else vs

theorem columnType_assign (r : Relation) (where_ : Option Expr) (as : List (ℕ × Expr))
    (vs : List Value) : (r.assign where_ as vs).map Value.columnType = vs.map Value.columnType := by
  unfold assign
  split
  · have hstored : Value.columnType ∘ Value.stored = Value.columnType :=
      funext columnType_stored
    rw [List.map_map, hstored, map_columnType_assigned]
  · rfl

/-- `UPDATE` -/
def update (r : Relation) (columns values : List Expr) (where_ : Option Expr) :
    Exec (Outcome × Relation) := do
  if columns.length ≠ values.length then return (⟨.failure, [countMismatch]⟩, r)
  match ← r.resolve (columns.zip values) with
  | .error line => return (⟨.failure, [line]⟩, r)
  | .ok as =>
    if TextsFit (as.map Prod.snd) then
      r.check where_ r.rows
      return (⟨.commandSuccess, []⟩,
        r.rewrite (r.assign where_ as) (r.columnType_assign where_ as))
    else if ← r.selectsAny where_ r.rows then return (⟨.failure, [textTooLong]⟩, r)
    else return (⟨.commandSuccess, []⟩, r)

/-- `DELETE` -/
def delete (r : Relation) (where_ : Option Expr) : Exec (Outcome × Relation) := do
  r.check where_ r.rows
  return (⟨.commandSuccess, []⟩, r.keep fun vs => ! r.selects where_ vs)

/-- The key of a condition on the primary key column. -/
def plan (r : Relation) : Option Expr → Exec (Option Int64)
  | none => .ok none
  | some condition => do
    let (column, value) ← condition.asEquals
    if r.isKey (← column.asColumn) then return some (← value.asLiteralInt) else return none

/-- What is said about the first of the columns that is none of the table; `asked` is the name by
which the statement calls the table. -/
def missing (r : Relation) (asked : List UInt8) : List Expr → Exec (Option (List UInt8))
  | [] => .ok none
  | column :: rest => do
    let name ← column.asColumn
    if (r.column name).isSome then r.missing asked rest
    else return some (noSuchColumn name asked)

/-- What is said about the columns of a `SELECT`, that of its condition first. -/
def complaint (r : Relation) (asked : List UInt8) (columns : List Expr) :
    Option Expr → Exec (Option (List UInt8))
  | none => r.missing asked columns
  | some condition => do
    let (column, _) ← condition.asEquals
    if let some text := ← r.missing asked [column] then return some text
    r.missing asked columns

/-- The rows for a condition. -/
def found (r : Relation) (where_ : Option Expr) : Option Int64 → Exec (List (List Value))
  | some key => .ok (r.rows.lookup key).toList
  | none => do
    r.check where_ r.rows
    return (r.rows.filter fun row => r.selects where_ row.2).map Prod.snd

/-- The values of a row in some columns. -/
def pick (r : Relation) (vs : List Value) : List Expr → Exec (List Value)
  | [] => .ok []
  | column :: rest => do
    match (r.column (← column.asColumn)).bind (vs[·]?) with
    | some v => return v :: (← r.pick vs rest)
    | none => throw .uninitialised

/-- What is shown of the rows that were found. -/
def shown (r : Relation) (columns : List Expr) (found : List (List Value)) :
    Exec (List (List Value)) :=
  if columns.length > 0 then found.mapM fun vs => r.pick vs columns else .ok found

/-- `SELECT`: the lines that are printed. -/
def select (r : Relation) (asked : List UInt8) (columns : List Expr) (where_ : Option Expr) :
    Exec (List (List UInt8)) := do
  let key ← r.plan where_
  if let some text := ← r.complaint asked columns where_ then
    return [text ++ ascii "Column(s) entered do not exist!"]
  let rows ← r.shown columns (← r.found where_ key)
  printRows (rows.map Row.mk)

end Relation

/-- The tables, in the order in which they were created. -/
abbrev Store := List Relation

namespace Store

/-- The table of a name. -/
def find (st : Store) (name : List UInt8) : Option ℕ := resolveName (st.map Relation.name) name

/-- Another table in the place of one. -/
def put (st : Store) (n : ℕ) (r : Outcome × Relation) : Outcome × Store :=
  (r.1, st.set n r.2)

/-- A statement about one table. -/
def execAt (st : Store) (n : ℕ) (r : Relation) : AstNode → Exec (Outcome × Store)
  | .createTable _ _ => .ok (⟨.commandSuccess, [ascii "Table already exists!"]⟩, st)
  | .insert _ values => .ok (st.put n (r.insert values))
  | .updateTable _ columns values where_ => do return st.put n (← r.update columns values where_)
  | .deleteTable _ where_ => do return st.put n (← r.delete where_)
  | .select asked _ columns where_ => do
    return (⟨.commandSuccess, ← r.select asked columns where_⟩, st)

/-- A statement about a table that is not there. -/
def execNew (st : Store) : AstNode → Outcome × Store
  | .createTable name definitions =>
    if h : ValidDefinitions definitions ∧ st.length < maxCatalogTables then
      (⟨.commandSuccess, []⟩, st ++ [Relation.empty name definitions h.1])
    else (⟨.commandSuccess, [ascii "MAX TABLES NUMBER REACHED! "]⟩, st)
  | _ => (⟨.commandSuccess, [ascii "Table is not found"]⟩, st)

/-- **What a statement does.** -/
def exec (st : Store) (tree : AstNode) : Exec (Outcome × Store) :=
  match st.find tree.table with
  | none => .ok (st.execNew tree)
  | some n =>
    match st[n]? with
    | none => .ok (⟨.commandSuccess, []⟩, st)
    | some r => st.execAt n r tree

end Store

end MiniDB
