import MiniDB.Model.Pager

/-!
# Syntax trees

The nodes of `ast.h`.  In C a node is one tagged union; here the expression nodes, which stand where
any kind of expression may stand, keep their tag and are read through accessors that fault when the
tag selects another member, and the statement nodes are a type of their own.  Names and string
literals are slices of the input line and are modelled by their bytes.
-/

namespace MiniDB

/-- `MAX_TABLE_COLUMNS` -/
def maxTableColumns : ℕ := 8

inductive ColumnType where
  | columnInteger
  | columnText
  | columnBoolean
  deriving DecidableEq, Repr

/-- The enumerator's value, as the catalog stores it in one byte. -/
def ColumnType.toByte : ColumnType → UInt8
  | columnInteger => 0
  | columnText => 1
  | columnBoolean => 2

/-- The expression nodes `EXPR_*`. -/
inductive Expr where
  | literalInt (value : Int64)
  | literalString (text : List UInt8)
  | literalBoolean (value : Bool)
  | column (name : List UInt8)
  | equals (left right : Expr)
  deriving DecidableEq, Repr

namespace Expr

/-! The members of `as`; each faults on a node of another type. -/

def asLiteralInt : Expr → Exec Int64
  | literalInt v => .ok v
  | _ => .error .unionMember

def asLiteralString : Expr → Exec (List UInt8)
  | literalString t => .ok t
  | _ => .error .unionMember

def asLiteralBoolean : Expr → Exec Bool
  | literalBoolean b => .ok b
  | _ => .error .unionMember

def asColumn : Expr → Exec (List UInt8)
  | column n => .ok n
  | _ => .error .unionMember

def asEquals : Expr → Exec (Expr × Expr)
  | equals l r => .ok (l, r)
  | _ => .error .unionMember

end Expr

/-- `EXPR_COLUMN_DEFINITION` -/
structure ColumnDefinition where
  name : List UInt8
  columnType : ColumnType
  isPrimary : Bool
  deriving DecidableEq, Repr

/-- The statement nodes `AST_*`. -/
inductive AstNode where
  | insert (table : List UInt8) (values : List Expr)
  | select (table : List UInt8) (isStar : Bool) (columns : List Expr) (where_ : Option Expr)
  | createTable (table : List UInt8) (columnsDefinitions : List ColumnDefinition)
  | updateTable (table : List UInt8) (columns values : List Expr) (where_ : Option Expr)
  | deleteTable (table : List UInt8) (where_ : Option Expr)
  deriving DecidableEq, Repr

end MiniDB
