import MiniDB.Model.Command

/-!
# Printing trees and plans

`ast_print` and `plan_print` of `ast.c`: one line for each property of a node, indented by its
depth.  A node of a `DELETE` or an `UPDATE` has neither a name nor properties there.
-/

namespace MiniDB

/-- `ast_print_indent`, and the text behind it. -/
def indented (depth : ℕ) (text : List UInt8) : List UInt8 := List.replicate (2 * depth) 32 ++ text

/-- `printf` with `%.*s`, which ends at a terminator. -/
def printSlice (text : List UInt8) : List UInt8 := text.takeWhile fun b => b != 0

/-- The numbers that `%lld` and `%u` print. -/
def printInt64 (n : Int64) : List UInt8 := ascii (toString n.toInt)

def printNat (n : ℕ) : List UInt8 := ascii (toString n)

def printBool (b : Bool) : List UInt8 := if b then ascii "true" else ascii "false"

/-- The first line of a node, and the lines behind it. -/
def nodeLines (kind : String) (type : List UInt8) (depth : ℕ) (rest : List (List UInt8)) :
    List (List UInt8) :=
  indented depth (ascii kind ++ ascii " \x7b type: " ++ type ++ ascii " \x7d") :: rest

/-- A property of a node, whose value stands behind its name. -/
def propertyLine (depth : ℕ) (name : String) (value : List UInt8) : List UInt8 :=
  indented (depth + 1) (ascii name ++ ascii ": " ++ value)

/-- The line in front of a node that is a property. -/
def headLine (depth : ℕ) (name : String) : List UInt8 :=
  indented (depth + 1) (ascii name ++ ascii ":")

/-- A list of nodes that is a property. -/
def listLines (depth : ℕ) (name : String) (items : List (List UInt8)) : List (List UInt8) :=
  indented (depth + 1) (ascii name ++ ascii ": [") :: items ++ [indented (depth + 1) (ascii "]")]

/-- `ast_print_node` on an expression. -/
def astPrintExpr : Expr → ℕ → List (List UInt8)
  | .literalInt n, depth =>
    nodeLines "AstNode" (ascii "EXPR_LITERAL_INT") depth [propertyLine depth "value" (printInt64 n)]
  | .literalString text, depth =>
    nodeLines "AstNode" (ascii "EXPR_LITERAL_STRING") depth
      [propertyLine depth "value" (printSlice text)]
  | .literalBoolean b, depth =>
    nodeLines "AstNode" (ascii "EXPR_LITERAL_BOOLEAN") depth
      [propertyLine depth "value" (printBool b)]
  | .column name, depth =>
    nodeLines "AstNode" (ascii "EXPR_COLUMN") depth [propertyLine depth "name" (printSlice name)]
  | .equals left right, depth =>
    nodeLines "AstNode" (ascii "EXPR_EQUALS") depth
      (headLine depth "left" :: astPrintExpr left (depth + 2) ++
        headLine depth "right" :: astPrintExpr right (depth + 2))

/-- The name of a type of columns. -/
def ColumnType.typeName : ColumnType → List UInt8
  | .columnInteger => ascii "INTEGER"
  | .columnText => ascii "TEXT"
  | .columnBoolean => ascii "BOOLEAN"

/-- `ast_print_node` on a column definition. -/
def astPrintDefinition (d : ColumnDefinition) (depth : ℕ) : List (List UInt8) :=
  nodeLines "AstNode" (ascii "EXPR_COLUMN_DEFINITION") depth
    [propertyLine depth "name" (printSlice d.name), propertyLine depth "type" d.columnType.typeName,
      propertyLine depth "is_primary" (printBool d.isPrimary)]

/-- `ast_print_node` on a node that may be absent. -/
def astPrintOption (e : Option Expr) (depth : ℕ) : List (List UInt8) :=
  match e with
  | none => [indented depth (ascii "NULL")]
  | some e => astPrintExpr e depth

/-- `ast_print` -/
def astPrint : AstNode → List (List UInt8)
  | .insert table values =>
    nodeLines "AstNode" (ascii "AST_INSERT") 0
      (propertyLine 0 "table" (printSlice table) ::
        listLines 0 "values" (values.flatMap fun e => astPrintExpr e 2))
  | .select table isStar columns where_ =>
    nodeLines "AstNode" (ascii "AST_SELECT") 0
      ([propertyLine 0 "table" (printSlice table), propertyLine 0 "is_star" (printBool isStar),
          headLine 0 "where"] ++ astPrintOption where_ 2 ++
        listLines 0 "columns" (columns.flatMap fun e => astPrintExpr e 2))
  | .createTable table definitions =>
    nodeLines "AstNode" (ascii "AST_CREATE_TABLE") 0
      (propertyLine 0 "table" (printSlice table) ::
        listLines 0 "columns" (definitions.flatMap fun d => astPrintDefinition d 2))
  | .updateTable _ _ _ _ | .deleteTable _ _ => nodeLines "AstNode" (ascii "AST_UNKNOWN") 0 []

/-- `plan_print_node` -/
def planPrintNode : PlanNode → ℕ → List (List UInt8)
  | .tableScan root rowSize, depth =>
    nodeLines "PlanNode" (ascii "PLAN_TABLE_SCAN") depth
      [propertyLine depth "root_page_num" (printNat root),
        propertyLine depth "row_size" (printNat rowSize)]
  | .pkLookup root key rowSize, depth =>
    nodeLines "PlanNode" (ascii "PLAN_PK_LOOKUP") depth
      [propertyLine depth "root_page_num" (printNat root),
        propertyLine depth "key" (printInt64 key), propertyLine depth "row_size" (printNat rowSize)]
  | .filter child condition, depth =>
    nodeLines "PlanNode" (ascii "PLAN_FILTER") depth
      (headLine depth "condition" :: astPrintExpr condition (depth + 2) ++
        headLine depth "child" :: planPrintNode child (depth + 2))
  | .projection child columns, depth =>
    nodeLines "PlanNode" (ascii "PLAN_PROJECTION") depth
      (listLines depth "columns" (columns.flatMap fun e => astPrintExpr e (depth + 2)) ++
        headLine depth "child" :: planPrintNode child (depth + 2))
  | .insert root values, depth =>
    nodeLines "PlanNode" (ascii "PLAN_INSERT") depth
      (propertyLine depth "root_page_num" (printNat root) ::
        listLines depth "values" (values.flatMap fun e => astPrintExpr e (depth + 2)))

/-- `plan_print` -/
def planPrint (plan : PlanNode) : List (List UInt8) := planPrintNode plan 0

end MiniDB
