import MiniDB.Model.Parser

/-!
# Nodes under construction

`parser.c` once more, with the memory of its nodes.  A node comes from `malloc` with no field
assigned, its fields are assigned while the statement is read, and on an error it is handed to
`ast_destroy`, which follows the fields of its type.  What `MiniDB.Model.Parser` answers are the
trees and the errors of these functions.

Each node carries the number of the `malloc` it came from; destroying a node gives the numbers of
the nodes that were freed, in their order.
-/

namespace MiniDB

/-- The nodes in the lists and conditions of a statement.  All their fields are assigned before the
node is stored anywhere. -/
inductive ElementNode where
  | primary (id : ℕ) (e : Expr)
  | definition (id : ℕ) (d : ColumnDefinition)
  | equals (id : ℕ) (left right : ElementNode)

inductive StatementType where
  | astInsert | astSelect | astCreateTable | astUpdate | astDelete
  deriving DecidableEq, Repr

/-- The node of a statement; `none` is a field that nothing was assigned to, and `columns` and
`values` are the slots that something was.  `columns` stands for `columns_definitions` as well, and
`some none` for the null pointer. -/
structure StatementNode where
  id : ℕ
  type : StatementType
  table : Option (List UInt8)
  isStar : Option Bool
  columns : List ElementNode
  columnCount : Option ℕ
  values : List ElementNode
  valuesCount : Option ℕ
  where_ : Option (Option ElementNode)

/-- A node from `malloc`, and its type. -/
def StatementNode.malloc (id : ℕ) (type : StatementType) : StatementNode :=
  ⟨id, type, none, none, [], none, [], none, none⟩

/-! ## `ast_destroy` -/

/-- `ast_destroy` on a node of a list or a condition. -/
def ElementNode.destroy : ElementNode → List ℕ
  | primary id _ => [id]
  | definition id _ => [id]
  | equals id left right => left.destroy ++ right.destroy ++ [id]

/-- The loop of `ast_destroy` over the slots below a count. -/
def destroySlots (slots : List ElementNode) : Option ℕ → Exec (List ℕ)
  | none => .error .uninitialised
  | some count =>
    if count ≤ slots.length then .ok ((slots.take count).flatMap ElementNode.destroy)
    else .error .uninitialised

/-- `ast_destroy` on what a pointer field holds. -/
def destroyPointer : Option (Option ElementNode) → Exec (List ℕ)
  | none => .error .uninitialised
  | some none => .ok []
  | some (some e) => .ok e.destroy

/-- `ast_destroy` on the node of a statement. -/
def astDestroy (node : StatementNode) : Exec (List ℕ) := do
  match node.type with
  | .astInsert => return (← destroySlots node.values node.valuesCount) ++ [node.id]
  | .astSelect =>
    let columns ← destroySlots node.columns node.columnCount
    return columns ++ (← destroyPointer node.where_) ++ [node.id]
  | .astCreateTable => return (← destroySlots node.columns node.columnCount) ++ [node.id]
  | .astUpdate =>
    let columns ← destroySlots node.columns node.columnCount
    let values ← destroySlots node.values node.valuesCount
    return columns ++ values ++ (← destroyPointer node.where_) ++ [node.id]
  | .astDelete => return (← destroyPointer node.where_) ++ [node.id]

/-! ## Building -/

/-- How a function fails: it returns `NULL`, after some nodes were destroyed, or it does something
undefined. -/
inductive BuildFailure where
  | null (e : ParseError) (freed : List ℕ)
  | fault (f : Fault)

abbrev Build := Except BuildFailure

/-- What `parser_set_error` puts into the error text. -/
def Parser.errorAt (p : Parser) (expected : String) : ParseError :=
  ⟨p.current.line, p.current.column, expected, tokenTypeName p.current⟩

/-- Return `NULL`, behind `ast_destroy(node)`; `freed` were freed before that. -/
def giveUp {α : Type} (node : StatementNode) (e : ParseError) (freed : List ℕ) : Build α :=
  match astDestroy node with
  | .ok ids => .error (.null e (freed ++ ids))
  | .error f => .error (.fault f)

/-- The check for a token: step over it, or give up the node. -/
def buildToken (node : StatementNode) (p : Parser) (type : TokenType) (expected : String) :
    Build Parser :=
  if p.current.type = type then .ok (parserAdvance p) else giveUp node (p.errorAt expected) []

/-- `parse_primary_expression`, whose node is number `m`; on an error it frees this node only. -/
def buildPrimaryExpression (p : Parser) (m : ℕ) : Except ParseFailure (ElementNode × Parser) := do
  let (e, p) ← parsePrimaryExpression p
  return (.primary m e, p)

/-- A primary expression of the statement `node`, which is given up with it.  For the column of a
list, whose token is an identifier, there is no check, and it does not fail. -/
def buildElement (node : StatementNode) (p : Parser) (m : ℕ) : Build (ElementNode × Parser) :=
  match buildPrimaryExpression p m with
  | .ok r => .ok r
  | .error (.error e) => giveUp node e []
  | .error (.fault f) => .error (.fault f)

/-- `parse_expression`, from the node number `m` on. -/
def buildExpression (p : Parser) (m : ℕ) : Build (ElementNode × Parser × ℕ) :=
  match buildPrimaryExpression p m with
  | .error (.error e) => .error (.null e [])
  | .error (.fault f) => .error (.fault f)
  | .ok (left, p) =>
    if p.current.type = .tokenEqual then
      match buildPrimaryExpression (parserAdvance p) (m + 1) with
      | .error (.error e) => .error (.null e left.destroy)
      | .error (.fault f) => .error (.fault f)
      | .ok (right, p) => .ok (.equals (m + 2) left right, p, m + 3)
    else .ok (left, p, m + 1)

/-- `node->where = parse_expression(parser)`, and the check for `NULL` behind it. -/
def buildCondition (node : StatementNode) (p : Parser) (m : ℕ) :
    Build (StatementNode × Parser × ℕ) :=
  match buildExpression p m with
  | .ok (e, p, m) => .ok ({ node with where_ := some (some e) }, p, m)
  | .error (.null e freed) => giveUp { node with where_ := some none } e freed
  | .error (.fault f) => .error (.fault f)

/-- Read a count. -/
def readCount : Option ℕ → Build ℕ
  | none => .error (.fault .uninitialised)
  | some count => .ok count

/-- The name of the table. -/
def buildTableName (node : StatementNode) (p : Parser) : Build (StatementNode × Parser) :=
  if p.current.type = .tokenIdentifier then
    .ok ({ node with table := some p.current.text }, parserAdvance p)
  else giveUp node (p.errorAt "a table name") []

/-- The `WHERE` clause of a statement that may do without one. -/
def buildWhere (node : StatementNode) (p : Parser) (m : ℕ) : Build (StatementNode × Parser × ℕ) :=
  if p.current.type = .tokenWhere then buildCondition node (parserAdvance p) m else .ok (node, p, m)

/-- `columns[column_count] = e`, and one more column. -/
def StatementNode.addColumn (node : StatementNode) (e : ElementNode) : StatementNode :=
  { node with columns := node.columns ++ [e], columnCount := node.columnCount.map (· + 1) }

/-- `values[values_count] = e`, and one more value. -/
def StatementNode.addValue (node : StatementNode) (e : ElementNode) : StatementNode :=
  { node with values := node.values ++ [e], valuesCount := node.valuesCount.map (· + 1) }

/-! ## Statements -/

/-- The loop over the column list of a `SELECT`. -/
def buildSelectColumns : ℕ → Parser → StatementNode → ℕ → Build (StatementNode × Parser × ℕ)
  | 0, _, _, _ => .error (.fault .endless)
  | rounds + 1, p, node, m =>
    if p.current.type = .tokenEof ∨ p.current.type = .tokenFrom then .ok (node, p, m)
    else if p.current.type = .tokenComma then buildSelectColumns rounds (parserAdvance p) node m
    else if p.current.type ≠ .tokenIdentifier then
      giveUp node (p.errorAt "a column name or ','") []
    else do
      if maxTableColumns ≤ (← readCount node.columnCount) then
        giveUp node (p.errorAt "at most 8 columns") []
      else
        let (column, p) ← buildElement node p m
        buildSelectColumns rounds p (node.addColumn column) (m + 1)

/-- `parse_select_statement`, from the node number `m` on. -/
def buildSelectStatement (p : Parser) (m : ℕ) : Build (StatementNode × Parser × ℕ) :=
  if p.current.type ≠ .tokenSelect then .error (.null (p.errorAt "SELECT") [])
  else do
    let node := { StatementNode.malloc m .astSelect with
      isStar := some false, columnCount := some 0, where_ := some none }
    let p := parserAdvance p
    let (node, p, m) ← (if p.current.type = .tokenStar then
        pure ({ node with isStar := some true }, parserAdvance p, m + 1)
      else buildSelectColumns p.rounds p node (m + 1))
    let p ← buildToken node p .tokenFrom "FROM"
    let (node, p) ← buildTableName node p
    buildWhere node p m

/-- The loop over the assignments of an `UPDATE`. -/
def buildAssignments : ℕ → Parser → StatementNode → ℕ → Build (StatementNode × Parser × ℕ)
  | 0, _, _, _ => .error (.fault .endless)
  | rounds + 1, p, node, m =>
    if p.current.type = .tokenEof ∨ p.current.type = .tokenWhere then .ok (node, p, m)
    else if p.current.type = .tokenComma then buildAssignments rounds (parserAdvance p) node m
    else if p.current.type ≠ .tokenIdentifier then
      giveUp node (p.errorAt "a column name or ','") []
    else do
      if maxTableColumns ≤ (← readCount node.columnCount) then
        giveUp node (p.errorAt "at most 8 columns") []
      else
        let (column, p) ← buildElement node p m
        let node := node.addColumn column
        let p ← buildToken node p .tokenEqual "="
        if maxTableColumns ≤ (← readCount node.valuesCount) then
          giveUp node (p.errorAt "at most 8 columns") []
        else
          let (value, p) ← buildElement node p (m + 1)
          buildAssignments rounds p (node.addValue value) (m + 2)

/-- The part of `parse_update_statement` between the allocation of its node and the assignment of
`where`. -/
def buildUpdateHead (node : StatementNode) (p : Parser) (m : ℕ) :
    Build (StatementNode × Parser × ℕ) := do
  let (node, p) ← buildTableName node p
  let p ← buildToken node p .tokenSet "SET keyword"
  let (node, p, m) ← buildAssignments p.rounds p node m
  let p ← buildToken node p .tokenWhere "WHERE keyword"
  return (node, p, m)

/-- `parse_update_statement`, from the node number `m` on.  `where` is not assigned before the
condition is read. -/
def buildUpdateStatement (p : Parser) (m : ℕ) : Build (StatementNode × Parser × ℕ) :=
  if p.current.type ≠ .tokenUpdate then .error (.null (p.errorAt "UPDATE") [])
  else do
    let node :=
      { StatementNode.malloc m .astUpdate with columnCount := some 0, valuesCount := some 0 }
    let (node, p, m) ← buildUpdateHead node (parserAdvance p) (m + 1)
    buildCondition node p m

/-- `parse_delete_statement`, from the node number `m` on. -/
def buildDeleteStatement (p : Parser) (m : ℕ) : Build (StatementNode × Parser × ℕ) :=
  if p.current.type ≠ .tokenDelete then .error (.null (p.errorAt "DELETE") [])
  else do
    let node := { StatementNode.malloc m .astDelete with where_ := some none }
    let p ← buildToken node (parserAdvance p) .tokenFrom "FROM"
    let (node, p) ← buildTableName node p
    buildWhere node p (m + 1)

/-- The loop over the values of an `INSERT`; its `i` is the number of values. -/
def buildValues : ℕ → Parser → StatementNode → ℕ → Build (StatementNode × Parser × ℕ)
  | 0, _, _, _ => .error (.fault .endless)
  | rounds + 1, p, node, m =>
    if p.current.type = .tokenEof ∨ p.current.type = .tokenRparen then .ok (node, p, m)
    else if p.current.type = .tokenComma then buildValues rounds (parserAdvance p) node m
    else if maxTableColumns ≤ node.values.length then giveUp node (p.errorAt "at most 8 values") []
    else do
      let (value, p) ← buildElement node p m
      buildValues rounds p (node.addValue value) (m + 1)

/-- `parse_insert_statement`, from the node number `m` on. -/
def buildInsertStatement (p : Parser) (m : ℕ) : Build (StatementNode × Parser × ℕ) :=
  if p.current.type ≠ .tokenInsert then .error (.null (p.errorAt "INSERT") [])
  else do
    let node := { StatementNode.malloc m .astInsert with valuesCount := some 0 }
    let p ← buildToken node (parserAdvance p) .tokenInto "INTO"
    let (node, p) ← buildTableName node p
    let p ← buildToken node p .tokenValue "VALUES"
    let p ← buildToken node p .tokenLparen "'('"
    let (node, p, m) ← buildValues p.rounds p node (m + 1)
    let p ← buildToken node p .tokenRparen "')'"
    return (node, p, m)

/-- One column definition of a `CREATE TABLE`, in the node number `m`.  Where it fails, `node` is
destroyed and the definition freed. -/
def buildColumnDefinition (node : StatementNode) (p : Parser) (m : ℕ) :
    Build (ElementNode × Parser) :=
  match parseColumnDefinition p with
  | .ok (d, p) => .ok (.definition m d, p)
  | .error (.fault f) => .error (.fault f)
  | .error (.error e) =>
    match astDestroy node with
    | .ok ids => .error (.null e (ids ++ [m]))
    | .error f => .error (.fault f)

/-- The loop over the column definitions of a `CREATE TABLE`. -/
def buildColumnDefinitions : ℕ → Parser → StatementNode → ℕ → Build (StatementNode × Parser × ℕ)
  | 0, _, _, _ => .error (.fault .endless)
  | rounds + 1, p, node, m =>
    if p.current.type = .tokenEof ∨ p.current.type = .tokenRparen then .ok (node, p, m)
    else do
      let count ← readCount node.columnCount
      let p ← (if count = 0 then pure p else buildToken node p .tokenComma "',' or ')'")
      if maxTableColumns ≤ count then giveUp node (p.errorAt "at most 8 columns") []
      else
        let (definition, p) ← buildColumnDefinition node p m
        buildColumnDefinitions rounds p (node.addColumn definition) (m + 1)

/-- `as.column_definition` -/
def ElementNode.asColumnDefinition : ElementNode → Exec ColumnDefinition
  | definition _ d => .ok d
  | _ => .error .unionMember

/-- `parse_create_statement`, from the node number `m` on. -/
def buildCreateStatement (p : Parser) (m : ℕ) : Build (StatementNode × Parser × ℕ) :=
  if p.current.type ≠ .tokenCreate then .error (.null (p.errorAt "CREATE") [])
  else do
    let node := { StatementNode.malloc m .astCreateTable with columnCount := some 0 }
    let p ← buildToken node (parserAdvance p) .tokenTable "TABLE"
    let (node, p) ← buildTableName node p
    let p ← buildToken node p .tokenLparen "'('"
    let (node, p, m) ← buildColumnDefinitions p.rounds p node (m + 1)
    let p ← buildToken node p .tokenRparen "')'"
    match node.columns.mapM ElementNode.asColumnDefinition with
    | .error f => .error (.fault f)
    | .ok definitions =>
      match definitions.filter ColumnDefinition.isPrimary with
      | [primary] =>
        if primary.columnType = .columnInteger then return (node, p, m)
        else giveUp node (p.errorAt "an INTEGER type for the PRIMARY KEY column") []
      | _ => giveUp node (p.errorAt "exactly one PRIMARY KEY column") []

end MiniDB
