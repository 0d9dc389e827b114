import MiniDB.Console.Loop
import MiniDB.Store.Runs

/-!
# What the console shows of a store

The answers of the console without pages.  Only the page at which a table begins cannot be told from
a store; `.plan` shows it, and it is left out here.

* `processCommand_eq`, `planCommand_eq`: a line is parsed, and then its tree is dealt with.
* `Store.answer`: **the answer to a line**.
* `seen`: the replies that can be told from the store.
-/

namespace MiniDB

open BPlusTree Pager Lockstep

/-! ## Texts that are parsed -/

/-- What the parser makes of a statement: an outcome at once, or a tree. -/
def statementText (line : List UInt8) : Exec (Outcome ⊕ AstNode) :=
  match parseStatement (parserInit line) with
  | none => .ok (.inl ⟨.failure, [ascii "Statement is not supported"]⟩)
  | some (.error (.error e)) => .ok (.inl ⟨.commandSuccess, [e.text]⟩)
  | some (.error (.fault f)) => .error f
  | some (.ok (tree, _)) => .ok (.inr tree)

/-- What the parser makes of the text behind `.plan`: lines at once, or a tree. -/
def planText (sql : List UInt8) : Exec (List (List UInt8) ⊕ AstNode) :=
  match parsePlanned (parserInit sql) with
  | none => .ok (.inl [ascii ".plan only supports SELECT/INSERT statements"])
  | some (.error (.error e)) => .ok (.inl [e.text])
  | some (.error (.fault f)) => .error f
  | some (.ok (tree, _)) => .ok (.inr tree)

/-- A statement is parsed, and then carried out. -/
theorem processCommand_eq (s : Pager) (line : List UInt8) :
    processCommand s line =
      statementText line >>= Sum.elim (fun o => .ok (o, s)) (execute s) := by
  unfold processCommand statementText
  rcases parseStatement (parserInit line) with _ | (_ | _) | _ <;> rfl

/-- A plan is made of what was parsed. -/
theorem planCommand_eq (s : Pager) (sql : List UInt8) :
    planCommand s sql = planText sql >>= Sum.elim (fun lines => .ok (lines, s)) (planTree s) := by
  unfold planCommand planText
  rcases parsePlanned (parserInit sql) with _ | (_ | _) | _ <;> rfl

/-- A tree comes from the parser. -/
theorem parseStatement_of_text {line : List UInt8} {tree : AstNode}
    (h : statementText line = .ok (.inr tree)) :
    ∃ p, parseStatement (parserInit line) = some (.ok (tree, p)) := by
  unfold statementText at h
  split at h
  · cases h
  · cases h
  · cases h
  · next p hparse =>
    cases h
    exact ⟨p, hparse⟩

/-! ## The store -/

/-- The plan for a tree; its table begins at no page. -/
def Relation.planFor (r : Relation) : AstNode → Exec PlanNode
  | .insert _ values => .ok (.insert 0 values)
  | .select _ _ columns where_ => do
    return project columns (sourceFor 0 r.schema.rowSize where_ (← r.plan where_))
  | _ => throw .uninitialised

/-- The line about a column. -/
def ColumnDefinition.line (d : ColumnDefinition) : List UInt8 :=
  ascii "Column Name " ++ d.name ++ ascii ", its type is " ++ d.columnType.typeName

/-- The line about a table. -/
def Relation.line (r : Relation) : List UInt8 := ascii "Table " ++ r.name

namespace Store

/-- `.tables` -/
def tableLines (st : Store) : List (List UInt8) :=
  ascii "The list of tables is the following : " :: st.map Relation.line

/-- `.schema` -/
def schemaLines (rounds : ℕ) (st : Store) (tableName : List UInt8) : Exec (List (List UInt8)) := do
  let token ← findIdentifier rounds (tokenizerInit tableName) Token.cleared
  if token.type ≠ .tokenIdentifier then
    return [ascii "Not a real table name, please try again!"]
  match st.find token.text with
  | none => return [ascii "The table does not exist! "]
  | some n => return (st[n]?.map fun r => r.definitions.map ColumnDefinition.line).getD []

/-- `.plan` on a tree. -/
def planLines (st : Store) (tree : AstNode) : Exec (List (List UInt8)) :=
  match (st.find tree.table).bind (st[·]?) with
  | none => .ok [ascii "Table is not found"]
  | some r => do return planPrint (← r.planFor tree)

/-- Lines that the store prints. -/
def printing (st : Store) (lines : List (List UInt8)) : List Reply × Store := (lines.map .line, st)

/-- **The answer to a line.**  Nothing is said about `.btree`. -/
def answer (rounds : ℕ) (st : Store) : ConsoleLine → Exec (List Reply × Store)
  | .empty | .exit | .btree => .ok (st.printing [])
  | .tokens sql => (debugTokens rounds sql).map st.printing
  | .ast sql => (debugAst sql).map st.printing
  | .tables => .ok (st.printing st.tableLines)
  | .schema name => (st.schemaLines rounds name).map st.printing
  | .plan sql => (planText sql >>= Sum.elim .ok st.planLines).map st.printing
  | .unrecognized line => .ok (st.printing [ConsoleLine.unrecognizedLine line])
  | .statement line =>
    (statementText line >>= Sum.elim (fun o => .ok (o, st)) st.exec).map fun r =>
      (statementReplies line r.1, r.2)

end Store

/-- A line about the page at which a table begins. -/
def tellsPage (line : List UInt8) : Bool :=
  (ascii "root_page_num: ").isPrefixOf (line.dropWhile fun b => b == 32)

/-- The replies that do not depend on where the pages are. -/
def Reply.isSeen : Reply → Bool
  | .line text => ! tellsPage text
  | .prompt _ | .statement _ | .ending => true

/-- What is seen of the replies. -/
def seen {α : Type} (r : List Reply × α) : List Reply × α := (r.1.filter Reply.isSeen, r.2)

end MiniDB
