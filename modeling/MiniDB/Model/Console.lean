import MiniDB.Model.Debugging
import MiniDB.Model.Printing

/-!
# The console

`main.c`, `repl.c` and the rest of `command.c`: the program reads its standard input line by line.
A line with a dot in front is a command to the console, and any other one is a statement.  The loops
of `.tokens`, `.schema` and `.btree` have no bound; each gets a number of rounds.
-/

namespace MiniDB

/-- `read_input`: a line without its end, and the rest of the input; `none` when there is nothing
left. -/
def readInput : List UInt8 → Option (List UInt8 × List UInt8)
  | [] => none
  | b :: bs =>
    let line := (b :: bs).takeWhile fun b => b != 10
    some (line, (b :: bs).drop (line.length + 1))

/-- The buffer as a string of C. -/
def cString (line : List UInt8) : List UInt8 := line.takeWhile fun b => b != 0

/-- `strncasecmp(line, word, strlen(word)) == 0` -/
def startsWith (word line : List UInt8) : Bool :=
  ((cString line).take word.length).map tolower == word.map tolower

/-- The switch of `debug_ast` over the first token. -/
def parseDebugged (p : Parser) : Option (Parse (AstNode × Parser)) :=
  match p.current.type with
  | .tokenSelect => some (parseSelectStatement p)
  | .tokenCreate => some (parseCreateStatement p)
  | .tokenInsert => some (parseInsertStatement p)
  | _ => none

/-- `debug_ast` -/
def debugAst (sql : List UInt8) : Exec (List (List UInt8)) :=
  match parseDebugged (parserInit sql) with
  | none => .ok [ascii "Statement is not supported"]
  | some (.error (.error e)) => .ok [e.text]
  | some (.error (.fault f)) => .error f
  | some (.ok (tree, _)) => .ok (astPrint tree)

/-- The loop of `.tables`. -/
def printTableNames (catalog : Page) : List ℕ → Exec (List (List UInt8))
  | [] => .ok []
  | i :: is => do
    let field := catalogNodeName catalog i
    let name := field.take (← strlen field)
    return (ascii "Table " ++ name) :: (← printTableNames catalog is)

/-- The branch of `do_meta_command` for `.tables`. -/
def tablesCommand (s : Pager) : Exec (List (List UInt8) × Pager) := do
  let some s := pagerGetPage s 0 | throw .nullPointer
  let names ← printTableNames (s.page 0) (List.range (catalogNodeNumTables (s.page 0)))
  return (ascii "The list of tables is the following : " :: names, s)

/-- The branch of `do_meta_command` for `.plan`, behind the parser. -/
def planTree (s : Pager) (tree : AstNode) : Exec (List (List UInt8) × Pager) := do
  let some s := pagerGetPage s 0 | throw .nullPointer
  match ← catalogNodeFindTable (s.page 0) tree.table with
  | none => return ([ascii "Table is not found"], s)
  | some n => return (planPrint (← buildPlan s tree (openTable s n tree.table)), s)

/-- The switch over the first token behind `.plan`; `none` for a statement it does not support. -/
def parsePlanned (p : Parser) : Option (Parse (AstNode × Parser)) :=
  match p.current.type with
  | .tokenSelect => some (parseSelectStatement p)
  | .tokenInsert => some (parseInsertStatement p)
  | _ => none

/-- The branch of `do_meta_command` for `.plan`. -/
def planCommand (s : Pager) (sql : List UInt8) : Exec (List (List UInt8) × Pager) :=
  match parsePlanned (parserInit sql) with
  | none => .ok ([ascii ".plan only supports SELECT/INSERT statements"], s)
  | some (.error (.error e)) => .ok ([e.text], s)
  | some (.error (.fault f)) => .error f
  | some (.ok (tree, _)) => planTree s tree

/-- `do_meta_command`: the result, what is printed, and the state behind it. -/
def doMetaCommand (rounds : ℕ) (s : Pager) (line : List UInt8) :
    Exec (CommandResult × List (List UInt8) × Pager) :=
  if cString line = ascii ".exit" then .ok (.commandSuccess, [], s)
  else if cString line = ascii ".btree" then do
    let (r, walk, s) ← btreeCommand rounds s
    return (r, btreeLines walk, s)
  else if startsWith (ascii ".tokens") line then do
    return (.debugsTokensSuccess, ← debugTokens rounds (line.drop 7), s)
  else if startsWith (ascii ".ast") line then do
    return (.debugAstSuccess, ← debugAst (line.drop 4), s)
  else if startsWith (ascii ".tables") line then do
    let (lines, s) ← tablesCommand s
    return (.debugAstSuccess, lines, s)
  else if startsWith (ascii ".schema") line then do
    return (.debugAstSuccess, ← printTableSchema rounds s (line.drop 7), s)
  else if startsWith (ascii ".plan") line then do
    let (lines, s) ← planCommand s (line.drop 5)
    return (.debugAstSuccess, lines, s)
  else .ok (.unrecognizedCommand, [], s)

/-- What is printed: the text in front of a line of the input, a line of text, what a statement
prints, or the end of the line behind the last prompt. -/
inductive Reply where
  | prompt (text : List UInt8)
  | line (text : List UInt8)
  | statement (outcome : Outcome)
  | ending

/-- `print_prompt` -/
def printPrompt : Reply := .prompt (ascii "miniDB> ")

/-- What is said about a statement. -/
def statementReplies (line : List UInt8) (o : Outcome) : List Reply :=
  if o.result = .unrecognizedCommand then
    [.statement o, .line (ascii "Unrecognized statement: '" ++ cString line ++ ascii "'.")]
  else [.statement o]

/-- A round of the loop of `main` behind `read_input`; `next` is what the rounds behind it do. -/
def mainRound (rounds : ℕ) (next : Pager → Exec (List Reply × Disk)) (s : Pager)
    (line : List UInt8) : Exec (List Reply × Disk) :=
  let process (s : Pager) : Exec (List Reply × Disk) := do
    let (o, s) ← processCommand s line
    let (replies, disk) ← next s
    return (statementReplies line o ++ replies, disk)
  if line.length = 0 then next s
  else if line.head? = some 46 then do
    match ← doMetaCommand rounds s line with
    | (.commandSuccess, lines, s) => return (lines.map .line, pagerClose s)
    | (.unrecognizedCommand, lines, s) =>
      let (replies, disk) ← next s
      let line := ascii "Unrecognized command '" ++ cString line ++ ascii "'."
      return (lines.map .line ++ .line line :: replies, disk)
    | (.debugBtreeSuccess, lines, s) | (.debugsTokensSuccess, lines, s)
    | (.debugAstSuccess, lines, s) =>
      let (replies, disk) ← next s
      return (lines.map .line ++ replies, disk)
    | (_, lines, s) =>
      let (replies, disk) ← process s
      return (lines.map .line ++ replies, disk)
  else process s

/-- The loop of `main` over the rest of the input: what is printed, and the file that is left.
Every round reads a byte at least. -/
def mainLoop (rounds : ℕ) : ℕ → Pager → List UInt8 → Exec (List Reply × Disk)
  | 0, _, _ => .error .endless
  | fuel + 1, s, input => do
    let (replies, disk) ← (match readInput input with
      | none => .ok ([.ending], pagerClose s)
      | some (line, rest) => mainRound rounds (fun s => mainLoop rounds fuel s rest) s line)
    return (printPrompt :: replies, disk)

/-- `main` on a database file: without its catalog page it goes on with a pager that was freed. -/
def runMain (rounds : ℕ) (disk : Disk) (input : List UInt8) : Exec (List Reply × Disk) :=
  match openDatabase disk with
  | none => .error .nullPointer
  | some s => mainLoop rounds (input.length + 1) s input

end MiniDB
