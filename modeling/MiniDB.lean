import MiniDB.ByteMemory
import MiniDB.ByteRecords
import MiniDB.OrderedSearch
import MiniDB.Runs
import MiniDB.BPlusTree.Kids
import MiniDB.BPlusTree.Tree
import MiniDB.BPlusTree.Insert
import MiniDB.BPlusTree.Filled
import MiniDB.BPlusTree.Overflow
import MiniDB.Model.Pager
import MiniDB.Model.Ast
import MiniDB.Model.Catalog
import MiniDB.Model.Row
import MiniDB.Model.BTree
import MiniDB.Model.Lexer
import MiniDB.Model.Parser
import MiniDB.Model.Table
import MiniDB.Model.Cursor
import MiniDB.Model.Command
import MiniDB.Pages.RowCodec
import MiniDB.Pages.Header
import MiniDB.Pages.Leaf
import MiniDB.Pages.LeafEdit
import MiniDB.Pages.Internal
import MiniDB.Storage.Paging
import MiniDB.Storage.Closing
import MiniDB.Storage.Stored
import MiniDB.Storage.Descent
import MiniDB.Storage.SplitInternal
import MiniDB.Storage.SplitLeaf
import MiniDB.Storage.InsertParent
import MiniDB.Storage.Insertion
import MiniDB.Storage.Marks
import MiniDB.Storage.InsertRoot
import MiniDB.Storage.Reloaded
import MiniDB.Storage.Exhausted
import MiniDB.Storage.Room
import MiniDB.Storage.LeafWalk
import MiniDB.Statements.Schema
import MiniDB.Statements.Insert
import MiniDB.Statements.Walk
import MiniDB.Statements.Delete
import MiniDB.Statements.Update
import MiniDB.Statements.UpdateFailure
import MiniDB.Statements.Names
import MiniDB.Statements.Resolving
import MiniDB.Statements.Conditions
import MiniDB.Statements.Assigning
import MiniDB.Statements.Create
import MiniDB.Cursors.Reading
import MiniDB.Cursors.Delivering
import MiniDB.Cursors.Scan
import MiniDB.Cursors.Plans
import MiniDB.Sessions.Database
import MiniDB.Parsing.Lexing
import MiniDB.Parsing.Progress
import MiniDB.Parsing.Printing
import MiniDB.Parsing.RoundTrip
import MiniDB.Parsing.Trees
import MiniDB.Parsing.Grammar
import MiniDB.Parsing.Soundness
import MiniDB.Parsing.Positions
import MiniDB.Parsing.Literals
import MiniDB.Parsing.Ending
import MiniDB.Parsing.Destroying
import MiniDB.Sessions.Execute
import MiniDB.Statements.Lookup
import MiniDB.Sessions.TableRuns
import MiniDB.Sessions.Cascades
import MiniDB.Sessions.Reachable
import MiniDB.Sessions.OneTable
import MiniDB.Sessions.Ascending
import MiniDB.Sessions.Inserting
import MiniDB.Sessions.Frames
import MiniDB.Sessions.Creating
import MiniDB.Sessions.Naming
import MiniDB.Sessions.Deleting
import MiniDB.Sessions.Updating
import MiniDB.Sessions.Scanning
import MiniDB.Sessions.Orders
import MiniDB.Sessions.Keys
import MiniDB.Sessions.Planning
import MiniDB.Sessions.Failing
import MiniDB.Statements.Typing
import MiniDB.Cursors.Typing
import MiniDB.Cursors.Meaning
import MiniDB.Sessions.Typing
import MiniDB.Storage.Backing
import MiniDB.Sessions.Closing
import MiniDB.Sessions.Reopening
import MiniDB.Storage.Allocating
import MiniDB.Sessions.StoredRows
import MiniDB.Sessions.Refusing
import MiniDB.Sessions.Debugging
import MiniDB.Pages.CellEdits
import MiniDB.BPlusTree.Levels
import MiniDB.Sessions.Searching
import MiniDB.Storage.Touching
import MiniDB.Sessions.Splitting
import MiniDB.BPlusTree.PassUp
import MiniDB.Pages.SplitBuffers
import MiniDB.Sessions.Rising
import MiniDB.Lockstep
import MiniDB.Store.Relation
import MiniDB.Store.Represented
import MiniDB.Store.Refusing
import MiniDB.Store.Held
import MiniDB.Store.Statements
import MiniDB.Store.Runs
import MiniDB.Store.Laws
import MiniDB.Model.Printing
import MiniDB.Model.Console
import MiniDB.Console.Input
import MiniDB.Console.Loop
import MiniDB.Console.Shown
import MiniDB.Console.Agreeing
import MiniDB.Console.Programs
import MiniDB.Console.Inspecting
import MiniDB.BTree.Node
import MiniDB.BTree.Insert
import MiniDB.Model.BtreeStudy
import MiniDB.Study.Stored
import MiniDB.Study.Searching
import MiniDB.Study.Inserting
import MiniDB.Study.Splitting
import MiniDB.Study.Placing
import MiniDB.Study.Rippling
import MiniDB.Study.Represented
import MiniDB.Study.Runs
import MiniDB.Study.Displaying
import MiniDB.Codes
import MiniDB.Console.Numbers
import MiniDB.Console.Printed
import MiniDB.Console.Faithful
import MiniDB.Results
import MiniDB.Parsing.Lowered
import MiniDB.Statements.Lowered
import MiniDB.Sessions.Lowered
import MiniDB.Console.Decided
