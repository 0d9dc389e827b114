import MiniDB.Model.Command

/-!
# The command `.btree`

`do_meta_command` passes the catalog page to `debug_leaf_node`, which takes it for a page of a tree:
it descends to a first leaf and lists the leaves along their links.  Neither loop has a bound; both
get a number of rounds here.
-/

namespace MiniDB

/-- A leaf as it is listed: its page, its number of cells, and their keys. -/
structure LeafListing where
  page : ℕ
  size : ℕ
  keys : List Int64

/-- What `debug_leaf_node` goes through: the pages it descends by, and the leaves it lists. -/
structure BtreeWalk where
  descent : List ℕ
  leaves : List LeafListing

namespace BtreeWalk

/-- The pages that are visited. -/
def pages (walk : BtreeWalk) : List ℕ := walk.descent ++ walk.leaves.map LeafListing.page

/-- The keys that are printed. -/
def keys (walk : BtreeWalk) : List Int64 := walk.leaves.flatMap LeafListing.keys

/-- The lines that are printed for the leaves from number `i` on. -/
def linesFrom : ℕ → List LeafListing → List (List UInt8)
  | _, [] => []
  | i, leaf :: rest =>
    (ascii "Leaf " ++ ascii (toString i) ++ ascii " ( size " ++ ascii (toString leaf.size) ++
      ascii ")") :: leaf.keys.map (fun key => ascii "- " ++ ascii (toString key.toInt)) ++
        linesFrom (i + 1) rest

end BtreeWalk

/-- The loop of `debug_leaf_node` down to the first leaf: the pages above it, and the leaf. -/
def debugDescend : ℕ → Pager → ℕ → Exec (List ℕ × ℕ × Pager)
  | 0, _, _ => .error .endless
  | rounds + 1, s, page =>
    if nodeType (s.page page) = nodeInternal then do
      let child := internalNodeValue (s.page page) 0
      let some s := pagerGetPage s child | throw .nullPointer
      let (above, leaf, s) ← debugDescend rounds s child
      return (page :: above, leaf, s)
    else return ([], page, s)

/-- The loop over the cells of a leaf. -/
def debugKeys (page : Page) (rowSize : ℕ) : List ℕ → Exec (List Int64)
  | [] => .ok []
  | i :: is => do
    if pageSize < leafNodeCell i rowSize + keySize then throw .outOfBounds
    return leafNodeKey page i rowSize :: (← debugKeys page rowSize is)

/-- The loop along the leaf links. -/
def debugLeaves (rowSize : ℕ) : ℕ → Pager → ℕ → Exec (List LeafListing × Pager)
  | 0, _, _ => .error .endless
  | rounds + 1, s, page => do
    let size := numCells (s.page page)
    let keys ← debugKeys (s.page page) rowSize (List.range size)
    let next := nextLeaf (s.page page)
    if next = 0 then return ([⟨page, size, keys⟩], s)
    match pagerGetPage s next with
    | none => return ([⟨page, size, keys⟩], s)
    | some s =>
      let (rest, s) ← debugLeaves rowSize rounds s next
      return (⟨page, size, keys⟩ :: rest, s)

/-- `debug_leaf_node` -/
def debugLeafNode (rounds : ℕ) (s : Pager) (page rowSize : ℕ) : Exec (BtreeWalk × Pager) := do
  let (above, leaf, s) ← debugDescend rounds s page
  let (leaves, s) ← debugLeaves rowSize rounds s leaf
  return (⟨above, leaves⟩, s)

/-- The branch of `do_meta_command` for `.btree`; `none` for a catalog page that cannot be read. -/
def btreeCommand (rounds : ℕ) (s : Pager) : Exec (CommandResult × Option BtreeWalk × Pager) := do
  match pagerGetPage s 0 with
  | none => return (.debugBtreeSuccess, none, s)
  | some s =>
    let rowSize :=
      if catalogNodeNumTables (s.page 0) > 0 then catalogNodeRowSize (s.page 0) 0 else 0
    let (walk, s) ← debugLeafNode rounds s 0 rowSize
    return (.debugBtreeSuccess, some walk, s)

/-- The lines that `.btree` prints. -/
def btreeLines : Option BtreeWalk → List (List UInt8)
  | none => [ascii "Error reading leaf node"]
  | some walk => BtreeWalk.linesFrom 1 walk.leaves

end MiniDB
