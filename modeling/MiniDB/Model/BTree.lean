import MiniDB.Model.Row
import MiniDB.OrderedSearch

/-!
# The B+ tree pages

`btree.c`: the layout of leaf and internal pages, the searches in them, insertion, and the splits.
Both kinds of page share a header; the bytes that hold `NEXT_LEAF` in a leaf hold the rightmost
child in an internal page.

A loop that follows page numbers read from pages gets `walkFuel` rounds.  Such a loop reads only, so
once it has seen more pages than there can be it will never end.  `split_internal_node` gets the
same number: every level it climbs takes a page.
-/

namespace MiniDB

instance linearOrderInt64 : LinearOrder Int64 where
  le_refl := Int64.le_refl
  le_trans _ _ _ := Int64.le_trans
  le_antisymm _ _ := Int64.le_antisymm
  le_total := Int64.le_total
  lt_iff_le_not_ge a b := by
    rw [Int64.lt_iff_toInt_lt, Int64.le_iff_toInt_le, Int64.le_iff_toInt_le]
    omega
  toDecidableLE := inferInstance
  toDecidableLT := inferInstance
  toDecidableEq := inferInstance

def nodeTypeOffset : ℕ := 0
def isRootOffset : ℕ := 1
def parentPointerOffset : ℕ := 2
def numCellsOffset : ℕ := 6
def nextLeafOffset : ℕ := 10
def leafNodeHeaderSize : ℕ := 14
def keySize : ℕ := 8
def valueOffset : ℕ := 8
def leafNodeSpaceForCells : ℕ := pageSize - leafNodeHeaderSize

def internalNodeRightChildOffset : ℕ := 10
def internalNodeHeaderSize : ℕ := 14
def internalNodeKeySize : ℕ := 8
def internalNodeCellSize : ℕ := 12
def internalNodeSpaceForCells : ℕ := pageSize - internalNodeHeaderSize
def internalNodeMaxKeys : ℕ := internalNodeSpaceForCells / internalNodeCellSize

/-- `NODE_LEAF` -/
def nodeLeaf : UInt8 := 0

/-- `NODE_INTERNAL` -/
def nodeInternal : UInt8 := 1

/-- The rounds a loop over pages gets. -/
def walkFuel : ℕ := tablesMaxPages + 1

/-! ## The header -/

def nodeType (page : Page) : UInt8 := page nodeTypeOffset
def isRoot (page : Page) : UInt8 := page isRootOffset
def parentPointer (page : Page) : ℕ := page.readNat parentPointerOffset 4
def numCells (page : Page) : ℕ := page.readNat numCellsOffset 4
def nextLeaf (page : Page) : ℕ := page.readNat nextLeafOffset 4
def rightChild (page : Page) : ℕ := page.readNat internalNodeRightChildOffset 4

def setNodeType (page : Page) (t : UInt8) : Page := page.write nodeTypeOffset [t]
def setIsRoot (page : Page) (b : UInt8) : Page := page.write isRootOffset [b]
def setParentPointer (page : Page) (n : ℕ) : Page := page.writeNat parentPointerOffset 4 n
def setNumCells (page : Page) (n : ℕ) : Page := page.writeNat numCellsOffset 4 n
def setNextLeaf (page : Page) (n : ℕ) : Page := page.writeNat nextLeafOffset 4 n
def setRightChild (page : Page) (n : ℕ) : Page := page.writeNat internalNodeRightChildOffset 4 n

/-- `leaf_node_init` -/
def leafNodeInit (page : Page) : Page :=
  setNextLeaf (setNumCells (setIsRoot (setNodeType page nodeLeaf) 1) 0) 0

/-- `internal_node_init` -/
def internalNodeInit (page : Page) (root : UInt8) : Page :=
  setNextLeaf (setNumCells (setIsRoot (setNodeType page nodeInternal) root) 0) 0

/-! ## Cells -/

def leafNodeCellSize (rowSize : ℕ) : ℕ := keySize + rowSize

def leafNodeMaxCells (rowSize : ℕ) : ℕ := leafNodeSpaceForCells / leafNodeCellSize rowSize

/-- `leaf_node_cell`: the offset of a cell. -/
def leafNodeCell (cellNum rowSize : ℕ) : ℕ :=
  leafNodeHeaderSize + cellNum * leafNodeCellSize rowSize

def leafNodeKey (page : Page) (cellNum rowSize : ℕ) : Int64 :=
  page.readInt64 (leafNodeCell cellNum rowSize)

/-- `leaf_node_value`: the offset of a row. -/
def leafNodeValue (cellNum rowSize : ℕ) : ℕ := leafNodeCell cellNum rowSize + valueOffset

/-- `internal_node_cell`: the offset of a cell. -/
def internalNodeCell (cellNum : ℕ) : ℕ := internalNodeHeaderSize + cellNum * internalNodeCellSize

def internalNodeKey (page : Page) (cellNum : ℕ) : Int64 := page.readInt64 (internalNodeCell cellNum)

/-- `internal_node_value`: the child left of a key. -/
def internalNodeValue (page : Page) (cellNum : ℕ) : ℕ :=
  page.readNat (internalNodeCell cellNum + internalNodeKeySize) 4

def setInternalNodeKey (page : Page) (cellNum : ℕ) (key : Int64) : Page :=
  page.writeInt64 (internalNodeCell cellNum) key

def setInternalNodeValue (page : Page) (cellNum child : ℕ) : Page :=
  page.writeNat (internalNodeCell cellNum + internalNodeKeySize) 4 child

/-! ## Searches -/

def leafNodeFind (page : Page) (key : Int64) (rowSize : ℕ) : ℕ :=
  binarySearch (fun i => leafNodeKey page i rowSize) key (numCells page) 0 (numCells page)

def internalNodeFind (page : Page) (key : Int64) : ℕ :=
  binarySearch (internalNodeKey page) key (numCells page) 0 (numCells page)

/-- The child at a position; the one past the last key is the right child. -/
def childAt (page : Page) (i : ℕ) : ℕ :=
  if i = numCells page then rightChild page else internalNodeValue page i

/-- `leaf_node_for_key` from the page `n` on; `none` for `NULL`. -/
def leafNodeForKey (key : Int64) : ℕ → Pager → ℕ → Exec (Option ℕ × Pager)
  | 0, _, _ => .error .endless
  | fuel + 1, s, n =>
    if nodeType (s.page n) = nodeLeaf then .ok (some n, s)
    else
      let child := childAt (s.page n)
        (scanDown (internalNodeKey (s.page n)) key (numCells (s.page n)))
      match pagerGetPage s child with
      | none => .ok (none, s)
      | some s => leafNodeForKey key fuel s child

/-- The loop `while (NODE_TYPE == NODE_INTERNAL) curr = get_page(internal_node_value(curr, 0))`;
`none` for `NULL`. -/
def firstLeaf : ℕ → Pager → ℕ → Exec (Option ℕ × Pager)
  | 0, _, _ => .error .endless
  | fuel + 1, s, n =>
    if nodeType (s.page n) = nodeInternal then
      match pagerGetPage s (internalNodeValue (s.page n) 0) with
      | none => .ok (none, s)
      | some s' => firstLeaf fuel s' (internalNodeValue (s.page n) 0)
    else .ok (some n, s)

/-! ## Insertion into one page -/

/-- The page edit of `leaf_node_insert`. -/
def leafNodeInsertCell (page : Page) (cellNum : ℕ) (key : Int64) (row : Row) (rowSize : ℕ) : Page :=
  let n := numCells page
  let page := page.memmove (leafNodeCell (cellNum + 1) rowSize) (leafNodeCell cellNum rowSize)
    ((n - cellNum) * leafNodeCellSize rowSize)
  let page := page.writeInt64 (leafNodeCell cellNum rowSize) key
  let page := serializeRow row page (leafNodeValue cellNum rowSize)
  setNumCells page (n + 1)

/-- `leaf_node_insert` -/
def leafNodeInsert (s : Pager) (leafPageNum cellNum : ℕ) (key : Int64) (row : Row) (rowSize : ℕ) :
    CommandResult × Pager :=
  if leafNodeMaxCells rowSize ≤ numCells (s.page leafPageNum) then (.leafFullError, s)
  else
    let s := s.setPage leafPageNum
      (leafNodeInsertCell (s.page leafPageNum) cellNum key row rowSize)
    (.commandSuccess, pagerMarkDirty s leafPageNum)

/-- The page edit of `internal_node_insert`. -/
def internalNodeInsertCell (page : Page) (cellNum : ℕ) (key : Int64) (left right : ℕ) : Page :=
  let n := numCells page
  let page := page.memmove (internalNodeCell (cellNum + 1)) (internalNodeCell cellNum)
    ((n - cellNum) * internalNodeCellSize)
  -- past every key the new right child is the rightmost one, which is stored in the header
  let page :=
    if cellNum = n then setRightChild page right else setInternalNodeValue page (cellNum + 1) right
  let page := setInternalNodeKey page cellNum key
  let page := setInternalNodeValue page cellNum left
  setNumCells page (n + 1)

/-- `internal_node_insert` -/
def internalNodeInsert (s : Pager) (pageNum cellNum : ℕ) (key : Int64) (left right : ℕ) :
    CommandResult × Pager :=
  if internalNodeMaxKeys ≤ numCells (s.page pageNum) then (.internalNodeFullError, s)
  else
    let s := s.setPage pageNum (internalNodeInsertCell (s.page pageNum) cellNum key left right)
    (.commandSuccess, pagerMarkDirty s pageNum)

/-! ## Splitting an internal node -/

/-- `temp_keys` after the new key was put in at `cellNum`. -/
def tempKeys (page : Page) (cellNum : ℕ) (key : Int64) : List Int64 :=
  let keys := (List.range (numCells page)).map (internalNodeKey page)
  keys.take cellNum ++ key :: keys.drop cellNum

/-- `temp_children` after the child at `cellNum` was replaced by its two halves. -/
def tempChildren (page : Page) (cellNum left right : ℕ) : List ℕ :=
  let children := (List.range (numCells page)).map (internalNodeValue page) ++ [rightChild page]
  children.take cellNum ++ left :: right :: children.drop (cellNum + 1)

/-- The loop that writes keys and the children left of them from cell `i` on. -/
def writeInternalCells : ℕ → List (Int64 × ℕ) → Page → Page
  | _, [], page => page
  | i, c :: cs, page =>
    writeInternalCells (i + 1) cs (setInternalNodeValue (setInternalNodeKey page i c.1) i c.2)

/-- The loop that sets the parent pointers of children; `false` when `pager_get_page` returned
`NULL` for one of them. -/
def setParentPointers : List (ℕ × ℕ) → Pager → Bool × Pager
  | [], s => (true, s)
  | (child, parent) :: cs, s =>
    match pagerGetPage s child with
    | none => (false, s)
    | some s => setParentPointers cs (s.setPage child (setParentPointer (s.page child) parent))

/-- The root case of `split_internal_node`: both halves get new pages and the old page becomes
their parent. -/
def splitInternalRoot (s : Pager) (oldPageNum : ℕ) (keys : List Int64) (children : List ℕ) :
    CommandResult × Pager :=
  let mid := internalNodeMaxKeys / 2
  let left := s.numPages
  match pagerGetPage s left with
  | none => (.failure, s)
  | some s =>
    let right := s.numPages
    match pagerGetPage s right with
    | none => (.failure, s)
    | some s =>
      let leftPage := internalNodeInit (s.page left) 0
      let rightPage := internalNodeInit (s.page right) 0
      let leftPage := writeInternalCells 0 ((keys.take mid).zip (children.take mid)) leftPage
      let rightPage := writeInternalCells 0
        ((keys.drop (mid + 1)).zip (children.drop (mid + 1))) rightPage
      let leftPage := setRightChild leftPage (children.getD mid 0)
      let rightPage := setRightChild rightPage (children.getD (internalNodeMaxKeys + 1) 0)
      let leftPage := setNumCells leftPage mid
      let rightPage := setNumCells rightPage (internalNodeMaxKeys - mid)
      let leftPage := setParentPointer leftPage oldPageNum
      let rightPage := setParentPointer rightPage oldPageNum
      let s := (s.setPage left leftPage).setPage right rightPage
      -- every child moved: up to `mid` to the left half, the others to the right half
      let parents := children.zipIdx.map fun c => (c.1, if c.2 ≤ mid then left else right)
      match setParentPointers parents s with
      | (false, s) => (.failure, s)
      | (true, s) =>
        let page := (s.page oldPageNum).zero internalNodeHeaderSize internalNodeSpaceForCells
        let page := internalNodeInit page 1
        let page := setInternalNodeKey page 0 (keys.getD mid 0)
        let page := setInternalNodeValue page 0 left
        let page := setNumCells page 1
        let page := setRightChild page right
        let s := s.setPage oldPageNum page
        (.commandSuccess,
          pagerMarkDirty (pagerMarkDirty (pagerMarkDirty s left) right) oldPageNum)

/-- The other case of `split_internal_node`, up to the point where the promoted key goes into the
parent: the old page keeps the left half and a new page takes the right one.  Answers the number of
the new page, or `none` where the function returns `-1`. -/
def splitInternalHalves (s : Pager) (oldPageNum : ℕ) (keys : List Int64) (children : List ℕ) :
    Option ℕ × Pager :=
  let mid := internalNodeMaxKeys / 2
  let s := s.setPage oldPageNum
    ((s.page oldPageNum).zero internalNodeHeaderSize internalNodeSpaceForCells)
  let right := s.numPages
  match pagerGetPage s right with
  | none => (none, s)
  | some s =>
    let rightPage := internalNodeInit (s.page right) 0
    let leftPage := internalNodeInit (s.page oldPageNum) 0
    let leftPage := writeInternalCells 0 ((keys.take mid).zip (children.take mid)) leftPage
    -- the key at `mid` is promoted: the right half starts one after it
    let rightPage := writeInternalCells 0
      ((keys.drop (mid + 1)).zip (children.drop (mid + 1))) rightPage
    let leftPage := setRightChild leftPage (children.getD mid 0)
    let rightPage := setRightChild rightPage (children.getD (internalNodeMaxKeys + 1) 0)
    let s := (s.setPage oldPageNum leftPage).setPage right rightPage
    match setParentPointers ((children.drop (mid + 1)).map fun c => (c, right)) s with
    | (false, s) => (none, s)
    | (true, s) =>
      let parent := parentPointer (s.page oldPageNum)
      let s := s.setPage right (setParentPointer (s.page right) parent)
      let s := s.setPage oldPageNum (setParentPointer (s.page oldPageNum) parent)
      let s := s.setPage oldPageNum (setNumCells (s.page oldPageNum) mid)
      let s := s.setPage right (setNumCells (s.page right) (internalNodeMaxKeys - mid))
      match pagerGetPage s parent with
      | none => (none, s)
      | some s => (some right, pagerMarkDirty (pagerMarkDirty s oldPageNum) right)

/-- A call of `split_internal_node`: the state of the pager, the full node, the key that goes into
it and the pages on both sides of that key. -/
structure SplitCall where
  pager : Pager
  page : ℕ
  key : Int64
  left : ℕ
  right : ℕ

/-- The end of both split functions: the promoted key goes into the parent, or the parent is full
and `split_internal_node` is called for it. -/
def promoteInto (s : Pager) (parent : ℕ) (promoted : Int64) (left right : ℕ) :
    SplitCall ⊕ (CommandResult × Pager) :=
  let cellNum := internalNodeFind (s.page parent) promoted
  match internalNodeInsert s parent cellNum promoted left right with
  | (.internalNodeFullError, s) => .inl ⟨s, parent, promoted, left, right⟩
  | (_, s) => .inr (.commandSuccess, s)

/-- `split_internal_node` up to its call of itself. -/
def splitInternalStep (s : Pager) (oldPageNum : ℕ) (newKey : Int64) (left right : ℕ) :
    SplitCall ⊕ (CommandResult × Pager) :=
  let oldPage := s.page oldPageNum
  let cellNum := internalNodeFind oldPage newKey
  let keys := tempKeys oldPage cellNum newKey
  let children := tempChildren oldPage cellNum left right
  let promoted := keys.getD (internalNodeMaxKeys / 2) 0
  if isRoot oldPage = 1 then .inr (splitInternalRoot s oldPageNum keys children)
  else
    match splitInternalHalves s oldPageNum keys children with
    | (none, s) => .inr (.failure, s)
    | (some newPage, s) =>
      promoteInto s (parentPointer (s.page oldPageNum)) promoted oldPageNum newPage

/-- `split_internal_node`; the callers come here with a full node only. -/
def splitInternalNode : ℕ → Pager → ℕ → Int64 → ℕ → ℕ → Exec (CommandResult × Pager)
  | 0, _, _, _, _, _ => .error .endless
  | fuel + 1, s, oldPageNum, newKey, left, right =>
    match splitInternalStep s oldPageNum newKey left right with
    | .inl c => splitInternalNode fuel c.pager c.page c.key c.left c.right
    | .inr r => .ok r

/-! ## Splitting a leaf -/

/-- `NodeEntry` -/
structure NodeEntry where
  key : Int64
  row : Row

instance : Inhabited NodeEntry := ⟨⟨0, default⟩⟩

/-- The loop that decodes the cells of a leaf into `temp`. -/
def readEntries (s : Pager) (table : Table) (page : Page) (rowSize : ℕ) :
    List ℕ → Exec (List NodeEntry)
  | [] => .ok []
  | i :: is => do
    let row ← deserializeRow s table page (leafNodeValue i rowSize)
    let entries ← readEntries s table page rowSize is
    return ⟨leafNodeKey page i rowSize, row⟩ :: entries

/-- The loop that writes entries from cell `i` on. -/
def writeEntries (rowSize : ℕ) : ℕ → List NodeEntry → Page → Page
  | _, [], page => page
  | i, e :: es, page =>
    let page := page.writeInt64 (leafNodeCell i rowSize) e.key
    writeEntries rowSize (i + 1) es (serializeRow e.row page (leafNodeValue i rowSize))

/-- Put the new entry behind the last entry whose key is not larger. -/
def insertEntry (entries : List NodeEntry) (new : NodeEntry) : List NodeEntry :=
  let i := scanDown (fun j => (entries.getD j default).key) new.key entries.length
  entries.take i ++ new :: entries.drop i

/-- `split_leaf_node` up to its call of `split_internal_node`. -/
def splitLeafStep (s : Pager) (table : Table) (oldPageNum : ℕ) (newKey : Int64) (newRow : Row)
    (rowSize : ℕ) : Exec (SplitCall ⊕ (CommandResult × Pager)) := do
  let maxCells := leafNodeMaxCells rowSize
  let entries ← readEntries s table (s.page oldPageNum) rowSize (List.range maxCells)
  let temp := insertEntry entries ⟨newKey, newRow⟩
  let mid := (maxCells + 1) / 2
  let promoted := (temp.getD mid default).key
  let right := s.numPages
  match pagerGetPage s right with
  | none => return .inr (.failure, s)
  | some s =>
    let oldPage := s.page oldPageNum
    let rightPage := setIsRoot (leafNodeInit (s.page right)) 0
    let rightPage := setParentPointer rightPage
      (if isRoot oldPage = 1 then oldPageNum else parentPointer oldPage)
    -- the right half; `NUM_CELLS` counts along with the loop
    let rightPage := writeEntries rowSize 0 (temp.drop mid) rightPage
    let rightPage := setNumCells rightPage (maxCells - mid + 1)
    let s := pagerMarkDirty (s.setPage right rightPage) right
    if isRoot oldPage = 1 then
      let left := s.numPages
      match pagerGetPage s left with
      | none => return .inr (.failure, s)
      | some s =>
        let leftPage := setIsRoot (leafNodeInit (s.page left)) 0
        let leftPage := writeEntries rowSize 0 (temp.take mid) leftPage
        let leftPage := setNumCells leftPage mid
        let leftPage := setNextLeaf leftPage right
        let leftPage := setParentPointer leftPage oldPageNum
        let s := pagerMarkDirty (s.setPage left leftPage) left
        -- the old page becomes the new root, an internal page with one key
        let page := (s.page oldPageNum).zero leafNodeHeaderSize leafNodeSpaceForCells
        let page := setNodeType (leafNodeInit page) nodeInternal
        let page := setInternalNodeKey page 0 promoted
        let page := setInternalNodeValue page 0 left
        let page := setNumCells page 1
        let page := setRightChild page right
        return .inr (.commandSuccess, pagerMarkDirty (s.setPage oldPageNum page) oldPageNum)
    else
      let page := (s.page oldPageNum).zero leafNodeHeaderSize leafNodeSpaceForCells
      let page := setNumCells page mid
      let page := writeEntries rowSize 0 (temp.take mid) page
      let s := pagerMarkDirty (s.setPage oldPageNum page) oldPageNum
      let parent := parentPointer (s.page oldPageNum)
      let oldNextLeaf := nextLeaf (s.page oldPageNum)
      let s := s.setPage right (setNextLeaf (s.page right) oldNextLeaf)
      let s := s.setPage oldPageNum (setNextLeaf (s.page oldPageNum) right)
      match pagerGetPage s parent with
      | none => return .inr (.failure, s)
      | some s => return promoteInto s parent promoted oldPageNum right

/-- `split_leaf_node` -/
def splitLeafNode (s : Pager) (table : Table) (oldPageNum : ℕ) (newKey : Int64) (newRow : Row)
    (rowSize : ℕ) : Exec (CommandResult × Pager) := do
  match ← splitLeafStep s table oldPageNum newKey newRow rowSize with
  | .inl c => splitInternalNode walkFuel c.pager c.page c.key c.left c.right
  | .inr r => return r

end MiniDB
