import MiniDB.Model.Printing

/-!
# The B-tree study

`tests/Btree.c`, the target `btree_study`: a B-tree of order 5 in memory, with pointers from a node
to its parent.  An insertion goes into the leaf first; a node that has overflowed is cut, and the
cutting ripples upward along the parents.

The nodes are on a heap: `malloc` gives an address that was never used, `free` makes a node
disappear, and an access through `NULL` or to a node that is no longer there fails, as does one
outside an array or to an entry that was never assigned.
-/

namespace MiniDB.BtreeStudy

def order : ℕ := 5

def maxKeys : ℕ := order - 1

def minKeys : ℕ := (order - 1) / 2

/-- What can go wrong. -/
inductive HeapFault where
  /-- an access through `NULL` -/
  | nullPointer
  /-- an access to a node that was freed, or freeing it again -/
  | freed
  /-- an index outside an array -/
  | outOfBounds
  /-- an entry is read that was never assigned -/
  | uninitialised
  /-- a loop or a recursion does not end -/
  | endless
  deriving DecidableEq, Repr

abbrev Run := Except HeapFault

/-- A pointer to a node. -/
abbrev Pointer := Option ℕ

/-- `BTreeNode`; both arrays have one slot more than a legal node needs. -/
structure BTreeNode where
  numKeys : ℕ
  keys : List (Option Int64)
  children : List Pointer
  parent : Pointer
  isLeaf : Bool

/-- The nodes that were allocated and not freed, and the number of calls of `malloc` so far. -/
structure Heap where
  nodes : ℕ → Option BTreeNode
  next : ℕ

namespace Heap

/-- Follow a pointer. -/
def get (H : Heap) : Pointer → Run BTreeNode
  | none => .error .nullPointer
  | some a =>
    match H.nodes a with
    | none => .error .freed
    | some n => .ok n

/-- Write to a node. -/
def set (H : Heap) (a : ℕ) (n : BTreeNode) : Heap :=
  { H with nodes := Function.update H.nodes a (some n) }

/-- `free` -/
def free (H : Heap) (a : ℕ) : Run Heap :=
  match H.nodes a with
  | none => .error .freed
  | some _ => .ok { H with nodes := Function.update H.nodes a none }

/-- A heap on which there is nothing. -/
def empty : Heap := ⟨fun _ => none, 0⟩

end Heap

namespace BTreeNode

/-- `n->keys[i]` -/
def key (n : BTreeNode) (i : ℕ) : Run Int64 :=
  match n.keys[i]? with
  | none => .error .outOfBounds
  | some none => .error .uninitialised
  | some (some k) => .ok k

/-- `n->keys[i] = k` -/
def setKey (n : BTreeNode) (i : ℕ) (k : Int64) : Run BTreeNode :=
  if i < n.keys.length then .ok { n with keys := n.keys.set i (some k) } else .error .outOfBounds

/-- `n->children[i]` -/
def child (n : BTreeNode) (i : ℕ) : Run Pointer :=
  match n.children[i]? with
  | none => .error .outOfBounds
  | some c => .ok c

/-- `n->children[i] = c` -/
def setChild (n : BTreeNode) (i : ℕ) (c : Pointer) : Run BTreeNode :=
  if i < n.children.length then .ok { n with children := n.children.set i c }
  else .error .outOfBounds

end BTreeNode

/-! ## Construction and destruction -/

/-- `node_create`: the keys are not assigned. -/
def nodeCreate (H : Heap) (isLeaf : Bool) : ℕ × Heap :=
  (H.next, { H.set H.next ⟨0, List.replicate (maxKeys + 1) none, List.replicate (order + 1) none,
    none, isLeaf⟩ with next := H.next + 1 })

/-- `btree_create`: the root. -/
def btreeCreate (H : Heap) : ℕ × Heap := nodeCreate H true

/-- The loop of `node_destroy` over the children at some positions. -/
def destroyChildren (destroy : Heap → Pointer → Run Heap) (H : Heap) (n : ℕ) : List ℕ → Run Heap
  | [] => .ok H
  | i :: is => do
    let node ← H.get (some n)
    let H ← destroy H (← node.child i)
    destroyChildren destroy H n is

/-- `node_destroy` -/
def nodeDestroy : ℕ → Heap → Pointer → Run Heap
  | 0, _, _ => .error .endless
  | _ + 1, H, none => .ok H
  | fuel + 1, H, some a => do
    let node ← H.get (some a)
    let H ← (if ! node.isLeaf then
      destroyChildren (nodeDestroy fuel) H a (List.range (node.numKeys + 1)) else pure H)
    H.free a

/-! ## Search -/

/-- The loop `while (i < n->numKeys && key > n->keys[i]) i++`, with `left` positions left. -/
def skipSmaller (n : BTreeNode) (key : Int64) : ℕ → ℕ → Run ℕ
  | 0, i => .ok i
  | left + 1, i => do
    if (← n.key i) < key then skipSmaller n key left (i + 1) else return i

/-- `btree_search` from a node on. -/
def btreeSearch : ℕ → Heap → Pointer → Int64 → Run Bool
  | 0, _, _, _ => .error .endless
  | _ + 1, _, none, _ => .ok false
  | fuel + 1, H, some cur, key => do
    let n ← H.get (some cur)
    let i ← skipSmaller n key n.numKeys 0
    let found ← (if i < n.numKeys then do return (← n.key i) == key else pure false)
    if found then return true
    if n.isLeaf then return false
    btreeSearch fuel H (← n.child i) key

/-- The loop `while (i >= 0 && n->keys[i] > key) i--`; the result is `i + 1`. -/
def skipLarger (n : BTreeNode) (key : Int64) : ℕ → Run ℕ
  | 0 => .ok 0
  | i + 1 => do
    if key < (← n.key i) then skipLarger n key i else return i + 1

/-- `btree_search_rec` -/
def btreeSearchRec : ℕ → Heap → Pointer → Int64 → Run Bool
  | 0, _, _, _ => .error .endless
  | _ + 1, _, none, _ => .ok false
  | fuel + 1, H, some t, key => do
    let n ← H.get (some t)
    let i ← skipLarger n key n.numKeys
    let found ← (if 0 < i then do return (← n.key (i - 1)) == key else pure false)
    if found then return true
    btreeSearchRec fuel H (← n.child i) key

/-! ## Insertion -/

/-- The loop of `node_insert_at` that shifts larger keys to the right; the result is `i + 1`. -/
def shiftLarger (key : Int64) : ℕ → BTreeNode → Run (ℕ × BTreeNode)
  | 0, n => .ok (0, n)
  | i + 1, n => do
    let k ← n.key i
    if key < k then
      let n ← n.setKey (i + 1) k
      let n ← n.setChild (i + 2) (← n.child (i + 1))
      shiftLarger key i n
    else return (i + 1, n)

/-- Assign the parent of a node, if there is one. -/
def setParent (H : Heap) (c : Pointer) (parent : ℕ) : Run Heap :=
  match c with
  | none => .ok H
  | some a => do
    let n ← H.get (some a)
    return H.set a { n with parent := some parent }

/-- `node_insert_at` -/
def nodeInsertAt (H : Heap) (a : ℕ) (key : Int64) (rightChild : Pointer) : Run Heap := do
  let n ← H.get (some a)
  let (i, n) ← shiftLarger key n.numKeys n
  let n ← n.setKey i key
  let n ← n.setChild (i + 1) rightChild
  let H ← setParent (H.set a n) rightChild a
  let n ← H.get (some a)
  return H.set a { n with numKeys := n.numKeys + 1 }

/-- The loop of `split` that copies keys to the right sibling. -/
def copyKeys (n : BTreeNode) (mid : ℕ) : List ℕ → BTreeNode → Run BTreeNode
  | [], right => .ok right
  | i :: is, right => do
    let right ← right.setKey i (← n.key (mid + 1 + i))
    copyKeys n mid is right

/-- The loop of `split` that moves children to the right sibling. -/
def moveChildren (a right mid : ℕ) : List ℕ → Heap → Run Heap
  | [], H => .ok H
  | i :: is, H => do
    let c ← (← H.get (some a)).child (mid + 1 + i)
    let H := H.set right (← (← H.get (some right)).setChild i c)
    let H ← setParent H c right
    let H := H.set a (← (← H.get (some a)).setChild (mid + 1 + i) none)
    moveChildren a right mid is H

/-- The first part of `split`: the right sibling is built.  The results are the key to promote, the
sibling, and `n->parent`, which nothing below assigns before it is read for the last time. -/
def buildSibling (H : Heap) (a : ℕ) : Run (Int64 × ℕ × Pointer × Heap) := do
  let n ← H.get (some a)
  let mid := n.numKeys / 2
  let promoted ← n.key mid
  let (right, H) := nodeCreate H n.isLeaf
  let rnode := { ← H.get (some right) with numKeys := n.numKeys - mid - 1 }
  let rnode ← copyKeys n mid (List.range rnode.numKeys) rnode
  let H := H.set right rnode
  let H ← (if ! n.isLeaf then moveChildren a right mid (List.range (rnode.numKeys + 1)) H
    else pure H)
  let n ← H.get (some a)
  return (promoted, right, n.parent, H.set a { n with numKeys := mid })

/-- The branch of `split` for the root. -/
def growRoot (H : Heap) (promoted : Int64) (a right : ℕ) : Run (ℕ × Heap) := do
  let (newRoot, H) := nodeCreate H false
  let node ← H.get (some newRoot)
  let node ← node.setKey 0 promoted
  let node ← { node with numKeys := 1 }.setChild 0 (some a)
  let node ← node.setChild 1 (some right)
  let H := H.set newRoot node
  let H ← setParent H (some right) newRoot
  let H ← setParent H (some a) newRoot
  return (newRoot, H)

/-- `split` on a tree with the given root; the result is the root, and the heap. -/
def split : ℕ → Heap → ℕ → ℕ → Run (ℕ × Heap)
  | 0, _, _, _ => .error .endless
  | fuel + 1, H, root, a => do
    let (promoted, right, parent, H) ← buildSibling H a
    match parent with
    | none => growRoot H promoted a right
    | some p => do
      let H ← nodeInsertAt H p promoted (some right)
      let parent ← H.get (some p)
      if maxKeys < parent.numKeys then split fuel H root p else return (root, H)

/-- The scan of `btree_insert` inside an inner node, with `left` positions left; `none` where it
returns on a duplicate. -/
def scanInner (n : BTreeNode) (key : Int64) : ℕ → ℕ → Run (Option ℕ)
  | 0, i => .ok (some i)
  | left + 1, i => do
    let k ← n.key i
    if k < key then
      if k = key then return none
      scanInner n key left (i + 1)
    else if k = key then return none
    else return some i

/-- The loop of `btree_insert` over the keys of the leaf. -/
def hasKey (n : BTreeNode) (key : Int64) : List ℕ → Run Bool
  | [] => .ok false
  | i :: is => do
    if (← n.key i) = key then return true else hasKey n key is

/-- The first phase of `btree_insert`: the leaf for the key; `none` where it returns on a
duplicate. -/
def descendToLeaf : ℕ → Heap → Pointer → Int64 → Run (Option ℕ)
  | 0, _, _, _ => .error .endless
  | _ + 1, _, none, _ => .error .nullPointer
  | fuel + 1, H, some cur, key => do
    let n ← H.get (some cur)
    if n.isLeaf then
      if ← hasKey n key (List.range n.numKeys) then return none else return some cur
    else
      match ← scanInner n key n.numKeys 0 with
      | none => return none
      | some i => descendToLeaf fuel H (← n.child i) key

/-- `btree_insert` on a tree with the given root. -/
def btreeInsert (fuel : ℕ) (H : Heap) (root : ℕ) (key : Int64) : Run (ℕ × Heap) := do
  match ← descendToLeaf fuel H (some root) key with
  | none => return (root, H)
  | some cur =>
    let H ← nodeInsertAt H cur key none
    let n ← H.get (some cur)
    if maxKeys < n.numKeys then split fuel H root cur else return (root, H)

/-! ## Display -/

/-- The keys of a node, as `rec_display` prints them. -/
def displayKeys (n : BTreeNode) : List ℕ → Run (List UInt8)
  | [] => .ok (ascii "/")
  | i :: is => do return ascii "/" ++ printInt64 (← n.key i) ++ (← displayKeys n is)

/-- The loop of `rec_display` over the children. -/
def displayChildren (display : Pointer → ℕ → Run (List (List UInt8))) (n : BTreeNode) :
    List ℕ → Run (List (List UInt8))
  | [] => .ok []
  | i :: is => do
    let c ← n.child i
    let lines ← (if c.isSome then display c i else pure [])
    return lines ++ (← displayChildren display n is)

/-- `rec_display` -/
def recDisplay : ℕ → Heap → Pointer → ℕ → ℕ → Run (List (List UInt8))
  | 0, _, _, _, _ => .error .endless
  | fuel + 1, H, p, level, childNum => do
    let n ← H.get p
    let head :=
      ascii "level=" ++ printNat level ++ ascii " child=" ++ printNat childNum ++ ascii " "
    let line := head ++ (← displayKeys n (List.range n.numKeys))
    let below ← (if ! n.isLeaf then
      displayChildren (fun c i => recDisplay fuel H c (level + 1) i) n (List.range (n.numKeys + 1))
      else pure [])
    return line :: below

end MiniDB.BtreeStudy
