import MiniDB.Pages.Internal
import MiniDB.LocalArray

/-!
# The arrays of `split_internal_node`

A full page is split by way of two arrays, the keys with room for one more and the children with
room for one more.  `checkedBuffers` fills and reads them with every index checked.

* `keysBuffer`, `childrenBuffer`: what is written; `keyReads`, `childReads`: which entries are read.
* `checkedBuffers_eq`: **for a full page no index is outside**, and what is read are the lists
  `tempKeys` and `tempChildren`.
-/

namespace MiniDB

/-- `temp_keys[INTERNAL_NODE_MAX_KEYS + 1]` once it is filled. -/
def keysBuffer (page : Page) (cellNum : ℕ) (newKey : Int64) : Option (LocalArray Int64) := do
  let keys ← LocalArray.fill (internalNodeKey page) (numCells page)
    (List.replicate (internalNodeMaxKeys + 1) none)
  let keys ← LocalArray.move (cellNum + 1) cellNum (internalNodeMaxKeys - cellNum) keys
  LocalArray.put cellNum newKey keys

/-- `temp_children[INTERNAL_NODE_MAX_KEYS + 2]` once it is filled. -/
def childrenBuffer (page : Page) (cellNum left right : ℕ) : Option (LocalArray ℕ) := do
  let children ← LocalArray.fill (internalNodeValue page) (numCells page)
    (List.replicate (internalNodeMaxKeys + 2) none)
  let children ← LocalArray.put internalNodeMaxKeys (rightChild page) children
  let children ← LocalArray.move (cellNum + 1) cellNum (internalNodeMaxKeys - cellNum + 1) children
  let children ← LocalArray.put cellNum left children
  LocalArray.put (cellNum + 1) right children

/-- The entries of `temp_keys` that are read: the left half, the promoted key, the right half. -/
def keyReads : List ℕ :=
  List.range (internalNodeMaxKeys / 2) ++ [internalNodeMaxKeys / 2] ++
    (List.range (internalNodeMaxKeys - internalNodeMaxKeys / 2)).map
      (internalNodeMaxKeys / 2 + 1 + ·)

/-- Those of `temp_children`: the same ones, and the right child of the right half.  The loop that
sets parent pointers reads some of them again. -/
def childReads : List ℕ := keyReads ++ [internalNodeMaxKeys + 1]

/-- What is read from the two arrays; `none` when an index is out of range, or when the unsigned
number of entries to move would be negative. -/
def checkedBuffers (page : Page) (cellNum : ℕ) (newKey : Int64) (left right : ℕ) :
    Option (List Int64 × List ℕ) :=
  if cellNum ≤ internalNodeMaxKeys then do
    let keys ← keysBuffer page cellNum newKey
    let children ← childrenBuffer page cellNum left right
    return (← LocalArray.read keys keyReads, ← LocalArray.read children childReads)
  else none

theorem keyReads_eq : keyReads = List.range (internalNodeMaxKeys + 1) := by
  have hsum : internalNodeMaxKeys + 1 =
    internalNodeMaxKeys / 2 + 1 + (internalNodeMaxKeys - internalNodeMaxKeys / 2) := by omega
  rw [keyReads, hsum, List.range_add, List.range_succ]

theorem childReads_eq : childReads = List.range (internalNodeMaxKeys + 2) := by
  rw [childReads, keyReads_eq, List.range_succ (n := internalNodeMaxKeys + 1)]

/-- The loop that copies a full page leaves the last entries. -/
theorem fill_full {α : Type} (f : ℕ → α) (extra : ℕ) :
    LocalArray.fill f internalNodeMaxKeys (List.replicate (internalNodeMaxKeys + extra) none) =
      some (((List.range internalNodeMaxKeys).map f).map some ++ List.replicate extra none) := by
  rw [LocalArray.fill_eq f (by rw [List.length_replicate]; omega), List.drop_replicate,
    Nat.add_sub_cancel_left, List.map_map]
  rfl

variable {page : Page} {cellNum : ℕ}

section Full

variable (hfull : numCells page = internalNodeMaxKeys) (hle : cellNum ≤ internalNodeMaxKeys)

include hfull hle

theorem keysBuffer_eq (newKey : Int64) :
    keysBuffer page cellNum newKey = some ((tempKeys page cellNum newKey).map some) := by
  have hkeys : ((internalKeys page).map some).length = internalNodeMaxKeys := by
    rw [List.length_map, length_internalKeys, hfull]
  have hfill : LocalArray.fill (internalNodeKey page) (numCells page)
      (List.replicate (internalNodeMaxKeys + 1) none) =
        some ((internalKeys page).map some ++ [none]) := by
    rw [internalKeys, hfull]
    exact fill_full _ 1
  obtain ⟨y, hmove⟩ := LocalArray.move_eq (z := none) (hle.trans hkeys.ge)
  rw [hkeys] at hmove
  have hput := LocalArray.put_append (List.length_take_of_le (hle.trans hkeys.ge)) y
    (((internalKeys page).map some).drop cellNum) newKey
  simp only [keysBuffer, hfill, bind, Option.bind_some, hmove, hput]
  rw [tempKeys_eq, List.map_append, List.map_cons, List.map_take, List.map_drop]

theorem childrenBuffer_eq (left right : ℕ) :
    childrenBuffer page cellNum left right =
      some ((tempChildren page cellNum left right).map some) := by
  have hchildren : ((internalChildren page).map some).length = internalNodeMaxKeys + 1 := by
    rw [List.length_map, length_internalChildren, hfull]
  have hlt : cellNum < ((internalChildren page).map some).length := by omega
  have hfill : LocalArray.fill (internalNodeValue page) (numCells page)
      (List.replicate (internalNodeMaxKeys + 2) none) =
        some (((List.range (numCells page)).map (internalNodeValue page)).map some ++
          none :: [none]) := by
    rw [hfull]
    exact fill_full _ 2
  -- the right child goes behind the others
  have hlast := LocalArray.put_append
    (by rw [List.length_map, List.length_map, List.length_range, hfull] :
      (((List.range (numCells page)).map (internalNodeValue page)).map some).length =
        internalNodeMaxKeys) none [none] (rightChild page)
  have hall : ((List.range (numCells page)).map (internalNodeValue page)).map some ++
      some (rightChild page) :: [none] = (internalChildren page).map some ++ [none] := by
    rw [internalChildren, List.map_append, List.append_assoc]
    rfl
  rw [hall] at hlast
  obtain ⟨y, hmove⟩ := LocalArray.move_eq (z := none) hlt.le
  have hcount : internalNodeMaxKeys + 1 - cellNum = internalNodeMaxKeys - cellNum + 1 := by omega
  rw [hchildren, hcount, List.drop_eq_getElem_cons hlt] at hmove
  have htake := List.length_take_of_le hlt.le
  have hputL := LocalArray.put_append htake y (((internalChildren page).map some)[cellNum] ::
    ((internalChildren page).map some).drop (cellNum + 1)) left
  have hputR := LocalArray.put_append
    (by rw [List.length_append, htake, List.length_singleton] :
      (((internalChildren page).map some).take cellNum ++ [some left]).length = cellNum + 1)
    ((internalChildren page).map some)[cellNum]
    (((internalChildren page).map some).drop (cellNum + 1)) right
  rw [List.append_assoc, List.append_assoc] at hputR
  simp only [childrenBuffer, hfill, bind, Option.bind_some, hlast, hmove, hputL]
  rw [tempChildren_eq, List.map_append, List.map_cons, List.map_cons, List.map_take, List.map_drop]
  exact hputR

/-- **Every index is inside, and the lists are read.** -/
theorem checkedBuffers_eq (newKey : Int64) (left right : ℕ) :
    checkedBuffers page cellNum newKey left right =
      some (tempKeys page cellNum newKey, tempChildren page cellNum left right) := by
  have hlenK : (tempKeys page cellNum newKey).length = internalNodeMaxKeys + 1 := by
    rw [tempKeys_eq, List.length_append, List.length_cons, List.length_take, List.length_drop,
      length_internalKeys, hfull]
    omega
  have hlenC : (tempChildren page cellNum left right).length = internalNodeMaxKeys + 2 := by
    rw [tempChildren_eq, List.length_append, List.length_cons, List.length_cons, List.length_take,
      List.length_drop, length_internalChildren, hfull]
    omega
  have hreadK := LocalArray.read_range (tempKeys page cellNum newKey)
  have hreadC := LocalArray.read_range (tempChildren page cellNum left right)
  rw [hlenK, ← keyReads_eq] at hreadK
  rw [hlenC, ← childReads_eq] at hreadC
  simp only [checkedBuffers, if_pos hle, keysBuffer_eq hfull hle, childrenBuffer_eq hfull hle,
    bind, Option.bind_some, hreadK, hreadC, pure]

end Full

end MiniDB
