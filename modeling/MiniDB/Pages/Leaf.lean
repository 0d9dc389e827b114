import MiniDB.Pages.Header
import MiniDB.Pages.RowCodec
import MiniDB.BPlusTree.Insert

/-!
# Leaf pages as lists of cells

A leaf page holds `NUM_CELLS` cells, each a key and the bytes of a row.  The edits of a leaf page
are edits of that list.

* `leafCells`: the list.
* `leafNodeFind_spec`: the binary search finds the place of a key in it.
* `leafCells_insertCell`: `leaf_node_insert` is the sorted insertion.
* `writeEntries_eq`, `insertEntry_eq`: the buffer of a leaf split is the sorted insertion too.
-/

namespace MiniDB

open BPlusTree

/-- A key and the bytes of a row. -/
abbrev Cell := Int64 × List UInt8

/-- The bytes of a cell. -/
def cellBytes (c : Cell) : List UInt8 := Mem.int64Bytes c.1 ++ c.2

/-- The cell in a run of bytes. -/
def cellOf (bs : List UInt8) : Cell :=
  (Int64.ofBitVec (BitVec.ofNat 64 (ofLE (bs.take 8))), bs.drop 8)

/-- The cells of a leaf page. -/
def leafCells (rowSize : ℕ) (p : Page) : List Cell :=
  (p.records leafNodeHeaderSize (leafNodeCellSize rowSize) (numCells p)).map cellOf

/-- The cells of a leaf with rows of one size. -/
def CellsOfSize (rowSize : ℕ) (cells : List Cell) : Prop := ∀ c ∈ cells, c.2.length = rowSize

variable {rowSize : ℕ} {p q : Page}

theorem le_leafNodeCell (i rowSize : ℕ) : leafNodeHeaderSize ≤ leafNodeCell i rowSize :=
  Nat.le_add_right ..

theorem length_cellBytes (c : Cell) : (cellBytes c).length = 8 + c.2.length := by
  rw [cellBytes, List.length_append, Mem.length_int64Bytes]

theorem cellOf_cellBytes (c : Cell) : cellOf (cellBytes c) = c := by
  have hlen := Mem.length_int64Bytes c.1
  rw [cellOf, cellBytes, List.take_left' hlen, List.drop_left' hlen, Mem.ofLE_int64Bytes]

theorem map_cellOf_cellBytes (cells : List Cell) : (cells.map cellBytes).map cellOf = cells := by
  rw [List.map_map]
  exact (List.map_congr_left fun c _ => cellOf_cellBytes c).trans (List.map_id cells)

@[simp] theorem length_leafCells (rowSize : ℕ) (p : Page) :
    (leafCells rowSize p).length = numCells p := by
  simp [leafCells]

/-- A cell of the list is what the accessors read. -/
theorem getElem_leafCells {i : ℕ} (h : i < (leafCells rowSize p).length) :
    (leafCells rowSize p)[i] =
      (leafNodeKey p i rowSize, p.read (leafNodeValue i rowSize) rowSize) := by
  have htake : (p.read (leafNodeCell i rowSize) (8 + rowSize)).take 8 =
      p.read (leafNodeCell i rowSize) 8 := Mem.take_read (Nat.le_add_right ..)
  have hdrop : (p.read (leafNodeCell i rowSize) (8 + rowSize)).drop 8 =
      p.read (leafNodeCell i rowSize + 8) rowSize := by
    rw [Mem.drop_read (Nat.le_add_right ..), Nat.add_sub_cancel_left]
  have hcell : (leafCells rowSize p)[i] =
      cellOf (p.read (leafNodeCell i rowSize) (8 + rowSize)) := by
    simp [leafCells, leafNodeCell, leafNodeCellSize, keySize]
  rw [hcell, cellOf, htake, hdrop]
  rfl

theorem cellsOfSize_leafCells (rowSize : ℕ) (p : Page) :
    CellsOfSize rowSize (leafCells rowSize p) := by
  intro c hc
  obtain ⟨bs, hbs, rfl⟩ := List.mem_map.mp hc
  have hlen := Mem.length_of_mem_records hbs
  rw [leafNodeCellSize, keySize] at hlen
  rw [cellOf, List.length_drop]
  omega

/-- The cells depend on the number of cells and on the bytes below the header. -/
theorem leafCells_congr (h : SameBody p q) (hn : numCells p = numCells q) :
    leafCells rowSize p = leafCells rowSize q := by
  rw [leafCells, leafCells, hn]
  congr 1
  exact Mem.records_congr fun i _ => h _ (Nat.le_add_right ..)

/-! ## Search -/

/-- Ascending cells have ascending keys on the page. -/
theorem ascendingTo_leafNodeKey (hs : Tree.Sorted (leafCells rowSize p)) :
    AscendingTo (numCells p) fun i => leafNodeKey p i rowSize := by
  intro i j hij hj
  have hlt := List.pairwise_iff_getElem.mp hs i j (by rw [length_leafCells]; omega)
    (by rwa [length_leafCells]) hij
  rwa [getElem_leafCells, getElem_leafCells] at hlt

theorem isCut_leafNodeFind (hs : Tree.Sorted (leafCells rowSize p)) (key : Int64) :
    IsCut (numCells p) (fun i => leafNodeKey p i rowSize < key) (leafNodeFind p key rowSize) :=
  isCut_binarySearch (ascendingTo_leafNodeKey hs) key

/-- The keys before the place that was found are smaller, and the others are not. -/
theorem leafNodeFind_spec (hs : Tree.Sorted (leafCells rowSize p)) (key : Int64) :
    (∀ c ∈ (leafCells rowSize p).take (leafNodeFind p key rowSize), c.1 < key) ∧
      ∀ c ∈ (leafCells rowSize p).drop (leafNodeFind p key rowSize), key ≤ c.1 := by
  have hcut := isCut_leafNodeFind hs key
  constructor
  · intro c hc
    obtain ⟨i, hi, rfl⟩ := List.getElem_of_mem hc
    rw [List.length_take] at hi
    rw [List.getElem_take, getElem_leafCells]
    exact hcut.below i (by omega)
  · intro c hc
    obtain ⟨i, hi, rfl⟩ := List.getElem_of_mem hc
    rw [List.length_drop, length_leafCells] at hi
    rw [List.getElem_drop, getElem_leafCells]
    exact not_lt.mp (hcut.above _ (Nat.le_add_right ..) (by omega))

/-- The test that follows every search: the key stands at the place that was found. -/
def FoundAt (p : Page) (key : Int64) (rowSize : ℕ) : Prop :=
  leafNodeFind p key rowSize < numCells p ∧
    leafNodeKey p (leafNodeFind p key rowSize) rowSize = key

instance (p : Page) (key : Int64) (rowSize : ℕ) : Decidable (FoundAt p key rowSize) :=
  inferInstanceAs (Decidable (_ ∧ _))

theorem foundAt_iff (hs : Tree.Sorted (leafCells rowSize p)) (key : Int64) :
    FoundAt p key rowSize ↔ ∃ c ∈ leafCells rowSize p, c.1 = key := by
  constructor
  · rintro ⟨hlt, hkey⟩
    have hlen : leafNodeFind p key rowSize < (leafCells rowSize p).length := by
      rwa [length_leafCells]
    exact ⟨_, List.getElem_mem hlen, by rw [getElem_leafCells]; exact hkey⟩
  · rintro ⟨c, hc, rfl⟩
    obtain ⟨i, hi, rfl⟩ := List.getElem_of_mem hc
    rw [getElem_leafCells]
    rw [length_leafCells] at hi
    have hcut := isCut_leafNodeFind hs (leafNodeKey p i rowSize)
    have hasc := ascendingTo_leafNodeKey hs
    -- the place is neither before nor behind the cell
    have hge : leafNodeFind p (leafNodeKey p i rowSize) rowSize ≤ i := by
      by_contra hlt
      exact lt_irrefl _ (hcut.below i (by omega))
    have hle : i ≤ leafNodeFind p (leafNodeKey p i rowSize) rowSize := by
      by_contra hlt
      exact hcut.above _ le_rfl (by omega) (hasc _ i (by omega) hi)
    have heq : leafNodeFind p (leafNodeKey p i rowSize) rowSize = i := le_antisymm hge hle
    exact ⟨by rw [heq]; exact hi, by rw [heq]⟩

/-- Looking a key up on the page is looking it up in the list. -/
theorem lookup_leafCells (hs : Tree.Sorted (leafCells rowSize p)) (key : Int64) :
    (leafCells rowSize p).lookup key =
      if leafNodeFind p key rowSize < numCells p ∧
          leafNodeKey p (leafNodeFind p key rowSize) rowSize = key then
        some (p.read (leafNodeValue (leafNodeFind p key rowSize) rowSize) rowSize)
      else none := by
  split
  · next h =>
    have hlen : leafNodeFind p key rowSize < (leafCells rowSize p).length := by
      rw [length_leafCells]
      exact h.1
    have hsplit := List.take_append_drop (leafNodeFind p key rowSize) (leafCells rowSize p)
    have hbefore : ((leafCells rowSize p).take (leafNodeFind p key rowSize)).lookup key = none :=
      Tree.lookup_eq_none fun c hc => ((leafNodeFind_spec hs key).1 c hc).ne
    rw [← hsplit, List.lookup_append, hbefore, Option.none_or, List.drop_eq_getElem_cons hlen,
      getElem_leafCells, h.2, List.lookup_cons, beq_self_eq_true]
  · next h =>
    refine Tree.lookup_eq_none fun c hc heq => h ?_
    exact (foundAt_iff hs key).mpr ⟨c, hc, heq⟩

/-! ## Insertion -/

/-- The sorted insertion puts the cell at the place that the search finds. -/
theorem insertCell_eq_take_drop {key : Int64} {v : List UInt8} {cells : List Cell} {i : ℕ}
    (hlt : ∀ c ∈ cells.take i, c.1 ≤ key) (hgt : ∀ c ∈ cells.drop i, key < c.1) :
    insertCell key v cells = cells.take i ++ (key, v) :: cells.drop i := by
  conv_lhs => rw [← List.take_append_drop i cells, insertCell_append_right hlt]
  congr 1
  cases hd : cells.drop i with
  | nil => rfl
  | cons c cs =>
    rw [hd] at hgt
    exact if_pos (hgt c List.mem_cons_self)

/-- `leaf_node_insert` at a place of the page inserts there. -/
theorem leafCells_insertCell_take {cellNum : ℕ} {key : Int64} {row : Row}
    (hn : Fits (numCells p + 1)) (hrow : (rowBytes row.values).length = rowSize)
    (hcell : cellNum ≤ numCells p) :
    leafCells rowSize (leafNodeInsertCell p cellNum key row rowSize) =
      (leafCells rowSize p).take cellNum ++ (key, rowBytes row.values) ::
        (leafCells rowSize p).drop cellNum := by
  have hbytes : (cellBytes (key, rowBytes row.values)).length = leafNodeCellSize rowSize := by
    rw [length_cellBytes, hrow, leafNodeCellSize, keySize]
  have hpage : leafNodeInsertCell p cellNum key row rowSize =
      setNumCells ((p.memmove (leafNodeCell (cellNum + 1) rowSize) (leafNodeCell cellNum rowSize)
        ((numCells p - cellNum) * leafNodeCellSize rowSize)).write (leafNodeCell cellNum rowSize)
          (cellBytes (key, rowBytes row.values))) (numCells p + 1) := by
    rw [cellBytes, ← Mem.write_append, Mem.length_int64Bytes, leafNodeInsertCell, serializeRow_eq]
    rfl
  have hnum : numCells (leafNodeInsertCell p cellNum key row rowSize) = numCells p + 1 := by
    rw [hpage, numCells_eq, header_setNumCells _ hn]
  have hrec : ∀ m : Page, (setNumCells m (numCells p + 1)).records leafNodeHeaderSize
      (leafNodeCellSize rowSize) (numCells p + 1) =
        m.records leafNodeHeaderSize (leafNodeCellSize rowSize) (numCells p + 1) := fun m =>
    Mem.records_congr fun i _ => sameBody_setNumCells m _ _ (Nat.le_add_right ..)
  rw [leafCells, hnum, hpage, hrec]
  simp only [leafNodeCell]
  rw [Mem.records_insert hcell hbytes, List.map_append, List.map_cons, cellOf_cellBytes,
    List.map_take, List.map_drop]
  rfl

theorem header_leafNodeInsertCell {cellNum : ℕ} {key : Int64} {row : Row}
    (hn : Fits (numCells p + 1)) :
    header (leafNodeInsertCell p cellNum key row rowSize) =
      { header p with cells := numCells p + 1 } := by
  have hvalue : leafNodeHeaderSize ≤ leafNodeValue cellNum rowSize :=
    Nat.le_add_right_of_le (le_leafNodeCell ..)
  rw [leafNodeInsertCell, serializeRow_eq, header_setNumCells _ hn, header_write hvalue,
    Mem.writeInt64, header_write (le_leafNodeCell ..), Mem.memmove,
    header_write (le_leafNodeCell ..)]

/-- **`leaf_node_insert` is the sorted insertion.** -/
theorem leafCells_insertCell {key : Int64} {row : Row} (hs : Tree.Sorted (leafCells rowSize p))
    (hkey : ∀ c ∈ leafCells rowSize p, c.1 ≠ key) (hn : Fits (numCells p + 1))
    (hrow : (rowBytes row.values).length = rowSize) :
    leafCells rowSize (leafNodeInsertCell p (leafNodeFind p key rowSize) key row rowSize) =
      insertCell key (rowBytes row.values) (leafCells rowSize p) := by
  obtain ⟨hlt, hge⟩ := leafNodeFind_spec hs key
  rw [leafCells_insertCell_take hn hrow (isCut_leafNodeFind hs key).le,
    insertCell_eq_take_drop (fun c hc => (hlt c hc).le) fun c hc =>
      lt_of_le_of_ne (hge c hc) (hkey c (List.mem_of_mem_drop hc)).symm]

/-! ## The buffer of a split -/

/-- The cell that an entry of the buffer is written as. -/
def NodeEntry.cell (e : NodeEntry) : Cell := (e.key, rowBytes e.row.values)

/-- The entry that a cell is read as. -/
def entryOf (types : List ColumnType) (c : Cell) : NodeEntry := ⟨c.1, ⟨decodeValues types c.2⟩⟩

theorem cell_entryOf {types : List ColumnType} {c : Cell} (h : c.2.length = rowWidth types) :
    (entryOf types c).cell = c := by
  rw [entryOf, NodeEntry.cell, rowBytes_decodeValues h]

/-- Put the new entry at its place in the buffer. -/
theorem insertEntry_eq {types : List ColumnType} {cells : List Cell} {key : Int64} {row : Row}
    (hs : Tree.Sorted cells) (hkey : ∀ c ∈ cells, c.1 ≠ key)
    (hsize : CellsOfSize (rowWidth types) cells) :
    (insertEntry (cells.map (entryOf types)) ⟨key, row⟩).map NodeEntry.cell =
      insertCell key (rowBytes row.values) cells := by
  have hget : ∀ j < cells.length,
      ((cells.map (entryOf types)).getD j default).key = (cells.map Prod.fst).getD j 0 := by
    intro j hj
    simp [hj, entryOf]
  have hasc : AscendingTo cells.length
      fun j => ((cells.map (entryOf types)).getD j default).key := by
    intro i j hij hj
    dsimp only
    rw [hget i (by omega), hget j hj]
    have hlt := List.pairwise_iff_getElem.mp hs i j (by omega) hj hij
    have hi : i < cells.length := by omega
    simpa [hi, hj] using hlt
  obtain ⟨pos, hdef, hcut⟩ : ∃ pos, insertEntry (cells.map (entryOf types)) ⟨key, row⟩ =
      (cells.map (entryOf types)).take pos ++ ⟨key, row⟩ :: (cells.map (entryOf types)).drop pos ∧
        IsCut cells.length
          (fun j => ((cells.map (entryOf types)).getD j default).key ≤ key) pos :=
    ⟨_, by rw [insertEntry, List.length_map], isCut_scanDown hasc key⟩
  have hmap : (cells.map (entryOf types)).map NodeEntry.cell = cells := by
    rw [List.map_map]
    exact (List.map_congr_left fun c hc => cell_entryOf (hsize c hc)).trans (List.map_id cells)
  rw [hdef, List.map_append, List.map_cons, List.map_take, List.map_drop, hmap,
    insertCell_eq_take_drop (i := pos)]
  · rfl
  · intro c hc
    obtain ⟨i, hi, rfl⟩ := List.getElem_of_mem hc
    rw [List.length_take] at hi
    have hi' : i < cells.length := by omega
    have := hcut.below i (by omega)
    rw [hget i hi'] at this
    simpa [hi'] using this
  · intro c hc
    obtain ⟨i, hi, rfl⟩ := List.getElem_of_mem hc
    rw [List.length_drop] at hi
    have hne := hkey _ (List.mem_of_mem_drop hc)
    rw [List.getElem_drop] at hne ⊢
    have hi' : pos + i < cells.length := Nat.add_lt_of_lt_sub' hi
    have := hcut.above _ (Nat.le_add_right pos i) hi'
    rw [hget _ hi'] at this
    simpa [hi'] using this

/-- The loop that writes the buffer into a page is one write. -/
theorem writeEntries_eq {es : List NodeEntry} (h : CellsOfSize rowSize (es.map NodeEntry.cell))
    (i : ℕ) (page : Page) :
    writeEntries rowSize i es page =
      page.write (leafNodeCell i rowSize) ((es.map NodeEntry.cell).map cellBytes).flatten := by
  induction es generalizing i page with
  | nil => exact (Mem.write_nil ..).symm
  | cons e es ih =>
    have hsize : (NodeEntry.cell e).2.length = rowSize := h _ List.mem_cons_self
    have hlen : leafNodeCell i rowSize + (cellBytes e.cell).length =
        leafNodeCell (i + 1) rowSize := by
      rw [length_cellBytes, hsize, leafNodeCell, leafNodeCell, leafNodeCellSize, keySize,
        Nat.succ_mul, Nat.add_assoc]
    have hcell : serializeRow e.row (page.writeInt64 (leafNodeCell i rowSize) e.key)
        (leafNodeValue i rowSize) = page.write (leafNodeCell i rowSize) (cellBytes e.cell) := by
      rw [serializeRow_eq, cellBytes, ← Mem.write_append, Mem.length_int64Bytes]
      rfl
    rw [List.map_cons, List.map_cons, List.flatten_cons, ← Mem.write_append, hlen, writeEntries,
      hcell, ih fun c hc => h c (List.mem_cons_of_mem _ hc)]

/-- A page that was filled from the buffer holds its cells. -/
theorem leafCells_writeEntries {es : List NodeEntry}
    (h : CellsOfSize rowSize (es.map NodeEntry.cell))
    (hbody : SameBody q (writeEntries rowSize 0 es p)) (hn : numCells q = es.length) :
    leafCells rowSize q = es.map NodeEntry.cell := by
  have hlen : ∀ bs ∈ (es.map NodeEntry.cell).map cellBytes,
      bs.length = leafNodeCellSize rowSize := by
    intro bs hbs
    obtain ⟨c, hc, rfl⟩ := List.mem_map.mp hbs
    rw [length_cellBytes, h c hc, leafNodeCellSize, keySize]
  have hrec := Mem.records_write_flatten p leafNodeHeaderSize hlen
  rw [List.length_map, List.length_map] at hrec
  have hzero : leafNodeCell 0 rowSize = leafNodeHeaderSize := by
    rw [leafNodeCell, Nat.zero_mul]; rfl
  have hpage := writeEntries_eq h 0 p
  rw [hzero] at hpage
  have heq : q.records leafNodeHeaderSize (leafNodeCellSize rowSize) es.length =
      (writeEntries rowSize 0 es p).records leafNodeHeaderSize
        (leafNodeCellSize rowSize) es.length :=
    Mem.records_congr fun i _ => hbody _ (Nat.le_add_right ..)
  rw [leafCells, hn, heq, hpage, hrec, map_cellOf_cellBytes]

theorem header_writeEntries {es : List NodeEntry} (h : CellsOfSize rowSize (es.map NodeEntry.cell))
    (i : ℕ) (page : Page) : header (writeEntries rowSize i es page) = header page := by
  rw [writeEntries_eq h, header_write (le_leafNodeCell ..)]

end MiniDB
