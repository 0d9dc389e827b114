import MiniDB.Pages.Leaf
import Mathlib.Data.List.InsertIdx

/-!
# Rewriting and removing the cells of a leaf page

`update_command` writes a row over the value of a cell, and `delete_command` moves the cells behind
a cell over it.

* `SameFrame`: the header but for the number of cells is untouched.
* `leafCells_writeValue`, `leafCells_removeCell`: the two edits as edits of the list of cells.
-/

namespace MiniDB

variable {rowSize : ℕ} {p q r : Page}

/-- Two leaf pages that differ in their cells only. -/
structure SameFrame (p q : Page) : Prop where
  type : nodeType q = nodeType p
  isRoot : isRoot q = isRoot p
  parent : parentPointer q = parentPointer p
  next : nextLeaf q = nextLeaf p

theorem SameFrame.refl (p : Page) : SameFrame p p := ⟨rfl, rfl, rfl, rfl⟩

theorem SameFrame.trans (h : SameFrame p q) (h' : SameFrame q r) : SameFrame p r :=
  ⟨h'.type.trans h.type, h'.isRoot.trans h.isRoot, h'.parent.trans h.parent, h'.next.trans h.next⟩

/-- Write a row over the value of a cell. -/
theorem leafCells_writeValue {i : ℕ} {bs : List UInt8} (hi : i < (leafCells rowSize p).length)
    (hbs : bs.length = rowSize) :
    leafCells rowSize (p.write (leafNodeValue i rowSize) bs) =
        (leafCells rowSize p).set i ((leafCells rowSize p)[i].1, bs) ∧
      SameFrame p (p.write (leafNodeValue i rowSize) bs) ∧
      numCells (p.write (leafNodeValue i rowSize) bs) = numCells p := by
  have hn : i < numCells p := by rwa [length_leafCells] at hi
  have hheader : header (p.write (leafNodeValue i rowSize) bs) = header p :=
    header_write (Nat.le_add_right_of_le (le_leafNodeCell ..))
  -- the key in front of the value is written over itself
  have hwrite : p.write (leafNodeValue i rowSize) bs =
      p.write (leafNodeCell i rowSize) (p.read (leafNodeCell i rowSize) 8 ++ bs) := by
    rw [← Mem.write_append, Mem.length_read, Mem.write_read]
    rfl
  have hlen : (p.read (leafNodeCell i rowSize) 8 ++ bs).length = leafNodeCellSize rowSize := by
    rw [List.length_append, Mem.length_read, hbs]
    rfl
  have hcell : cellOf (p.read (leafNodeCell i rowSize) 8 ++ bs) =
      ((leafCells rowSize p)[i].1, bs) := by
    rw [cellOf, List.take_left' (Mem.length_read ..), List.drop_left' (Mem.length_read ..),
      getElem_leafCells]
    rfl
  refine ⟨?_, ⟨?_, ?_, ?_, ?_⟩, ?_⟩
  · rw [leafCells, numCells_eq, hheader, hwrite]
    refine (congrArg _ (Mem.records_set hn hlen)).trans ?_
    rw [List.map_set, hcell]
    rfl
  · rw [nodeType_eq, hheader]
    rfl
  · rw [isRoot_eq, hheader]
    rfl
  · rw [parentPointer_eq, hheader]
    rfl
  · rw [nextLeaf_eq, hheader]
    rfl
  · rw [numCells_eq, hheader]
    rfl

/-- Move the cells behind a cell over it. -/
theorem leafCells_removeCell {i remaining : ℕ} (hn : numCells p = i + (remaining + 1))
    (hfits : Fits (i + remaining)) :
    leafCells rowSize (setNumCells (p.memmove (leafNodeCell i rowSize)
        (leafNodeCell (i + 1) rowSize) (remaining * leafNodeCellSize rowSize)) (i + remaining)) =
        (leafCells rowSize p).eraseIdx i ∧
      SameFrame p (setNumCells (p.memmove (leafNodeCell i rowSize)
        (leafNodeCell (i + 1) rowSize) (remaining * leafNodeCellSize rowSize)) (i + remaining)) ∧
      numCells (setNumCells (p.memmove (leafNodeCell i rowSize)
        (leafNodeCell (i + 1) rowSize) (remaining * leafNodeCellSize rowSize)) (i + remaining)) =
          i + remaining := by
  have hheader : header (setNumCells (p.memmove (leafNodeCell i rowSize)
      (leafNodeCell (i + 1) rowSize) (remaining * leafNodeCellSize rowSize)) (i + remaining)) =
        { header p with cells := i + remaining } := by
    rw [header_setNumCells _ hfits, Mem.memmove, header_write (le_leafNodeCell ..)]
  refine ⟨?_, ⟨?_, ?_, ?_, ?_⟩, ?_⟩
  · have hremove := Mem.records_remove leafNodeHeaderSize (m := p)
      (w := leafNodeCellSize rowSize) (n := numCells p) (k := i) (by omega)
    have hbehind : numCells p - i - 1 = remaining := by omega
    have hless : numCells p - 1 = i + remaining := by omega
    rw [hbehind, hless] at hremove
    rw [leafCells, numCells_eq, hheader, leafCells, List.eraseIdx_map, ← hremove]
    exact congrArg _ (Mem.records_congr fun j _ => sameBody_setNumCells _ _ _ (Nat.le_add_right ..))
  · rw [nodeType_eq, hheader]
    rfl
  · rw [isRoot_eq, hheader]
    rfl
  · rw [parentPointer_eq, hheader]
    rfl
  · rw [nextLeaf_eq, hheader]
    rfl
  · rw [numCells_eq, hheader]

end MiniDB
