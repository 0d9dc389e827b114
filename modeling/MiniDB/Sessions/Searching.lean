import MiniDB.Pages.CellEdits
import MiniDB.BPlusTree.Levels
import MiniDB.Sessions.Ascending

/-!
# The searches

`leaf_node_find` and `internal_node_find` count the keys below the wanted one; the scan inside
`leaf_node_for_key` counts those that are not above it, and so does not stop at a separator that is
the wanted key.  With that scan the descent ends at the one leaf whose range holds the key.

* `leafNodeFind_eq_countP`, `internalNodeFind_eq_countP`, `scanDown_eq_countP`: the three as counts.
* `searches_agree`: what they do and when they agree.
-/

namespace MiniDB

open BPlusTree Pager

variable {rowSize : ℕ} {p : Page}

/-- The positions of a page fit into 32 bits. -/
theorem numCells_lt (p : Page) : numCells p < 2 ^ 32 :=
  lt_of_lt_of_eq (Mem.readNat_lt ..) (by decide)

theorem leafCells_eq_map (rowSize : ℕ) (p : Page) :
    leafCells rowSize p = (List.range (numCells p)).map fun i =>
      (leafNodeKey p i rowSize, p.read (leafNodeValue i rowSize) rowSize) := by
  apply List.ext_getElem (by simp)
  intro i h1 h2
  rw [getElem_leafCells, List.getElem_map, List.getElem_range]

/-- `leaf_node_find` returns the number of keys below the wanted one. -/
theorem leafNodeFind_eq_countP (hs : Tree.Sorted (leafCells rowSize p)) (key : Int64) :
    leafNodeFind p key rowSize = (leafCells rowSize p).countP fun c => c.1 < key := by
  rw [leafCells_eq_map, List.countP_map]
  exact (isCut_leafNodeFind hs key).eq_countP

/-- So does `internal_node_find`. -/
theorem internalNodeFind_eq_countP (hs : (internalKeys p).Pairwise (· < ·)) (key : Int64) :
    internalNodeFind p key = (internalKeys p).countP fun s => s < key := by
  rw [internalKeys, List.countP_map]
  exact (isCut_binarySearch (ascendingTo_internalNodeKey hs) key).eq_countP

/-- The scan returns the number of keys that are not above the wanted one. -/
theorem scanDown_eq_countP (hs : (internalKeys p).Pairwise (· < ·)) (key : Int64) :
    scanDown (internalNodeKey p) key (numCells p) = (internalKeys p).countP fun s => s ≤ key := by
  rw [internalKeys, List.countP_map]
  exact (isCut_scanDown (ascendingTo_internalNodeKey hs) key).eq_countP

/-- The two searches of an internal page part at its keys only. -/
theorem scanDown_eq_internalNodeFind_iff (hs : (internalKeys p).Pairwise (· < ·)) (key : Int64) :
    scanDown (internalNodeKey p) key (numCells p) = internalNodeFind p key ↔
      key ∉ internalKeys p := by
  rw [internalNodeFind, scanDown_eq_binarySearch_iff (ascendingTo_internalNodeKey hs) key]
  constructor
  · intro hne hmem
    obtain ⟨i, hi, heq⟩ := List.mem_map.mp hmem
    exact hne i (List.mem_range.mp hi) heq
  · intro hnot i hi heq
    exact hnot (List.mem_map.mpr ⟨i, List.mem_range.mpr hi, heq⟩)

/-- Exactly one leaf of a stored tree has a range that holds the key. -/
theorem Represents.filter_ranges {s : Pager} {t : PageTreeAny} (ht : Represents s rowSize t)
    (key : Int64) :
    ((((t.2.levelPages 0).ranges ⊥ ⊤).filter fun r => Kids.Holds key r).map fun r => r.2.2) =
      [(t.2.leafFor key).page] := by
  rw [Kids.filter_ranges ht.good.ordered.levelPages key,
    if_pos ⟨bot_le, WithTop.coe_lt_top key⟩, List.map_singleton,
    Tree.pick_levelPages_zero ht.good.ordered]

/-- **The searches are right, and they agree but at a separator.**  On ascending keys the two binary
searches end within as many rounds as there are keys, look at these keys only, never leave 32 bits,
and return the number of smaller keys.  The scan returns the number of keys that are not larger.  In
a stored tree the descent ends at the page of the one leaf whose range holds the key. -/
theorem searches_agree :
    (∀ (rowSize : ℕ) (p : Page) (key : Int64), Tree.Sorted (leafCells rowSize p) →
      checkedSearch (2 ^ 32) (numCells p) (fun i => leafNodeKey p i rowSize) key (numCells p) 0
          (numCells p) = some (leafNodeFind p key rowSize) ∧
        leafNodeFind p key rowSize = (leafCells rowSize p).countP (fun c => c.1 < key) ∧
        (numCells p ≤ leafNodeMaxCells rowSize → ∀ i < numCells p,
          leafNodeCell i rowSize + leafNodeCellSize rowSize ≤ pageSize)) ∧
    (∀ (p : Page) (key : Int64), (internalKeys p).Pairwise (· < ·) →
      checkedSearch (2 ^ 32) (numCells p) (internalNodeKey p) key (numCells p) 0 (numCells p) =
          some (internalNodeFind p key) ∧
        internalNodeFind p key = (internalKeys p).countP (fun s => s < key) ∧
        (numCells p ≤ internalNodeMaxKeys → ∀ i < numCells p,
          internalNodeCell i + internalNodeCellSize ≤ pageSize) ∧
        scanDown (internalNodeKey p) key (numCells p) =
          (internalKeys p).countP (fun s => s ≤ key) ∧
        (scanDown (internalNodeKey p) key (numCells p) = internalNodeFind p key ↔
          key ∉ internalKeys p)) ∧
    ∀ (s : Pager) (rowSize : ℕ) (t : PageTreeAny) (key : Int64), s.Sound →
      Represents s rowSize t →
      ∃ s', leafNodeForKey key walkFuel s t.2.page = .ok (some (t.2.leafFor key).page, s') ∧
        Fetched s s' ∧ (t.2.levelPages 0).children = t.2.leaves.map Leaf.page ∧
        ((((t.2.levelPages 0).ranges ⊥ ⊤).filter fun r => Kids.Holds key r).map fun r => r.2.2) =
          [(t.2.leafFor key).page] := by
  refine ⟨fun rowSize p key hs => ⟨?_, leafNodeFind_eq_countP hs key, fun hfit i hi => ?_⟩,
    fun p key hs => ⟨?_, internalNodeFind_eq_countP hs key, fun hfit i hi => ?_,
      scanDown_eq_countP hs key, scanDown_eq_internalNodeFind_iff hs key⟩,
    fun s rowSize t key hs ht => ?_⟩
  · exact checkedSearch_eq _ key (numCells_lt p)
  · rw [← leafNodeCell_succ]
    exact leafNodeCell_le (by omega)
  · exact checkedSearch_eq _ key (numCells_lt p)
  · rw [← internalNodeCell_succ]
    exact internalNodeCell_le (by omega)
  · obtain ⟨s', hrun, hfetch⟩ := ht.descent hs key
    exact ⟨s', hrun, hfetch, Tree.children_levelPages_zero t.2, ht.filter_ranges key⟩

/-- One key on a page, searched for another one and for itself, and the row `3` among two leaves. -/
theorem searches_agree_three :
    leafNodeFind oneCellPage 7 8 = 1 ∧
      scanDown (internalNodeKey oneCellPage) 0 1 ≠ internalNodeFind oneCellPage 0 ∧
      ∃ s s', OneTable s notesName notes validNotes (ascending 0) ∧
        leafNodeForKey (rowKey 3) walkFuel s 1 = .ok (some 2, s') := by
  obtain ⟨s, -, h, -⟩ := exists_three
  obtain ⟨s', hrun, -⟩ := searches_agree.2.2 s _ (ascending 0) (rowKey 3) h.holds.sound
    h.holds.represents
  have hleaf := searches_agree.1 8 oneCellPage 7 (by
    rw [Tree.Sorted]
    decide)
  have hkey := searches_agree.2.1 oneCellPage 0 (by decide)
  refine ⟨hleaf.2.1.trans (by decide), fun heq => ?_, s, s', h, hrun⟩
  exact hkey.2.2.2.2.mp heq (by decide)

end MiniDB
