import MiniDB.Storage.Touching
import MiniDB.Sessions.Ascending

/-!
# What a split of a leaf keeps

`split_leaf_node` on a full leaf and a key that is not in it leaves two leaves whose cells, one leaf
after the other, are those of the full leaf with the new cell among them.  What happens to the
separator further up writes neither of the two, so this holds however the ancestors take it.

* `LeafHalves`: two leaves that share a list of cells.
* `HasAncestors`: a page with the pages from its parent up to the root.  Every leaf of a stored tree
  that is not the root has them, `Represents.exists_ancestors`.
* `splitLeafNode_halves`: the theorem.
-/

namespace MiniDB

open BPlusTree Pager

/-- Two leaves share the cells: the left one leads to the right one, whose first key is above every
key of the left one. -/
structure LeafHalves (s : Pager) (rowSize left right next : ℕ) (sep : Int64) (cells : List Cell) :
    Prop where
  types : nodeType (s.page left) = nodeLeaf ∧ nodeType (s.page right) = nodeLeaf
  shared : leafCells rowSize (s.page left) ++ leafCells rowSize (s.page right) = cells
  sorted : Tree.Sorted cells
  countLeft : 1 ≤ numCells (s.page left) ∧ numCells (s.page left) ≤ leafNodeMaxCells rowSize
  countRight : 1 ≤ numCells (s.page right) ∧ numCells (s.page right) ≤ leafNodeMaxCells rowSize
  first : leafNodeKey (s.page right) 0 rowSize = sep
  below : ∀ c ∈ leafCells rowSize (s.page left), c.1 < sep
  nextLeft : nextLeaf (s.page left) = right
  nextRight : nextLeaf (s.page right) = next

/-- The pages from the parent of `n` up to the root. -/
structure HasAncestors (s : Pager) (n parent : ℕ) (ns : List ℕ) : Prop where
  child : ChildOf (s.page n) parent
  up : Ancestry s.page (parent :: ns)
  nodup : (n :: parent :: ns).Nodup
  lt : ∀ q ∈ parent :: ns, q < s.numPages

variable {s s' : Pager} {table : Table} {rowSize left right next leaf : ℕ} {sep key : Int64}
  {cells a b : List Cell} {c : Cell} {row : Row} {σ : Schema}

/-- A way up meets no page twice, so it is shorter than the loop is allowed to be. -/
theorem HasAncestors.length_lt {n parent : ℕ} {ns : List ℕ} (h : HasAncestors s n parent ns)
    (hs : s.Sound) : ns.length < walkFuel := by
  have hnd := (List.nodup_cons.mp h.nodup).2
  have hsub : parent :: ns ⊆ List.range s.numPages := fun q hq => List.mem_range.mpr (h.lt q hq)
  have hle := (List.subperm_of_subset hnd hsub).length_le
  have hmax := hs.bounded
  have hwalk : walkFuel = tablesMaxPages + 1 := rfl
  rw [List.length_cons, List.length_range] at hle
  omega

/-- Every node below the root of a stored tree has its ancestors, none of which is too full or below
the node. -/
theorem Represents.exists_ancestry {d j : ℕ} {t : PageTree (d + (j + 1))} {c : PageTree d}
    (ht : Represents s rowSize ⟨d + (j + 1), t⟩) (hc : c ∈ (t.level d (j + 1)).children) :
    ∃ n ns, ChildOf (s.page c.page) n ∧ Ancestry s.page (n :: ns) ∧ (n :: ns).Nodup ∧
      ∀ q ∈ n :: ns, q < s.numPages ∧ q ∉ c.labels ∧ numCells (s.page q) ≤ internalNodeMaxKeys := by
  obtain ⟨n, ns, hchild, hup, hnd, hnot, hlabels⟩ := Stored.exists_ancestry ht.stored ht.good.sized
    ht.good.nodup (show Ancestry s.page [t.page] from ht.root) List.nodup_nil
    (fun q hq => absurd hq List.not_mem_nil) hc
  refine ⟨n, ns, hchild, hup, hnd, fun q hq => ?_⟩
  rcases hlabels q hq with ⟨hmem, hcells⟩ | hmem
  · exact ⟨ht.good.pages q hmem, hnot q hq, hcells⟩
  · exact absurd hmem List.not_mem_nil

/-- Every leaf of a stored tree is the root or has its ancestors. -/
theorem Represents.exists_ancestors {t : PageTreeAny} (ht : Represents s rowSize t)
    {l : Leaf Int64 (List UInt8)} (hl : l ∈ t.2.leaves) :
    (isRoot (s.page l.page) = 1 ∧ LeafPage rowSize (s.page l.page) l.cells 0) ∨
      ∃ parent ns, HasAncestors s l.page parent ns := by
  obtain ⟨h, t⟩ := t
  cases h with
  | zero =>
    rw [List.mem_singleton.mp hl]
    exact Or.inl ⟨ht.root, ht.stored⟩
  | succ h =>
    obtain ⟨j, rfl⟩ : ∃ j, h = 0 + j := ⟨h, (Nat.zero_add h).symm⟩
    have hl' : l ∈ ((Tree.level 0 (j + 1) t).children.map fun c => ⟨c.page, c.cells⟩) :=
      Tree.leaves_eq_level (j := j + 1) t ▸ hl
    obtain ⟨c, hc, rfl⟩ := List.mem_map.mp hl'
    obtain ⟨parent, ns, hchild, hup, hnd, hpages⟩ :=
      Represents.exists_ancestry (d := 0) (j := j) (t := t) ht hc
    refine Or.inr ⟨parent, ns, hchild, hup, List.nodup_cons.mpr ⟨fun hq => ?_, hnd⟩,
      fun q hq => (hpages q hq).1⟩
    exact (hpages _ hq).2.1 (Tree.page_mem_labels c)

/-- The two pages that a split writes. -/
theorem leafHalves_of_pages (hmax : 1 ≤ leafNodeMaxCells rowSize)
    (hsorted : Tree.Sorted (a ++ c :: b))
    (ha : a.length = (leafNodeMaxCells rowSize + 1) / 2)
    (hlen : (a ++ c :: b).length = leafNodeMaxCells rowSize + 1)
    (hleft : LeafPage rowSize (s.page left) a right)
    (hright : LeafPage rowSize (s.page right) (c :: b) next) :
    LeafHalves s rowSize left right next c.1 (a ++ c :: b) := by
  have hb : (c :: b).length = leafNodeMaxCells rowSize + 1 - a.length := by
    rw [List.length_append] at hlen
    omega
  have hnumL := hleft.length_cells
  have hnumR := hright.length_cells
  have hpos : 0 < (c :: b).length := Nat.succ_pos _
  refine ⟨⟨hleft.type, hright.type⟩, by rw [hleft.cells, hright.cells], hsorted, by omega, by omega,
    ?_, fun d hd => ?_, hleft.next, hright.next⟩
  · have hhead : (leafCells rowSize (s.page right))[0]? = some c := by
      rw [hright.cells]
      rfl
    obtain ⟨hlt, hget⟩ := List.getElem?_eq_some_iff.mp hhead
    rw [getElem_leafCells] at hget
    rw [← hget]
  · rw [hleft.cells] at hd
    exact (List.pairwise_append.mp hsorted).2.2 d hd c List.mem_cons_self

/-- **A split of a leaf keeps its contents.**  The leaf is full, its keys ascend and the new one is
not among them; it is the root, with no next leaf, or has its ancestors.  There are pages for the
halves.  However the separator fares further up, the run ends, and the two leaves hold the old cells
and the new one in the order of the keys. -/
theorem splitLeafNode_halves (hs : s.Sound) (hreads : Reads s table σ.types)
    (hleaf : LeafPage σ.rowSize (s.page leaf) cells next) (hlt : leaf < s.numPages)
    (hplace : isRoot (s.page leaf) = 1 ∧ next = 0 ∨ ∃ parent ns, HasAncestors s leaf parent ns)
    (hfull : cells.length = leafNodeMaxCells σ.rowSize) (hsorted : Tree.Sorted cells)
    (hkey : ∀ d ∈ cells, d.1 ≠ key) (htypes : row.values.map Value.columnType = σ.types)
    (hpages : s.numPages + (if isRoot (s.page leaf) = 1 then 2 else 1) ≤ tablesMaxPages) :
    ∃ r s' left right sep, splitLeafNode s table leaf key row σ.rowSize = .ok (r, s') ∧
      LeafHalves s' σ.rowSize left right next sep (insertCell key (rowBytes row.values) cells) ∧
      (isRoot (s.page leaf) = 1 ∧ r = .commandSuccess ∧
          InternalPage (s'.page leaf) [sep] [left, right] ∨
        isRoot (s.page leaf) = 0 ∧ left = leaf ∧ right = s.numPages ∧
          ∃ s₁, LeafHalves s₁ σ.rowSize left right next sep
              (insertCell key (rowBytes row.values) cells) ∧
            splitLeafNode s table leaf key row σ.rowSize =
              insertParent walkFuel s₁ (parentPointer (s.page leaf)) sep left right) := by
  have hrow : (rowBytes row.values).length = rowWidth σ.types := by
    rw [length_rowBytes, htypes]
  have hsort := sorted_insertCell (v := rowBytes row.values) hsorted hkey
  have hlen := length_insertCell key (rowBytes row.values) cells
  rw [hfull] at hlen
  obtain ⟨a, c, b, hins, ha⟩ := exists_insertCell_halves _ key (rowBytes row.values)
    hfull.ge
  rw [hins] at hsort hlen ⊢
  have hhalves : ∀ {s₁ : Pager} {left right next : ℕ},
      LeafPage σ.rowSize (s₁.page left) a right → LeafPage σ.rowSize (s₁.page right) (c :: b) next →
      LeafHalves s₁ σ.rowSize left right next c.1 (a ++ c :: b) := fun hleft hright =>
    leafHalves_of_pages σ.one_le_maxCells hsort ha hlen hleft hright
  rcases hplace with ⟨hroot, rfl⟩ | ⟨parent, ns, hup⟩
  · rw [if_pos hroot] at hpages
    obtain ⟨s', hrun, -, -, hinternal, hleft, hright⟩ := splitLeafNode_root hs hreads hleaf hroot
      hfull hsorted hkey hrow hins ha hpages hlt
    exact ⟨_, s', s.numPages + 1, s.numPages, c.1, splitLeafNode_of_result hrun,
      hhalves hleft.1 hright.1,
      Or.inl ⟨hroot, rfl, hinternal.1⟩⟩
  · have hnotroot : isRoot (s.page leaf) = 0 := hup.child.isRoot
    have hparent : parent < s.numPages := hup.lt parent List.mem_cons_self
    obtain ⟨hnot, hnd⟩ := List.nodup_cons.mp hup.nodup
    rw [if_neg (by rw [hnotroot]; decide)] at hpages
    obtain ⟨s₁, hstep, hnum, hev, -, hleft, hright⟩ := splitLeafNode_child hs hreads hleaf hup.child
      hfull hsorted hkey hrow hins ha hpages hlt hparent
    have hrun := splitLeafNode_of_step hstep
    -- the split itself writes the two halves only
    have hkept : ∀ q ∈ parent :: ns, s₁.page q = s.page q := by
      intro q hq
      refine hev.page q ?_
      rintro (rfl | rfl)
      · exact hnot hq
      · exact lt_irrefl _ (hup.lt _ hq)
    have hnew : s.numPages ∉ parent :: ns := fun hq => lt_irrefl _ (hup.lt _ hq)
    have hend : ∃ r s', insertParent walkFuel s₁ parent c.1 leaf s.numPages = .ok (r, s') ∧ _ :=
      touches_insertParent ns (hup.up.congr hkept) hnd
        (fun q hq => (hup.lt q hq).trans (hnum ▸ Nat.lt_succ_self _)) hnot hnew (hup.length_lt hs)
    obtain ⟨r, s', hrun', htouch, -⟩ := hend
    -- the way up leaves the halves alone, but for their parent pointers
    have hsame : ∀ q, q = leaf ∨ q = s.numPages → SameNode (s'.page q) (s₁.page q) := by
      rintro q (rfl | rfl)
      · exact (htouch.moved q (by omega) hnot).toSameNode
      · exact (htouch.moved _ (by omega) hnew).toSameNode
    refine ⟨r, s', leaf, s.numPages, c.1, hrun.trans hrun',
      hhalves (hleft.1.congr (hsame leaf (Or.inl rfl)))
        (hright.1.congr (hsame s.numPages (Or.inr rfl))),
      Or.inr ⟨hnotroot, rfl, rfl, s₁, hhalves hleft.1 hright.1, ?_⟩⟩
    rw [hup.child.parent]
    exact hrun

/-- The row `4` splits the leaf with the rows `2` and `3`, whose parent is the root. -/
theorem splitLeafNode_halves_notes : ∃ s r s' left right next sep,
    OneTable s notesName notes validNotes (ascending 0) ∧
      splitLeafNode s (openTable s 0 notesName) 2 (rowKey 4) (insertedRow (notesRow (rowKey 4)))
        (schemaOf notes validNotes).rowSize = .ok (r, s') ∧
      LeafHalves s' (schemaOf notes validNotes).rowSize left right next sep
        [notesCell (rowKey 2), notesCell (rowKey 3), notesCell (rowKey 4)] := by
  obtain ⟨s, -, h, hnum⟩ := exists_three
  have ht := h.holds.represents
  have hl : (⟨2, [notesCell (rowKey 2), notesCell (rowKey 3)]⟩ : Leaf Int64 (List UInt8)) ∈
    (ascending 0).2.leaves := List.mem_cons_of_mem _ List.mem_cons_self
  obtain ⟨next, hleaf⟩ := ht.stored.leafPage_of_mem hl
  have hplace : isRoot (s.page 2) = 1 ∧ next = 0 ∨ ∃ parent ns, HasAncestors s 2 parent ns := by
    refine (ht.exists_ancestors hl).imp (fun hroot => ⟨hroot.1, ?_⟩) id
    exact hleaf.next.symm.trans hroot.2.next
  have hkey : ∀ d ∈ [notesCell (rowKey 2), notesCell (rowKey 3)], d.1 ≠ rowKey 4 := by
    intro d hd
    rcases List.mem_cons.mp hd with rfl | hd
    · decide
    · rw [List.mem_singleton.mp hd]
      decide
  have hsorted : Tree.Sorted [notesCell (rowKey 2), notesCell (rowKey 3)] := by
    rw [Tree.Sorted, List.pairwise_pair]
    decide
  obtain ⟨r, s', left, right, sep, hrun, hhalves, -⟩ := splitLeafNode_halves h.holds.sound
    h.holds.reads hleaf (by rw [hnum]; decide) hplace leafNodeMaxCells_notes.symm hsorted hkey
    (matches_notesRow (rowKey 4)).columnTypes (by rw [hnum]; split <;> decide)
  have hins : insertCell (rowKey 4) (rowBytes (insertedRow (notesRow (rowKey 4))).values)
      [notesCell (rowKey 2), notesCell (rowKey 3)] =
        [notesCell (rowKey 2), notesCell (rowKey 3), notesCell (rowKey 4)] := by
    rw [insertCell, if_neg (show ¬ rowKey 4 < (notesCell (rowKey 2)).1 by decide), insertCell,
      if_neg (show ¬ rowKey 4 < (notesCell (rowKey 3)).1 by decide)]
    rfl
  rw [hins] at hhalves
  exact ⟨s, r, s', left, right, next, sep, h, hrun, hhalves⟩

end MiniDB
