import MiniDB.Storage.InsertRoot

/-!
# How many pages an insertion takes

Which pages an `INSERT` will split can be read off the pages before it: a full leaf, and the full
internal pages in an unbroken row above it, found along the parent pointers.

* `splitPath`: those internal pages.
* `pagesNeeded`: the number of pages that the splits take.
* `Represents.splitPath_eq`, `Represents.pagesNeeded_eq`: they agree with the tree.
-/

namespace MiniDB

open BPlusTree Pager

/-- The full internal pages in a row above a page that is split, each with the child it is split
over, up to the root. -/
def fullAncestors : ℕ → Pager → ℕ → List (ℕ × ℕ)
  | 0, _, _ => []
  | fuel + 1, s, child =>
    let parent := parentPointer (s.page child)
    if numCells (s.page parent) < internalNodeMaxKeys then []
    else
      (child, parent) ::
        if isRoot (s.page parent) = 1 then [] else fullAncestors fuel s parent

/-- The internal pages that inserting a row into a leaf splits. -/
def splitPath (s : Pager) (leaf rowSize : ℕ) : List (ℕ × ℕ) :=
  if numCells (s.page leaf) < leafNodeMaxCells rowSize then []
  else if isRoot (s.page leaf) = 1 then []
  else fullAncestors walkFuel s leaf

/-- The new pages that the split of a page takes: a root moves both of its halves. -/
def pagesForSplit (s : Pager) (n : ℕ) : ℕ := if isRoot (s.page n) = 1 then 2 else 1

/-- The new pages that inserting a row into a leaf takes. -/
def pagesNeeded (s : Pager) (leaf rowSize : ℕ) : ℕ :=
  if numCells (s.page leaf) < leafNodeMaxCells rowSize then 0
  else
    pagesForSplit s leaf + ((splitPath s leaf rowSize).map fun cut => pagesForSplit s cut.2).sum

variable {s : Pager} {rowSize : ℕ} {key : Int64}

/-- The row of full pages above a full leaf, as far as it lies in a subtree below the root. -/
theorem fullAncestors_subtree : {h : ℕ} → {t : PageTree h} → {next parent : ℕ} → (fuel : ℕ) →
    Stored s.page rowSize t next → ChildOf (s.page t.page) parent →
    leafNodeMaxCells rowSize ≤ (t.leafFor key).cells.length → h ≤ fuel →
    fullAncestors fuel s (t.leafFor key).page =
      t.cuts (leafNodeMaxCells rowSize) internalNodeMaxKeys key ++
        if t.Overflows (leafNodeMaxCells rowSize) internalNodeMaxKeys key then
          fullAncestors (fuel - h) s t.page
        else []
  | 0, l, _, _, fuel, _, _, hfull, _ => (if_pos hfull).symm
  | h + 1, n, next, parent, fuel, hst, hchild, hfull, hfuel => by
    obtain ⟨e, hstp, hchildp⟩ := hst.2.exists_of_mem (Kids.pick_mem_children key n.kids)
    have ih := fullAncestors_subtree fuel hstp hchildp hfull (by omega)
    rw [Tree.leafFor, ih, Tree.cuts_succ, List.append_assoc]
    congr 1
    by_cases hov : (n.kids.pick key).Overflows (leafNodeMaxCells rowSize) internalNodeMaxKeys key
    · obtain ⟨f, hf⟩ : ∃ f, fuel - h = f + 1 := ⟨fuel - h - 1, by omega⟩
      have hf' : fuel - (h + 1) = f := by omega
      have hnotroot : ¬ isRoot (s.page n.page) = 1 := by
        rw [hchild.isRoot]
        decide
      rw [if_pos hov, hf, hf', fullAncestors]
      simp only [hchildp.parent, hst.1.length_seps, if_neg hnotroot]
      by_cases hlt : n.kids.seps.length < internalNodeMaxKeys
      · have hno : ¬ n.Overflows (leafNodeMaxCells rowSize) internalNodeMaxKeys key := fun h =>
          absurd h.2 (not_le.mpr hlt)
        rw [if_pos hlt, if_neg hno, if_neg hno]
        rfl
      · have hyes : n.Overflows (leafNodeMaxCells rowSize) internalNodeMaxKeys key :=
          ⟨hov, not_lt.mp hlt⟩
        rw [if_neg hlt, if_pos hyes, if_pos hyes]
        rfl
    · have hno : ¬ n.Overflows (leafNodeMaxCells rowSize) internalNodeMaxKeys key := fun h =>
        hov h.1
      rw [if_neg hov, if_neg hno, if_neg hno]
      rfl

variable (key) in
/-- **The pages that will be split can be told from the pages before the insertion.** -/
theorem Represents.splitPath_eq {t : PageTreeAny} (ht : Represents s rowSize t)
    (hs : s.Sound) :
    splitPath s (t.2.leafFor key).page rowSize =
      t.2.cuts (leafNodeMaxCells rowSize) internalNodeMaxKeys key := by
  obtain ⟨e, hleaf⟩ := ht.stored.leafFor
  have hnum := hleaf.length_cells
  by_cases hlt : (t.2.leafFor key).cells.length < leafNodeMaxCells rowSize
  · rw [splitPath, hnum, if_pos hlt, Tree.cuts_eq_nil hlt]
  · rw [splitPath, hnum, if_neg hlt]
    have hst := ht.stored
    have hroot := ht.root
    have hgood := ht.good
    obtain ⟨_ | h, n⟩ := t
    · exact if_pos hroot
    · obtain ⟨e', hstp, hchildp⟩ := hst.2.exists_of_mem (Kids.pick_mem_children key n.kids)
      have hheight : h + 1 < s.numPages := Tree.height_lt hgood.nodup hgood.pages
      have hmax := hs.bounded
      have hwalk : walkFuel = tablesMaxPages + 1 := rfl
      have hanc := fullAncestors_subtree walkFuel hstp hchildp (not_lt.mp hlt) (by omega)
      have hnotroot : ¬ isRoot (s.page (n.leafFor key).page) = 1 := by
        have hzero := hst.isRoot_below _ (Multiset.mem_of_le
          (Tree.labels_le_below (Kids.pick_mem_children key n.kids))
          (Tree.leaf_page_mem_labels (Tree.leafFor_mem_leaves key (n.kids.pick key))))
        rw [Tree.leafFor, hzero]
        decide
      show (if isRoot (s.page (n.leafFor key).page) = 1 then []
        else fullAncestors walkFuel s (n.leafFor key).page) =
          n.cuts (leafNodeMaxCells rowSize) internalNodeMaxKeys key
      rw [if_neg hnotroot, Tree.leafFor, hanc, Tree.cuts_succ]
      congr 1
      obtain ⟨f, hf⟩ : ∃ f, walkFuel - h = f + 1 := ⟨walkFuel - h - 1, by omega⟩
      have hroot' : isRoot (s.page n.page) = 1 := hroot
      rw [hf, fullAncestors]
      simp only [hchildp.parent, hst.1.length_seps, if_pos hroot', Tree.overflows_succ]
      by_cases hov : (n.kids.pick key).Overflows (leafNodeMaxCells rowSize) internalNodeMaxKeys key
      · by_cases hltn : n.kids.seps.length < internalNodeMaxKeys
        · simp [hov, hltn]
        · simp [hov, hltn, not_lt.mp hltn]
      · simp [hov]

/-- The pages of inner nodes below the root. -/
theorem Represents.pagesForSplit_below {t : PageTreeAny} (ht : Represents s rowSize t) {q : ℕ}
    (hq : q ∈ t.2.below) : pagesForSplit s q = 1 := by
  rw [pagesForSplit, ht.stored.isRoot_below q hq]
  rfl

/-- The nodes that are cut in a subtree are nodes of it. -/
theorem mem_cuts {maxCells maxKeys : ℕ} :
    {h : ℕ} → {t : PageTree h} → ∀ cut ∈ t.cuts maxCells maxKeys key,
    cut.2 ∈ t.labels
  | 0, _, _, hcut => absurd hcut List.not_mem_nil
  | h + 1, n, cut, hcut => by
    rcases List.mem_append.mp hcut with hcut | hcut
    · exact Multiset.mem_of_le (Tree.labels_le_of_mem (Kids.pick_mem_children key n.kids))
        (mem_cuts cut hcut)
    · split at hcut
      · rw [List.mem_singleton.mp hcut]
        exact Tree.page_mem_labels n
      · exact absurd hcut List.not_mem_nil

variable (key) in
/-- **The number of pages that an insertion takes can be told from the pages before it.** -/
theorem Represents.pagesNeeded_eq (row : Row) {types : List ColumnType} {t : PageTreeAny}
    (ht : Represents s (rowWidth types) t) (hs : s.Sound) :
    s.numPages + pagesNeeded s (t.2.leafFor key).page (rowWidth types) =
      (treeInserted s types key row t).2 := by
  obtain ⟨e, hleaf⟩ := ht.stored.leafFor
  have hnum := hleaf.length_cells
  rw [pagesNeeded, ht.splitPath_eq key hs, hnum]
  obtain ⟨_ | h, n⟩ := t
  · have hroot : isRoot (s.page n.page) = 1 := ht.root
    have hsplit : pagesForSplit s n.page = 2 := by rw [pagesForSplit, if_pos hroot]
    rw [treeInserted, next_insertRoot_leaf]
    show s.numPages + (if n.cells.length < leafNodeMaxCells (rowWidth types) then 0
      else pagesForSplit s n.page + 0) = _
    rw [hsplit]
    split <;> split <;> omega
  · have hroot : isRoot (s.page n.page) = 1 := ht.root
    have hbelow : ∀ q ∈ (n.kids.pick key).labels, pagesForSplit s q = 1 := fun q hq =>
      ht.pagesForSplit_below (Multiset.mem_of_le
        (Tree.labels_le_below (Kids.pick_mem_children key n.kids)) hq)
    have hsum : (((n.kids.pick key).cuts (leafNodeMaxCells (rowWidth types)) internalNodeMaxKeys
        key).map fun cut => pagesForSplit s cut.2).sum =
          ((n.kids.pick key).cuts (leafNodeMaxCells (rowWidth types)) internalNodeMaxKeys
            key).length := by
      rw [List.map_congr_left fun cut hcut => hbelow _ (mem_cuts cut hcut)]
      simp
    have hleafsplit : pagesForSplit s (n.leafFor key).page = 1 :=
      hbelow _ (Tree.leaf_page_mem_labels (Tree.leafFor_mem_leaves key (n.kids.pick key)))
    have hrootsplit : pagesForSplit s n.page = 2 := by rw [pagesForSplit, if_pos hroot]
    rw [treeInserted, next_insertRoot_node _ _ s.numPages ht.good.sized]
    show s.numPages + (if (n.leafFor key).cells.length < leafNodeMaxCells (rowWidth types) then 0
      else pagesForSplit s (n.leafFor key).page + ((n.cuts (leafNodeMaxCells (rowWidth types))
        internalNodeMaxKeys key).map fun cut => pagesForSplit s cut.2).sum) = _
    by_cases hlt : (n.leafFor key).cells.length < leafNodeMaxCells (rowWidth types)
    · have hno : ¬ n.Overflows (leafNodeMaxCells (rowWidth types)) internalNodeMaxKeys key :=
        fun h => absurd h.leafFor (not_le.mpr hlt)
      have hcuts : (n.kids.pick key).cuts (leafNodeMaxCells (rowWidth types)) internalNodeMaxKeys
          key = [] := Tree.cuts_eq_nil hlt
      rw [if_pos hlt, if_neg (not_le.mpr hlt), if_neg hno, hcuts]
      rfl
    · rw [if_neg hlt, if_pos (not_lt.mp hlt), hleafsplit, Tree.cuts_succ, List.map_append,
        List.sum_append, hsum]
      by_cases hov : n.Overflows (leafNodeMaxCells (rowWidth types)) internalNodeMaxKeys key
      · simp only [if_pos hov, List.map_cons, List.map_nil, List.sum_cons, List.sum_nil, hrootsplit]
        omega
      · simp only [if_neg hov, List.map_nil, List.sum_nil]
        omega

/-- A leaf with room takes the row without a new page. -/
theorem Represents.next_treeInserted (key : Int64) (row : Row) {types : List ColumnType}
    {t : PageTreeAny}
    (ht : Represents s (rowWidth types) t) (hs : s.Sound)
    (hlt : (t.2.leafFor key).cells.length < leafNodeMaxCells (rowWidth types)) :
    (treeInserted s types key row t).2 = s.numPages := by
  obtain ⟨e, hleaf⟩ := ht.stored.leafFor
  rw [← ht.pagesNeeded_eq key row hs, pagesNeeded, hleaf.length_cells, if_pos hlt, Nat.add_zero]

/-! ## The pages that are moved -/

/-- Only children of a page are moved. -/
theorem mem_internalChildren_of_moved {page : Page} {child q : ℕ}
    (hq : q ∈ movedChildren page child) : q ∈ internalChildren page := by
  obtain ⟨hmem, hne⟩ := List.mem_filter.mp hq
  have hne' : q ≠ child := by simpa using hne
  have htemp : q ∈ tempChildren page ((internalChildren page).idxOf child) child child := by
    split at hmem
    · exact hmem
    · exact List.mem_of_mem_drop hmem
  rw [tempChildren_eq] at htemp
  rcases List.mem_append.mp htemp with htake | hrest
  · exact List.mem_of_mem_take htake
  · rcases List.mem_cons.mp hrest with heq | hrest
    · exact absurd heq hne'
    · rcases List.mem_cons.mp hrest with heq | hdrop
      · exact absurd heq hne'
      · exact List.mem_of_mem_drop hdrop

/-- **The pages that an insertion moves are pages of the tree.** -/
theorem Stored.mem_labels_of_moved : {h : ℕ} → {t : PageTree h} → {next : ℕ} →
    Stored s.page rowSize t next → ∀ {q : ℕ},
      q ∈ movedPages s (t.cuts (leafNodeMaxCells rowSize) internalNodeMaxKeys key) → q ∈ t.labels
  | 0, _, _, _, _, hq => by
    obtain ⟨cut, hcut, -⟩ := hq
    exact absurd hcut List.not_mem_nil
  | _ + 1, n, _, hst, q, hq => by
    obtain ⟨cut, hcut, hq⟩ := hq
    rw [Tree.cuts_succ] at hcut
    rcases List.mem_append.mp hcut with hbelow | hhere
    · obtain ⟨e, hstp, -⟩ := hst.2.exists_of_mem (Kids.pick_mem_children key n.kids)
      exact Multiset.mem_of_le (Tree.labels_le_of_mem (Kids.pick_mem_children key n.kids))
        (hstp.mem_labels_of_moved ⟨cut, hbelow, hq⟩)
    · split at hhere
      · rw [List.mem_singleton.mp hhere] at hq
        have hchild := mem_internalChildren_of_moved hq
        rw [hst.1.children] at hchild
        obtain ⟨c, hc, rfl⟩ := List.mem_map.mp hchild
        exact Multiset.mem_of_le (Tree.labels_le_of_mem hc) (Tree.page_mem_labels c)
      · exact absurd hhere List.not_mem_nil

end MiniDB
