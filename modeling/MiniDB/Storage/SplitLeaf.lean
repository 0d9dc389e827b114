import MiniDB.Storage.SplitInternal

/-!
# Splitting a leaf page

What `split_leaf_node` makes of a full leaf: both halves of the sorted insertion, linked to each
other.  A leaf that is not the root hands the first key of the right half to its parent,
`insertParent`; a root leaf turns into an internal page with one key.

* `splitLeafNode_child`, `splitLeafNode_root`: the two cases, with pages available.
* `splitLeafNode_full`, `splitLeafNode_root_full`: no page is left.
-/

namespace MiniDB

open BPlusTree Pager

/-- The end of both split functions: insert a separator and two children into the parent, and split
the parent when it is full. -/
def insertParent (fuel : ℕ) (s : Pager) (parent : ℕ) (key : Int64) (left right : ℕ) :
    Exec (CommandResult × Pager) :=
  match promoteInto s parent key left right with
  | .inl c => splitInternalNode fuel c.pager c.page c.key c.left c.right
  | .inr r => .ok r

/-- A full parent is split. -/
theorem promoteInto_of_ge {s : Pager} {parent left right : ℕ} {key : Int64}
    (hfull : internalNodeMaxKeys ≤ numCells (s.page parent)) :
    promoteInto s parent key left right = .inl ⟨s, parent, key, left, right⟩ := by
  unfold promoteInto internalNodeInsert
  simp only [if_pos hfull]

/-- A parent with room takes the separator. -/
theorem promoteInto_of_lt {s : Pager} {parent left right : ℕ} {key : Int64}
    (hroom : numCells (s.page parent) < internalNodeMaxKeys) :
    promoteInto s parent key left right = .inr (internalNodeInsert s parent
      (internalNodeFind (s.page parent) key) key left right) := by
  unfold promoteInto internalNodeInsert
  simp only [if_neg (not_le.mpr hroom)]

/-- `split_leaf_node` on a leaf that is not the root goes on in the parent. -/
theorem splitLeafNode_of_step {s s' : Pager} {table : Table} {leaf parent left right rowSize : ℕ}
    {key sep : Int64} {row : Row}
    (h : splitLeafStep s table leaf key row rowSize = .ok (promoteInto s' parent sep left right)) :
    splitLeafNode s table leaf key row rowSize =
      insertParent walkFuel s' parent sep left right := by
  unfold splitLeafNode insertParent
  rw [h, ok_bind]
  cases promoteInto s' parent sep left right <;> rfl

theorem splitLeafNode_of_call {s : Pager} {table : Table} {leaf rowSize : ℕ} {key : Int64}
    {row : Row} {c : SplitCall} (h : splitLeafStep s table leaf key row rowSize = .ok (.inl c)) :
    splitLeafNode s table leaf key row rowSize =
      splitInternalNode walkFuel c.pager c.page c.key c.left c.right := by
  unfold splitLeafNode
  rw [h]
  rfl

theorem splitLeafNode_of_result {s : Pager} {table : Table} {leaf rowSize : ℕ} {key : Int64}
    {row : Row} {o : CommandResult × Pager}
    (h : splitLeafStep s table leaf key row rowSize = .ok (.inr o)) :
    splitLeafNode s table leaf key row rowSize = .ok o := by
  unfold splitLeafNode
  rw [h]
  rfl

/-- The rows of a table are read with the given column types. -/
def Reads (s : Pager) (table : Table) (types : List ColumnType) : Prop :=
  ∃ n, findTable (s.page 0) table.tableName = .ok n ∧
    storedTypes (s.page 0) n = types.map ColumnType.toByte

variable {s : Pager} {table : Table} {types : List ColumnType}

theorem Reads.deserializeRow (h : Reads s table types) (page : Page) (source : ℕ) :
    deserializeRow s table page source =
      .ok ⟨decodeValues types (page.read source (rowWidth types))⟩ := by
  obtain ⟨n, hfind, htypes⟩ := h
  rw [MiniDB.deserializeRow, hfind]
  simp only [bind, Except.bind, htypes, deserializeValues_eq]
  rfl

/-- The loop that fills the buffer. -/
theorem readEntries_eq (h : Reads s table types) (page : Page) (is : List ℕ) :
    readEntries s table page (rowWidth types) is =
      .ok (is.map fun i => entryOf types (leafNodeKey page i (rowWidth types),
        page.read (leafNodeValue i (rowWidth types)) (rowWidth types))) := by
  induction is with
  | nil => rfl
  | cons i is ih =>
    rw [readEntries, h.deserializeRow, ih]
    rfl

theorem leafNodeMaxCells_le (rowSize : ℕ) : leafNodeMaxCells rowSize ≤ 510 :=
  calc leafNodeSpaceForCells / leafNodeCellSize rowSize ≤ leafNodeSpaceForCells / 8 :=
        Nat.div_le_div_left (Nat.le_add_right ..) (by decide)
    _ = 510 := rfl

/-- A leaf page that was filled from the buffer. -/
theorem leafPage_filled {rowSize next : ℕ} {es : List NodeEntry} {q base : Page}
    (hsize : CellsOfSize rowSize (es.map NodeEntry.cell))
    (hbody : SameBody q (writeEntries rowSize 0 es base)) (htype : (header q).type = nodeLeaf)
    (hcells : (header q).cells = es.length) (hlink : (header q).link = next) :
    LeafPage rowSize q (es.map NodeEntry.cell) next where
  type := htype
  cells := leafCells_writeEntries hsize hbody hcells
  next := hlink

/-- Such a page below a parent. -/
theorem leafPage_child {rowSize parent next : ℕ} {es : List NodeEntry} {cells : List Cell}
    {q base : Page} (hcells : es.map NodeEntry.cell = cells) (hsize : CellsOfSize rowSize cells)
    (hbody : SameBody q (writeEntries rowSize 0 es base))
    (hheader : header q = ⟨nodeLeaf, 0, parent, cells.length, next⟩) :
    LeafPage rowSize q cells next ∧ ChildOf q parent := by
  subst hcells
  refine ⟨leafPage_filled hsize hbody ?_ ?_ ?_, ?_, ?_⟩
  · rw [hheader]
  · rw [hheader, List.length_map]
  · rw [hheader]
  · rw [isRoot_eq, hheader]
  · rw [parentPointer_eq, hheader]

/-- The page of the right half, before it is linked. -/
def rightHalf (rowSize parent : ℕ) (es : List NodeEntry) (base : Page) : Page :=
  setNumCells (writeEntries rowSize 0 es
    (setParentPointer (setIsRoot (leafNodeInit base) 0) parent))
      (leafNodeMaxCells rowSize - (leafNodeMaxCells rowSize + 1) / 2 + 1)

theorem header_rightHalf {rowSize parent : ℕ} {es : List NodeEntry} {cells : List Cell}
    (base : Page) (hcells : es.map NodeEntry.cell = cells) (hsize : CellsOfSize rowSize cells)
    (hparent : Fits parent) :
    header (rightHalf rowSize parent es base) = ⟨nodeLeaf, 0, parent,
      leafNodeMaxCells rowSize - (leafNodeMaxCells rowSize + 1) / 2 + 1, 0⟩ := by
  have hmax := leafNodeMaxCells_le rowSize
  rw [rightHalf, header_setNumCells _ (fits_of_le (m := 511) (by omega)),
    header_writeEntries (hcells ▸ hsize), header_setParentPointer _ hparent, header_setIsRoot,
    header_leafNodeInit]

/-- A page that differs from it in the link only. -/
theorem leafPage_rightHalf {rowSize parent next : ℕ} {es : List NodeEntry} {cells : List Cell}
    {q base : Page} (hcells : es.map NodeEntry.cell = cells) (hsize : CellsOfSize rowSize cells)
    (hlen : cells.length = leafNodeMaxCells rowSize - (leafNodeMaxCells rowSize + 1) / 2 + 1)
    (hparent : Fits parent) (hbody : SameBody q (rightHalf rowSize parent es base))
    (hheader : header q = { header (rightHalf rowSize parent es base) with link := next }) :
    LeafPage rowSize q cells next ∧ ChildOf q parent := by
  refine leafPage_child hcells hsize (hbody.trans (sameBody_setNumCells _ _)) ?_
  rw [hheader, header_rightHalf base hcells hsize hparent, hlen]

/-! ## The buffer -/

section Split

variable {leaf next : ℕ} {key : Int64} {row : Row} {cells a b : List Cell} {c : Cell}

/-- The buffer of a split, whose cells are those of the sorted insertion. -/
theorem exists_buffer (hreads : Reads s table types)
    (hleaf : LeafPage (rowWidth types) (s.page leaf) cells next)
    (hfull : cells.length = leafNodeMaxCells (rowWidth types)) (hsorted : Tree.Sorted cells)
    (hkey : ∀ d ∈ cells, d.1 ≠ key) :
    ∃ entries, readEntries s table (s.page leaf) (rowWidth types)
        (List.range (leafNodeMaxCells (rowWidth types))) = .ok entries ∧
      (insertEntry entries ⟨key, row⟩).map NodeEntry.cell =
        insertCell key (rowBytes row.values) cells := by
  refine ⟨cells.map (entryOf types), ?_, insertEntry_eq hsorted hkey ?_⟩
  · rw [readEntries_eq hreads, ← hfull, ← hleaf.cells, length_leafCells]
    congr 1
    apply List.ext_getElem (by simp)
    intro i h1 h2
    simp [getElem_leafCells]
  · rw [← hleaf.cells]
    exact cellsOfSize_leafCells _ _

/-- The halves of the buffer. -/
theorem buffer_halves {temp : List NodeEntry} {mid : ℕ} (ha : a.length = mid)
    (htemp : temp.map NodeEntry.cell = a ++ c :: b) :
    (temp.take mid).map NodeEntry.cell = a ∧ (temp.drop mid).map NodeEntry.cell = c :: b ∧
      (temp.getD mid default).key = c.1 := by
  subst ha
  have hlt : a.length < temp.length := by
    have := congrArg List.length htemp
    simp only [List.length_map, List.length_append, List.length_cons] at this
    omega
  refine ⟨?_, ?_, ?_⟩
  · rw [List.map_take, htemp, List.take_left]
  · rw [List.map_drop, htemp, List.drop_left]
  · have hget : (temp.map NodeEntry.cell)[a.length]? = some c := by rw [htemp]; simp
    rw [List.getElem?_map, List.getElem?_eq_getElem hlt, Option.map_some] at hget
    rw [List.getD_eq_getElem?_getD, List.getElem?_eq_getElem hlt, Option.getD_some,
      ← Option.some_inj.mp hget]
    rfl

/-- **The buffer of a split in two halves**, which go to the two pages. -/
theorem exists_halves (hreads : Reads s table types)
    (hleaf : LeafPage (rowWidth types) (s.page leaf) cells next)
    (hfull : cells.length = leafNodeMaxCells (rowWidth types)) (hsorted : Tree.Sorted cells)
    (hkey : ∀ d ∈ cells, d.1 ≠ key) (hrow : (rowBytes row.values).length = rowWidth types)
    (hins : insertCell key (rowBytes row.values) cells = a ++ c :: b) {mid : ℕ}
    (ha : a.length = mid) :
    ∃ entries, readEntries s table (s.page leaf) (rowWidth types)
        (List.range (leafNodeMaxCells (rowWidth types))) = .ok entries ∧
      ∃ temp, temp = insertEntry entries ⟨key, row⟩ ∧
        (temp.take mid).map NodeEntry.cell = a ∧ (temp.drop mid).map NodeEntry.cell = c :: b ∧
        (temp.getD mid default).key = c.1 ∧ CellsOfSize (rowWidth types) a ∧
        CellsOfSize (rowWidth types) (c :: b) ∧
        (c :: b).length = leafNodeMaxCells (rowWidth types) - mid + 1 := by
  have hsize : CellsOfSize (rowWidth types) (a ++ c :: b) := by
    intro d hd
    rw [← hins] at hd
    rcases mem_insertCell.mp hd with rfl | hd
    · exact hrow
    · rw [← hleaf.cells] at hd
      exact cellsOfSize_leafCells _ _ d hd
  have hlen := congrArg List.length hins
  simp only [length_insertCell, List.length_append, hfull, ha] at hlen
  have hpos : 0 < (c :: b).length := Nat.succ_pos _
  obtain ⟨entries, hread, htemp⟩ := exists_buffer hreads hleaf hfull hsorted hkey
  rw [hins] at htemp
  obtain ⟨htake, hdrop, hprom⟩ := buffer_halves ha htemp
  exact ⟨entries, hread, _, rfl, htake, hdrop, hprom,
    fun d hd => hsize d (List.mem_append_left _ hd),
    fun d hd => hsize d (List.mem_append_right _ hd), by omega⟩

/-- **Splitting a leaf that is not the root** leaves its two halves, linked, and goes on in the
parent. -/
theorem splitLeafNode_child {parent : ℕ} (hs : s.Sound) (hreads : Reads s table types)
    (hleaf : LeafPage (rowWidth types) (s.page leaf) cells next)
    (hchild : ChildOf (s.page leaf) parent)
    (hfull : cells.length = leafNodeMaxCells (rowWidth types)) (hsorted : Tree.Sorted cells)
    (hkey : ∀ d ∈ cells, d.1 ≠ key) (hrow : (rowBytes row.values).length = rowWidth types)
    (hins : insertCell key (rowBytes row.values) cells = a ++ c :: b)
    (ha : a.length = (leafNodeMaxCells (rowWidth types) + 1) / 2)
    (hroom : s.numPages < tablesMaxPages) (hlt : leaf < s.numPages)
    (hparent : parent < s.numPages) :
    ∃ s', splitLeafStep s table leaf key row (rowWidth types) =
        .ok (promoteInto s' parent c.1 leaf s.numPages) ∧
      s'.numPages = s.numPages + 1 ∧ Evolves s s' {q | q = leaf ∨ q = s.numPages} ∅ ∧
      (∀ q, s'.pageDirty q = true ↔ s.pageDirty q = true ∨ q = leaf ∨ q = s.numPages) ∧
      (LeafPage (rowWidth types) (s'.page leaf) a s.numPages ∧ ChildOf (s'.page leaf) parent) ∧
      LeafPage (rowWidth types) (s'.page s.numPages) (c :: b) next ∧
      ChildOf (s'.page s.numPages) parent := by
  obtain ⟨entries, hread, temp, htempdef, htake, hdrop, hprom, hsizeL, hsizeR, hlenR⟩ :=
    exists_halves hreads hleaf hfull hsorted hkey hrow hins ha
  have hmax := leafNodeMaxCells_le (rowWidth types)
  have hnotroot : ¬ isRoot (s.page leaf) = 1 := by
    rw [hchild.isRoot]
    decide
  have hne : leaf ≠ s.numPages := hlt.ne
  obtain ⟨s₁, hget₁, hview₁, hnum₁, hs₁⟩ := pagerGetPage_fresh hs hroom
  -- the right half, without the link to the next leaf
  obtain ⟨R, hR⟩ : ∃ R, R = rightHalf (rowWidth types) parent
    (temp.drop ((leafNodeMaxCells (rowWidth types) + 1) / 2)) (s₁.page s.numPages) := ⟨_, rfl⟩
  -- the left half, with the old link
  obtain ⟨L, hL⟩ : ∃ L, L = writeEntries (rowWidth types) 0
    (temp.take ((leafNodeMaxCells (rowWidth types) + 1) / 2)) (setNumCells
      ((s.page leaf).zero leafNodeHeaderSize leafNodeSpaceForCells)
        ((leafNodeMaxCells (rowWidth types) + 1) / 2)) := ⟨_, rfl⟩
  have hheaderL : header L = { header (s.page leaf) with
      cells := (leafNodeMaxCells (rowWidth types) + 1) / 2 } := by
    rw [hL, header_writeEntries (htake ▸ hsizeL),
      header_setNumCells _ (fits_of_le (m := 510) (by omega)), header_zero le_rfl]
  obtain ⟨s₂, hs₂⟩ : ∃ s₂, s₂ = pagerMarkDirty (s₁.setPage s.numPages R) s.numPages := ⟨_, rfl⟩
  obtain ⟨s₃, hs₃⟩ : ∃ s₃, s₃ = pagerMarkDirty (s₂.setPage leaf L) leaf := ⟨_, rfl⟩
  obtain ⟨s₅, hs₅⟩ : ∃ s₅, s₅ = (s₃.setPage s.numPages (setNextLeaf R next)).setPage leaf
    (setNextLeaf L s.numPages) := ⟨_, rfl⟩
  have hpage₂ : s₂.page leaf = s.page leaf := by
    rw [hs₂, page_pagerMarkDirty, page_setPage, Function.update_of_ne hne, hview₁.page]
  have hpageL : s₃.page leaf = L := by
    rw [hs₃, page_pagerMarkDirty, page_setPage, Function.update_self]
  have hpageR : s₃.page s.numPages = R := by
    rw [hs₃, page_pagerMarkDirty, page_setPage, Function.update_of_ne hne.symm, hs₂,
      page_pagerMarkDirty, page_setPage, Function.update_self]
  have hparentL : parentPointer L = parent := by
    rw [parentPointer_eq, hheaderL]
    exact hchild.parent
  have hnextL : nextLeaf L = next := by
    rw [nextLeaf_eq, hheaderL]
    exact hleaf.next
  have hnum₅ : s₅.numPages = s.numPages + 1 := by
    rw [hs₅, hs₃, hs₂]
    exact hnum₁
  have hev₅ : Evolves s s₅ {q | q = leaf ∨ q = s.numPages} ∅ := by
    have hleaf₁ : leaf < s₁.numPages := by omega
    have hnew₁ : s.numPages < s₁.numPages := by omega
    have hev₁ : Evolves s s₁ {q | q = leaf ∨ q = s.numPages} {s.numPages} :=
      hview₁.evolves (by omega) hs₁
    have hev₂ : Evolves s s₂ {q | q = leaf ∨ q = s.numPages} {leaf} := by
      rw [hs₂]
      exact (hev₁.write hnew₁ (Or.inr rfl)).mono (fun q hq => hq) (Set.empty_subset _)
    have hev₃ : Evolves s s₃ {q | q = leaf ∨ q = s.numPages} ∅ := by
      rw [hs₃]
      exact hev₂.write (hs₂ ▸ hleaf₁) (Or.inl rfl)
    rw [hs₅]
    refine (hev₃.setPage_dirty ?_ (Or.inr rfl) ?_).setPage_dirty ?_ (Or.inl rfl) ?_
    · rw [hs₃, hs₂]
      exact hnew₁
    · simp [hs₃, hs₂, Function.update_of_ne hne.symm]
    · rw [hs₃, hs₂]
      exact hleaf₁
    · simp [hs₃]
  obtain ⟨s₆, hget₆, hfetch₆⟩ := pagerGetPage_of_lt hev₅.sound (n := parent) (by omega)
  have hpageL₆ : s₆.page leaf = setNextLeaf L s.numPages := by
    rw [hfetch₆.page, hs₅, page_setPage, Function.update_self]
  have hpageR₆ : s₆.page s.numPages = setNextLeaf R next := by
    rw [hfetch₆.page, hs₅, page_setPage, Function.update_of_ne hne.symm, page_setPage,
      Function.update_self]
  refine ⟨s₆, ?_, hfetch₆.numPages.trans hnum₅, hev₅.fetched hfetch₆, ?_, ?_, ?_⟩
  · simp only [splitLeafStep, hread, bind, Except.bind, ← htempdef, hprom, hget₁, hview₁.page,
      if_neg hnotroot, hchild.parent]
    rw [hview₁.page, rightHalf] at hR
    rw [← hR, ← hs₂, hpage₂, ← hL, ← hs₃, hpageL, hpageR, hparentL, hnextL]
    simp only [page_setPage, Function.update_of_ne hne, hpageL]
    rw [← hs₅]
    simp only [hget₆]
    rfl
  · intro q
    rw [hfetch₆.pageDirty, hs₅, hs₃, hs₂]
    simp only [pageDirty_setPage, pageDirty_pagerMarkDirty, Function.update_apply, hview₁.pageDirty]
    grind
  · have hbodyL : SameBody (s₆.page leaf) L := hpageL₆ ▸ sameBody_setNextLeaf L s.numPages
    refine leafPage_child htake hsizeL (hL ▸ hbodyL) ?_
    rw [hpageL₆, header_setNextLeaf _ (fits_of_le hroom.le), hheaderL, ha]
    exact Header.ext hleaf.type hchild.isRoot hchild.parent rfl rfl
  · have hbodyR : SameBody (s₆.page s.numPages) R := hpageR₆ ▸ sameBody_setNextLeaf R next
    refine leafPage_rightHalf hdrop hsizeR hlenR (fits_of_le (m := tablesMaxPages) (by omega))
      (hR ▸ hbodyR) ?_
    rw [hpageR₆, header_setNextLeaf _ (hleaf.next ▸ Mem.readNat_lt ..), hR]

/-- **A root leaf turns into an internal page** over its two halves. -/
theorem splitLeafNode_root (hs : s.Sound) (hreads : Reads s table types)
    (hleaf : LeafPage (rowWidth types) (s.page leaf) cells next)
    (hroot : isRoot (s.page leaf) = 1)
    (hfull : cells.length = leafNodeMaxCells (rowWidth types)) (hsorted : Tree.Sorted cells)
    (hkey : ∀ d ∈ cells, d.1 ≠ key) (hrow : (rowBytes row.values).length = rowWidth types)
    (hins : insertCell key (rowBytes row.values) cells = a ++ c :: b)
    (ha : a.length = (leafNodeMaxCells (rowWidth types) + 1) / 2)
    (hroom : s.numPages + 2 ≤ tablesMaxPages) (hlt : leaf < s.numPages) :
    ∃ s', splitLeafStep s table leaf key row (rowWidth types) = .ok (.inr (.commandSuccess, s')) ∧
      s'.numPages = s.numPages + 2 ∧
      Evolves s s' {q | q = leaf ∨ s.numPages ≤ q} ∅ ∧
      (InternalPage (s'.page leaf) [c.1] [s.numPages + 1, s.numPages] ∧
        isRoot (s'.page leaf) = 1) ∧
      (LeafPage (rowWidth types) (s'.page (s.numPages + 1)) a s.numPages ∧
        ChildOf (s'.page (s.numPages + 1)) leaf) ∧
      LeafPage (rowWidth types) (s'.page s.numPages) (c :: b) 0 ∧
      ChildOf (s'.page s.numPages) leaf := by
  obtain ⟨entries, hread, temp, htempdef, htake, hdrop, hprom, hsizeL, hsizeR, hlenR⟩ :=
    exists_halves hreads hleaf hfull hsorted hkey hrow hins ha
  have hmax := leafNodeMaxCells_le (rowWidth types)
  have hfits : ∀ q < s.numPages + 2, Fits q := fun q hq =>
    fits_of_le (m := tablesMaxPages) (by omega)
  have hne : leaf ≠ s.numPages := hlt.ne
  have hne' : leaf ≠ s.numPages + 1 := by omega
  have hne₁ : s.numPages ≠ s.numPages + 1 := by omega
  obtain ⟨s₁, hget₁, hview₁, hnum₁, hs₁⟩ := pagerGetPage_fresh hs (by omega)
  obtain ⟨R, hR⟩ : ∃ R, R = rightHalf (rowWidth types) leaf
    (temp.drop ((leafNodeMaxCells (rowWidth types) + 1) / 2)) (s₁.page s.numPages) := ⟨_, rfl⟩
  have hnew₁ : s.numPages < s₁.numPages := by omega
  obtain ⟨s₂, hs₂⟩ : ∃ s₂, s₂ = pagerMarkDirty (s₁.setPage s.numPages R) s.numPages := ⟨_, rfl⟩
  have hnum₂ : s₂.numPages = s.numPages + 1 := hs₂ ▸ hnum₁
  have hsound₂ : s₂.Sound := hs₂ ▸ (hs₁.setPage hnew₁).markDirty
  obtain ⟨s₃, hget₃, hview₃, hnum₃, hs₃⟩ := pagerGetPage_fresh hsound₂ (by omega)
  rw [hnum₂] at hget₃ hnum₃
  obtain ⟨L, hL⟩ : ∃ L, L = setParentPointer (setNextLeaf (setNumCells
    (writeEntries (rowWidth types) 0 (temp.take ((leafNodeMaxCells (rowWidth types) + 1) / 2))
      (setIsRoot (leafNodeInit (s₃.page (s.numPages + 1))) 0))
        ((leafNodeMaxCells (rowWidth types) + 1) / 2)) s.numPages) leaf := ⟨_, rfl⟩
  have hleft₃ : s.numPages + 1 < s₃.numPages := by omega
  obtain ⟨s₄, hs₄⟩ : ∃ s₄, s₄ = pagerMarkDirty (s₃.setPage (s.numPages + 1) L) (s.numPages + 1) :=
    ⟨_, rfl⟩
  obtain ⟨base, hbase⟩ : ∃ base, base = setNodeType (leafNodeInit
    ((s₄.page leaf).zero leafNodeHeaderSize leafNodeSpaceForCells)) nodeInternal := ⟨_, rfl⟩
  obtain ⟨N, hN⟩ : ∃ N, N = setRightChild (setNumCells (setInternalNodeValue
    (setInternalNodeKey base 0 c.1) 0 (s.numPages + 1)) 1) s.numPages := ⟨_, rfl⟩
  have hleaf₄ : leaf < s₄.numPages := by
    rw [hs₄]
    exact hlt.trans (by simpa using (by omega : s.numPages < s₃.numPages))
  have hpage₁ : s₁.page leaf = s.page leaf := by rw [hview₁.page]
  refine ⟨pagerMarkDirty (s₄.setPage leaf N) leaf, ?_, ?_, ?_, ?_, ?_, ?_⟩
  · simp only [splitLeafStep, hread, bind, Except.bind, ← htempdef, hprom, hget₁, hpage₁,
      if_pos hroot]
    rw [rightHalf] at hR
    rw [← hR, ← hs₂]
    simp only [hnum₂, hget₃]
    rw [← hL, ← hs₄, ← hbase, ← hN]
    rfl
  · rw [numPages_pagerMarkDirty, numPages_setPage, hs₄]
    exact hnum₃
  · have hev₁ : Evolves s s₁ {q | q = leaf ∨ s.numPages ≤ q} {s.numPages} :=
      hview₁.evolves (by omega) hs₁
    have hev₂ : Evolves s s₂ {q | q = leaf ∨ s.numPages ≤ q} ∅ := by
      rw [hs₂]
      exact hev₁.write hnew₁ (Or.inr le_rfl)
    have hev₃ : Evolves s s₃ {q | q = leaf ∨ s.numPages ≤ q} {s.numPages + 1} :=
      (hev₂.trans (hview₃.evolves (by omega) hs₃)).mono (fun q hq => hq) (Set.empty_subset _)
    have hev₄ : Evolves s s₄ {q | q = leaf ∨ s.numPages ≤ q} {leaf} := by
      rw [hs₄]
      exact (hev₃.write hleft₃ (Or.inr (Nat.le_succ _))).mono (fun q hq => hq)
        (Set.empty_subset _)
    exact hev₄.write hleaf₄ (Or.inl rfl)
  · rw [page_pagerMarkDirty, page_setPage, Function.update_self, hN]
    refine internalPage_single (header (s₄.page leaf)).parent
      (hfits _ (by omega)) (hfits _ (by omega))
      ((sameBody_setRightChild _ _).trans (sameBody_setNumCells _ _)) ?_
    have hcells : setInternalNodeValue (setInternalNodeKey base 0 c.1) 0 (s.numPages + 1) =
        writeInternalCells 0 [(c.1, s.numPages + 1)] base := rfl
    rw [header_setRightChild _ (hfits _ (by omega)), header_setNumCells _ (by decide), hcells,
      header_writeInternalCells, hbase, header_setNodeType, header_leafNodeInit,
      header_zero le_rfl]
  · have hpage : (pagerMarkDirty (s₄.setPage leaf N) leaf).page (s.numPages + 1) = L := by
      rw [page_pagerMarkDirty, page_setPage, Function.update_of_ne hne'.symm, hs₄,
        page_pagerMarkDirty, page_setPage, Function.update_self]
    have hbodyL : SameBody L (writeEntries (rowWidth types) 0
        (temp.take ((leafNodeMaxCells (rowWidth types) + 1) / 2))
          (setIsRoot (leafNodeInit (s₃.page (s.numPages + 1))) 0)) := by
      rw [hL]
      exact (sameBody_setParentPointer _ _).trans
        ((sameBody_setNextLeaf _ _).trans (sameBody_setNumCells _ _))
    rw [hpage]
    refine leafPage_child htake hsizeL hbodyL ?_
    rw [hL, header_setParentPointer _ (hfits _ (by omega)),
      header_setNextLeaf _ (hfits _ (by omega)),
      header_setNumCells _ (fits_of_le (m := 510) (by omega)), header_writeEntries (htake ▸ hsizeL),
      header_setIsRoot, header_leafNodeInit, ha]
  · have hpage : (pagerMarkDirty (s₄.setPage leaf N) leaf).page s.numPages = R := by
      rw [page_pagerMarkDirty, page_setPage, Function.update_of_ne hne.symm, hs₄,
        page_pagerMarkDirty, page_setPage, Function.update_of_ne hne₁, hview₃.page, hs₂,
        page_pagerMarkDirty, page_setPage, Function.update_self]
    rw [hpage, hR]
    refine leafPage_rightHalf hdrop hsizeR hlenR (hfits _ (by omega)) (SameBody.refl _) ?_
    rw [header_rightHalf _ hdrop hsizeR (hfits _ (by omega))]

/-! ## No page left -/

/-- Without a page for the right half nothing happens. -/
theorem splitLeafNode_full (hreads : Reads s table types)
    (hroom : s.numPages = tablesMaxPages) :
    splitLeafNode s table leaf key row (rowWidth types) = .ok (.failure, s) := by
  have hget : pagerGetPage s s.numPages = none := pagerGetPage_none hroom.ge
  simp only [splitLeafNode, splitLeafStep, readEntries_eq hreads, bind, Except.bind, hget]
  rfl

/-- A root leaf with one page left is not changed either. -/
theorem splitLeafNode_root_full (hs : s.Sound) (hreads : Reads s table types)
    (hroot : isRoot (s.page leaf) = 1) (hroom : s.numPages + 1 = tablesMaxPages) :
    ∃ s', splitLeafNode s table leaf key row (rowWidth types) = .ok (.failure, s') ∧
      s'.numPages = s.numPages + 1 ∧ Evolves s s' {s.numPages} ∅ := by
  obtain ⟨s₁, hget₁, hview₁, hnum₁, hs₁⟩ := pagerGetPage_fresh hs (by omega)
  have hnone : ∀ s₂ : Pager, s₂.numPages = s.numPages + 1 →
      pagerGetPage s₂ s₂.numPages = none := fun s₂ h => pagerGetPage_none (by omega)
  have hpage₁ : s₁.page leaf = s.page leaf := by rw [hview₁.page]
  simp only [splitLeafNode, splitLeafStep, readEntries_eq hreads, bind, Except.bind, hget₁, hpage₁,
    if_pos hroot]
  rw [hnone _ (by rw [numPages_pagerMarkDirty, numPages_setPage, hnum₁])]
  refine ⟨_, rfl, ?_, ?_⟩
  · rw [numPages_pagerMarkDirty, numPages_setPage, hnum₁]
  · have hev₁ : Evolves s s₁ {s.numPages} {s.numPages} := hview₁.evolves (by omega) hs₁
    exact hev₁.write (by omega) rfl

end Split

end MiniDB
