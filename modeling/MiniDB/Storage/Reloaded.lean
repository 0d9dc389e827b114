import MiniDB.Storage.InsertRoot

/-!
# Pages read back from a file

A page that is read back from a file agrees with the page that was written on its 4096 bytes.  All
that a tree says is in these bytes.

* `AgreeTo`: two pages agree on their first bytes.
* `Represents.agree`: **a tree is still there when its pages are read back**.
* `Represents.nonzero`: no page of a tree is a page of zeros, which is what a page behind the end of
  the file is read as.
-/

namespace MiniDB

open BPlusTree Pager

/-- The page `q` agrees with `p` on the first `len` bytes. -/
def AgreeTo (len : ℕ) (p q : Page) : Prop := ∀ i < len, q i = p i

variable {p q r : Page} {len rowSize : ℕ} {m m' : ℕ → Page} {s s' : Pager}

theorem AgreeTo.trans (h : AgreeTo len p q) (h' : AgreeTo len q r) : AgreeTo len p r :=
  fun i hi => (h' i hi).trans (h i hi)

theorem AgreeTo.read {off n : ℕ} (h : AgreeTo len p q) (hle : off + n ≤ len) :
    q.read off n = p.read off n :=
  Mem.read_congr fun _ hi => h _ (by omega)

/-! ## One page -/

theorem AgreeTo.header (h : AgreeTo pageSize p q) : header q = header p :=
  Header.ext (h _ (by decide)) (h _ (by decide)) (Mem.readNat_congr (h.read (by decide)))
    (Mem.readNat_congr (h.read (by decide))) (Mem.readNat_congr (h.read (by decide)))

/-- The cells of a leaf lie inside its page. -/
theorem leafCells_le {n : ℕ} (h : n ≤ leafNodeMaxCells rowSize) :
    leafNodeHeaderSize + n * leafNodeCellSize rowSize ≤ pageSize := by
  have hle := (Nat.mul_le_mul_right (leafNodeCellSize rowSize) h).trans
    (Nat.div_mul_le_self leafNodeSpaceForCells (leafNodeCellSize rowSize))
  have hspace : leafNodeHeaderSize + leafNodeSpaceForCells = pageSize := rfl
  omega

theorem LeafPage.agree {cells : List Cell} {next : ℕ} (h : LeafPage rowSize p cells next)
    (hfit : cells.length ≤ leafNodeMaxCells rowSize) (ha : AgreeTo pageSize p q) :
    LeafPage rowSize q cells next where
  type := (congrArg Header.type ha.header).trans h.type
  next := (congrArg Header.link ha.header).trans h.next
  cells := by
    have hnum : numCells q = numCells p := congrArg Header.cells ha.header
    have hle := leafCells_le (h.length_cells.trans_le hfit)
    rw [← h.cells, leafCells, leafCells, hnum]
    congr 1
    exact Mem.records_congr fun i hi => ha _ (by omega)

theorem InternalPage.agree {seps : List Int64} {children : List ℕ}
    (h : InternalPage p seps children)
    (hfit : seps.length ≤ internalNodeMaxKeys) (ha : AgreeTo pageSize p q) :
    InternalPage q seps children := by
  have hnum : numCells q = numCells p := congrArg Header.cells ha.header
  have hright : rightChild q = rightChild p := congrArg Header.link ha.header
  have hcell : ∀ i < numCells p, internalNodeCell i + internalNodeCellSize ≤ pageSize := by
    intro i hi
    rw [h.length_seps] at hi
    have hmax : internalNodeMaxKeys = 340 := rfl
    unfold internalNodeCell internalNodeHeaderSize internalNodeCellSize pageSize
    omega
  refine ⟨(congrArg Header.type ha.header).trans h.type, ?_, ?_⟩
  · rw [← h.keys, internalKeys, internalKeys, hnum]
    refine List.map_congr_left fun i hi => Mem.readInt64_congr (ha.read ?_)
    have hle := hcell i (List.mem_range.mp hi)
    unfold internalNodeCellSize at hle
    omega
  · rw [← h.children, internalChildren, internalChildren, hnum, hright]
    congr 1
    refine List.map_congr_left fun i hi => Mem.readNat_congr (ha.read ?_)
    have hle := hcell i (List.mem_range.mp hi)
    unfold internalNodeCellSize at hle
    unfold internalNodeKeySize
    omega

theorem AgreeTo.parentPointer (h : AgreeTo pageSize p q) :
    MiniDB.parentPointer q = MiniDB.parentPointer p :=
  congrArg Header.parent h.header

theorem ChildOf.agree {parent : ℕ} (h : ChildOf p parent) (ha : AgreeTo pageSize p q) :
    ChildOf q parent where
  isRoot := (congrArg Header.root ha.header).trans h.isRoot
  parent := (AgreeTo.parentPointer ha).trans h.parent

/-! ## Trees -/

/-- A stored tree is in the bytes of its pages. -/
theorem Stored.agree : {h : ℕ} → {t : PageTree h} → {next : ℕ} → Stored m rowSize t next →
    t.Sized (leafNodeMaxCells rowSize) internalNodeMaxKeys →
    (∀ q ∈ t.labels, AgreeTo pageSize (m q) (m' q)) → Stored m' rowSize t next
  | 0, l, _, hst, hsized, hm => LeafPage.agree hst hsized (hm _ (Tree.page_mem_labels l))
  | _ + 1, n, _, hst, hsized, hm => by
    refine ⟨hst.1.agree hsized.2.1 (hm _ (Tree.page_mem_labels n)), hst.2.mono ?_⟩
    intro c hc e hce
    have hlab : ∀ q ∈ c.labels, AgreeTo pageSize (m q) (m' q) := fun q hq =>
      hm q (Multiset.mem_of_le (Tree.labels_le_of_mem hc) hq)
    exact ⟨hce.1.agree (hsized.2.2 c hc) hlab, hce.2.agree (hlab _ (Tree.page_mem_labels c))⟩

/-- **A tree is still there when its pages are read back.** -/
theorem Represents.agree {t : PageTreeAny} (ht : Represents s rowSize t)
    (hpages : ∀ q ∈ t.2.labels, AgreeTo pageSize (s.page q) (s'.page q))
    (hnum : ∀ q ∈ t.2.labels, q < s'.numPages) : Represents s' rowSize t where
  stored := ht.stored.agree ht.good.sized hpages
  root := (congrArg Header.root (hpages _ (Tree.page_mem_labels t.2)).header).trans ht.root
  good := ⟨ht.good.ordered, ht.good.sized, ht.good.nodup, hnum⟩
  zero := ht.zero

/-- The header of a page of zeros. -/
theorem header_of_zero (h : ∀ i < pageSize, p i = 0) : header p = ⟨0, 0, 0, 0, 0⟩ := by
  have ha : AgreeTo pageSize (fun _ => 0) p := h
  rw [ha.header]
  exact Header.ext rfl rfl (by decide) (by decide) (by decide)

/-- **No page of a tree is a page of zeros**: the root is marked as one, and any other page names
its parent, which is not page 0. -/
theorem Represents.nonzero {t : PageTreeAny} (ht : Represents s rowSize t) {q : ℕ}
    (hq : q ∈ t.2.labels) : ¬ ∀ i < pageSize, s.page q i = 0 := by
  intro hzero
  have hheader := header_of_zero hzero
  rw [Tree.labels_eq] at hq
  rcases Multiset.mem_add.mp hq with hq | hq
  · have hroot : (header (s.page q)).root = 1 := by
      rw [Multiset.mem_singleton.mp hq]
      exact ht.root
    rw [hheader] at hroot
    exact absurd hroot (by decide)
  · obtain ⟨parent, hparent, hmark⟩ := ht.stored.childOf_below q hq
    have hname : (header (s.page q)).parent = parent := hmark.parent
    rw [hheader] at hname
    have hlabel : 0 ∈ t.2.labels := (show 0 = parent from hname) ▸ hparent
    exact ht.zero hlabel

end MiniDB
