import MiniDB.Model.BTree
import MiniDB.ByteRecords

/-!
# The header of a node page

The five header fields as one record, and what each write to a page does to them.  Everything below
the header is untouched by a write to a header field, and the other way round.

* `Header`, `header`: the fields together.
* `header_write`, `sameBody_setNumCells` and its kin: header and cells do not overlap.
-/

namespace MiniDB

/-- The header fields of a node page; `link` is the next leaf or the rightmost child. -/
@[ext] structure Header where
  type : UInt8
  root : UInt8
  parent : ℕ
  cells : ℕ
  link : ℕ

/-- The header of a page. -/
def header (p : Page) : Header :=
  ⟨nodeType p, isRoot p, parentPointer p, numCells p, nextLeaf p⟩

/-- A number that fits in the four bytes of a header field. -/
abbrev Fits (n : ℕ) : Prop := n < 256 ^ 4

theorem fits_of_le {n m : ℕ} (h : n ≤ m) (hm : Fits m := by decide) : Fits n := lt_of_le_of_lt h hm

variable {p : Page} {n : ℕ}

theorem nodeType_eq (p : Page) : nodeType p = (header p).type := rfl
theorem isRoot_eq (p : Page) : isRoot p = (header p).root := rfl
theorem parentPointer_eq (p : Page) : parentPointer p = (header p).parent := rfl
theorem numCells_eq (p : Page) : numCells p = (header p).cells := rfl
theorem nextLeaf_eq (p : Page) : nextLeaf p = (header p).link := rfl
theorem rightChild_eq (p : Page) : rightChild p = (header p).link := rfl

/-! ## Writes to header fields -/

@[simp] theorem header_setNodeType (p : Page) (t : UInt8) :
    header (setNodeType p t) = { header p with type := t } := by
  refine Header.ext ?_ ?_ ?_ ?_ ?_
  · exact Mem.write_apply_of_mem (m := p) (a := 0) (l := [t]) (i := 0) Nat.one_pos
  · exact Mem.write_apply_of_not_mem (i := 1) (a := 0) (l := [t]) (by simp)
  · exact Mem.readNat_congr
      (Mem.read_write_of_disjoint (a := 2) (w := 0) (by simp))
  · exact Mem.readNat_congr
      (Mem.read_write_of_disjoint (a := 6) (w := 0) (by simp))
  · exact Mem.readNat_congr
      (Mem.read_write_of_disjoint (a := 10) (w := 0) (by simp))

@[simp] theorem header_setIsRoot (p : Page) (b : UInt8) :
    header (setIsRoot p b) = { header p with root := b } := by
  refine Header.ext ?_ ?_ ?_ ?_ ?_
  · exact Mem.write_apply_of_not_mem (i := 0) (a := 1) (l := [b]) (by simp)
  · exact Mem.write_apply_of_mem (m := p) (a := 1) (l := [b]) (i := 0) Nat.one_pos
  · exact Mem.readNat_congr
      (Mem.read_write_of_disjoint (a := 2) (w := 1) (by simp))
  · exact Mem.readNat_congr
      (Mem.read_write_of_disjoint (a := 6) (w := 1) (by simp))
  · exact Mem.readNat_congr
      (Mem.read_write_of_disjoint (a := 10) (w := 1) (by simp))

@[simp] theorem header_setParentPointer (p : Page) (h : Fits n) :
    header (setParentPointer p n) = { header p with parent := n } := by
  refine Header.ext ?_ ?_ ?_ ?_ ?_
  · exact Mem.write_apply_of_not_mem (i := 0) (a := 2) (l := toLE 4 n) (by simp)
  · exact Mem.write_apply_of_not_mem (i := 1) (a := 2) (l := toLE 4 n) (by simp)
  · exact Mem.readNat_writeNat_self h
  · exact Mem.readNat_congr (Mem.read_writeNat_of_disjoint (a := 2) (by decide))
  · exact Mem.readNat_congr (Mem.read_writeNat_of_disjoint (a := 2) (by decide))

@[simp] theorem header_setNumCells (p : Page) (h : Fits n) :
    header (setNumCells p n) = { header p with cells := n } := by
  refine Header.ext ?_ ?_ ?_ ?_ ?_
  · exact Mem.write_apply_of_not_mem (i := 0) (a := 6) (l := toLE 4 n) (by simp)
  · exact Mem.write_apply_of_not_mem (i := 1) (a := 6) (l := toLE 4 n) (by simp)
  · exact Mem.readNat_congr (Mem.read_writeNat_of_disjoint (a := 6) (by decide))
  · exact Mem.readNat_writeNat_self h
  · exact Mem.readNat_congr (Mem.read_writeNat_of_disjoint (a := 6) (by decide))

@[simp] theorem header_setNextLeaf (p : Page) (h : Fits n) :
    header (setNextLeaf p n) = { header p with link := n } := by
  refine Header.ext ?_ ?_ ?_ ?_ ?_
  · exact Mem.write_apply_of_not_mem (i := 0) (a := 10) (l := toLE 4 n) (by simp)
  · exact Mem.write_apply_of_not_mem (i := 1) (a := 10) (l := toLE 4 n) (by simp)
  · exact Mem.readNat_congr (Mem.read_writeNat_of_disjoint (a := 10) (by decide))
  · exact Mem.readNat_congr (Mem.read_writeNat_of_disjoint (a := 10) (by decide))
  · exact Mem.readNat_writeNat_self h

@[simp] theorem header_setRightChild (p : Page) (h : Fits n) :
    header (setRightChild p n) = { header p with link := n } :=
  header_setNextLeaf p h

@[simp] theorem header_leafNodeInit (p : Page) :
    header (leafNodeInit p) = ⟨nodeLeaf, 1, (header p).parent, 0, 0⟩ := by
  rw [leafNodeInit, header_setNextLeaf _ (by decide), header_setNumCells _ (by decide),
    header_setIsRoot, header_setNodeType]

@[simp] theorem header_internalNodeInit (p : Page) (root : UInt8) :
    header (internalNodeInit p root) = ⟨nodeInternal, root, (header p).parent, 0, 0⟩ := by
  rw [internalNodeInit, header_setNextLeaf _ (by decide), header_setNumCells _ (by decide),
    header_setIsRoot, header_setNodeType]

/-! ## Header and cells -/

/-- A write below the header. -/
theorem header_write {off : ℕ} {bs : List UInt8} (h : leafNodeHeaderSize ≤ off) :
    header (p.write off bs) = header p := by
  have hb : ∀ i < 14, p.write off bs i = p i := fun i hi =>
    Mem.write_apply_of_not_mem (Or.inl (lt_of_lt_of_le hi h))
  refine Header.ext (hb 0 (by decide)) (hb 1 (by decide)) ?_ ?_ ?_ <;>
    exact Mem.readNat_congr (Mem.read_congr fun i hi =>
      hb _ (Nat.add_lt_of_lt_sub' (by exact hi.trans_le (by decide))))

theorem header_zero {off : ℕ} (h : leafNodeHeaderSize ≤ off) :
    header (p.zero off n) = header p :=
  header_write h

/-- Two pages that agree below the header. -/
def SameBody (p q : Page) : Prop := ∀ i, leafNodeHeaderSize ≤ i → p i = q i

theorem SameBody.refl (p : Page) : SameBody p p := fun _ _ => rfl

theorem SameBody.trans {p q r : Page} (h : SameBody p q) (h' : SameBody q r) : SameBody p r :=
  fun i hi => (h i hi).trans (h' i hi)

theorem SameBody.read {p q : Page} (h : SameBody p q) {off len : ℕ}
    (hoff : leafNodeHeaderSize ≤ off) : p.read off len = q.read off len :=
  Mem.read_congr fun _ _ => h _ (Nat.le_add_right_of_le hoff)

theorem SameBody.write {p q : Page} (h : SameBody p q) (off : ℕ) (bs : List UInt8) :
    SameBody (p.write off bs) (q.write off bs) := fun i hi => by
  simp only [Mem.write, h i hi]

theorem sameBody_write_header {off : ℕ} {bs : List UInt8}
    (h : off + bs.length ≤ leafNodeHeaderSize) :
    SameBody (p.write off bs) p := fun _ hi => Mem.write_apply_of_not_mem (Or.inr (h.trans hi))

theorem sameBody_setParentPointer (p : Page) (n : ℕ) : SameBody (setParentPointer p n) p :=
  sameBody_write_header (by rw [length_toLE]; decide)

theorem sameBody_setNumCells (p : Page) (n : ℕ) : SameBody (setNumCells p n) p :=
  sameBody_write_header (by rw [length_toLE]; decide)

theorem sameBody_setNextLeaf (p : Page) (n : ℕ) : SameBody (setNextLeaf p n) p :=
  sameBody_write_header (by rw [length_toLE]; decide)

theorem sameBody_setRightChild (p : Page) (n : ℕ) : SameBody (setRightChild p n) p :=
  sameBody_setNextLeaf p n

end MiniDB
