import MiniDB.Pages.Internal
import MiniDB.Pages.Leaf
import MiniDB.Storage.Paging

/-!
# Cell insertions on the bytes of a page

`leaf_node_insert` and `internal_node_insert` move bytes about at computed offsets.  Decoded, they
insert into a list: the cells of a leaf, or the children of an internal page with the keys between
them.  All of it happens inside the page.

* `interleave`, `internalSequence`: children and keys as one alternating list.
* `StaysInPage`: an edit that neither writes nor looks at a byte past the end of the page.
* `cellInsertions_edit_lists`: what the two functions do.
-/

/-! ## Alternating lists -/

section Interleave

variable {α β : Type*}

/-- The entries of `xs` with those of `ys` between them, as far as these reach. -/
def interleave : List α → List β → List (α ⊕ β)
  | x :: xs, y :: ys => .inl x :: .inr y :: interleave xs ys
  | xs, _ => xs.map .inl

theorem interleave_cons_cons (x : α) (xs : List α) (y : β) (ys : List β) :
    interleave (x :: xs) (y :: ys) = .inl x :: .inr y :: interleave xs ys := rfl

/-- Only the first entry of the list depends on the first child. -/
theorem interleave_eq_cons (x x' : α) (xs : List α) (ys : List β) :
    interleave (x :: xs) ys = .inl x :: (interleave (x' :: xs) ys).drop 1 := by
  cases ys <;> rfl

/-- Two entries of `xs` for one, with an entry of `ys` between them. -/
theorem interleave_splice {xs : List α} {ys : List β} {c : ℕ} {l : α} (r : α) (y : β)
    (hc : c ≤ ys.length) (hl : xs[c]? = some l) :
    interleave (xs.take c ++ l :: r :: xs.drop (c + 1)) (ys.take c ++ y :: ys.drop c) =
      (interleave xs ys).take (2 * c) ++ .inl l :: .inr y :: .inl r ::
        (interleave xs ys).drop (2 * c + 1) := by
  induction c generalizing xs ys with
  | zero =>
    cases xs with
    | nil => cases hl
    | cons x xs =>
      obtain rfl : x = l := by simpa using hl
      simp only [List.take_zero, List.nil_append, List.drop_zero, List.drop_succ_cons, Nat.mul_zero,
        Nat.zero_add, interleave_cons_cons]
      rw [interleave_eq_cons r x]
  | succ c ih =>
    cases xs with
    | nil => cases hl
    | cons x xs =>
      cases ys with
      | nil => cases hc
      | cons y' ys =>
        have hl' : xs[c]? = some l := by simpa using hl
        have hrest := ih (Nat.le_of_succ_le_succ hc) hl'
        have htwo : 2 * (c + 1) = 2 * c + 1 + 1 := rfl
        rw [htwo]
        simp only [List.take_succ_cons, List.drop_succ_cons, List.cons_append, interleave_cons_cons,
          hrest]

/-- Where an entry of `xs` stands in the list. -/
theorem getElem?_interleave {xs : List α} {ys : List β} {c : ℕ} (hc : c ≤ ys.length) :
    (interleave xs ys)[2 * c]? = xs[c]?.map .inl := by
  induction c generalizing xs ys with
  | zero => cases xs <;> cases ys <;> rfl
  | succ c ih =>
    cases ys with
    | nil => cases hc
    | cons y ys =>
      cases xs with
      | nil => rfl
      | cons x xs =>
        have htwo : 2 * (c + 1) = 2 * c + 1 + 1 := rfl
        rw [htwo, interleave_cons_cons, List.getElem?_cons_succ, List.getElem?_cons_succ,
          List.getElem?_cons_succ]
        exact ih (Nat.le_of_succ_le_succ hc)

end Interleave

namespace MiniDB

/-- The children of an internal page with the keys between them. -/
def internalSequence (p : Page) : List (ℕ ⊕ Int64) :=
  interleave (internalChildren p) (internalKeys p)

/-! ## Edits inside a page -/

variable {p q : Page} {off len : ℕ}

/-- Two pages that agree up to the end of a page. -/
def SameWithin (p q : Page) : Prop := ∀ i < pageSize, q i = p i

/-- The edit leaves the bytes past the end of the page alone, and what it does to the page does not
depend on them. -/
structure StaysInPage (edit : Page → Page) (p : Page) : Prop where
  beyond : ∀ i, pageSize ≤ i → edit p i = p i
  within : ∀ q, SameWithin p q → SameWithin (edit p) (edit q)

theorem SameWithin.read (h : SameWithin p q) (hfit : off + len ≤ pageSize) :
    q.read off len = p.read off len :=
  Mem.read_congr fun i hi => h _ (by omega)

theorem SameWithin.numCells (h : SameWithin p q) : numCells q = numCells p :=
  Mem.readNat_congr (h.read (by decide))

theorem SameWithin.write (h : SameWithin p q) (off : ℕ) (bs : List UInt8) :
    SameWithin (p.write off bs) (q.write off bs) := by
  intro i hi
  simp only [Mem.write, h i hi]

theorem SameWithin.memmove {dst src n : ℕ} (h : SameWithin p q) (hsrc : src + n ≤ pageSize) :
    SameWithin (p.memmove dst src n) (q.memmove dst src n) := by
  rw [Mem.memmove, Mem.memmove, h.read hsrc]
  exact h.write _ _

theorem SameWithin.setNumCells (h : SameWithin p q) (n : ℕ) :
    SameWithin (setNumCells p n) (setNumCells q n) :=
  h.write _ _

/-- A write that ends inside the page. -/
theorem write_beyond {bs : List UInt8} {i : ℕ} (hi : pageSize ≤ i)
    (hfit : off + bs.length ≤ pageSize) : p.write off bs i = p i :=
  Mem.write_apply_of_not_mem (Or.inr (hfit.trans hi))

theorem memmove_beyond {dst src n i : ℕ} (hi : pageSize ≤ i) (hfit : dst + n ≤ pageSize) :
    p.memmove dst src n i = p i :=
  write_beyond hi (by rwa [Mem.length_read])

theorem setNumCells_beyond {n i : ℕ} (hi : pageSize ≤ i) : setNumCells p n i = p i :=
  write_beyond hi (by rw [length_toLE]; decide)

/-- The cells of a leaf end inside the page. -/
theorem leafNodeCell_le {n rowSize : ℕ} (h : n ≤ leafNodeMaxCells rowSize) :
    leafNodeCell n rowSize ≤ pageSize := by
  have hmul : n * leafNodeCellSize rowSize ≤ leafNodeSpaceForCells :=
    (Nat.mul_le_mul_right _ h).trans (Nat.div_mul_le_self ..)
  rw [leafNodeCell, Nat.add_comm]
  exact Nat.add_le_of_le_sub (by decide) hmul

/-- So do the cells of an internal page. -/
theorem internalNodeCell_le {n : ℕ} (h : n ≤ internalNodeMaxKeys) :
    internalNodeCell n ≤ pageSize := by
  have hmul : n * internalNodeCellSize ≤ internalNodeSpaceForCells :=
    (Nat.mul_le_mul_right _ h).trans (Nat.div_mul_le_self ..)
  rw [internalNodeCell, Nat.add_comm]
  exact Nat.add_le_of_le_sub (by decide) hmul

theorem leafNodeCell_succ (c rowSize : ℕ) :
    leafNodeCell (c + 1) rowSize = leafNodeCell c rowSize + leafNodeCellSize rowSize := by
  rw [leafNodeCell, leafNodeCell, Nat.succ_mul, Nat.add_assoc]

theorem internalNodeCell_succ (c : ℕ) :
    internalNodeCell (c + 1) = internalNodeCell c + internalNodeCellSize := by
  rw [internalNodeCell, internalNodeCell, Nat.succ_mul, Nat.add_assoc]

/-- `leaf_node_insert` works inside the page. -/
theorem staysInPage_leafNodeInsertCell {types : List ColumnType} {c : ℕ} (key : Int64) {row : Row}
    (hrow : row.values.map Value.columnType = types)
    (hroom : numCells p < leafNodeMaxCells (rowWidth types)) (hc : c ≤ numCells p) :
    StaysInPage (fun p => leafNodeInsertCell p c key row (rowWidth types)) p := by
  have hlen : (rowBytes row.values).length = rowWidth types := by rw [length_rowBytes, hrow]
  -- the cells from `c` on end where the last cell of the edited page does
  have hmove : leafNodeCell (c + 1) (rowWidth types) +
      (numCells p - c) * leafNodeCellSize (rowWidth types) =
        leafNodeCell (numCells p + 1) (rowWidth types) := by
    rw [leafNodeCell, leafNodeCell, Nat.add_assoc, ← Nat.add_mul]
    congr 2
    omega
  have hend : leafNodeCell (numCells p + 1) (rowWidth types) ≤ pageSize := leafNodeCell_le hroom
  have hfrom : leafNodeCell c (rowWidth types) +
      (numCells p - c) * leafNodeCellSize (rowWidth types) ≤ pageSize := by
    rw [leafNodeCell_succ] at hmove
    omega
  have hcell : leafNodeCell c (rowWidth types) + leafNodeCellSize (rowWidth types) ≤ pageSize := by
    rw [← leafNodeCell_succ]
    exact leafNodeCell_le (by omega)
  rw [leafNodeCellSize, keySize] at hcell
  constructor
  · intro i hi
    simp only [leafNodeInsertCell, serializeRow_eq]
    rw [setNumCells_beyond hi, write_beyond hi, Mem.writeInt64, write_beyond hi,
      memmove_beyond hi (hmove.trans_le hend)]
    · rw [Mem.length_int64Bytes]
      omega
    · rw [hlen, leafNodeValue, valueOffset]
      omega
  · intro q hq
    simp only [leafNodeInsertCell, serializeRow_eq, hq.numCells]
    exact (((hq.memmove hfrom).write _ _).write _ _).setNumCells _

/-- `internal_node_insert` works inside the page. -/
theorem staysInPage_internalNodeInsertCell {c : ℕ} (key : Int64) (left right : ℕ)
    (hroom : numCells p < internalNodeMaxKeys) (hc : c ≤ numCells p) :
    StaysInPage (fun p => internalNodeInsertCell p c key left right) p := by
  have hmove : internalNodeCell (c + 1) + (numCells p - c) * internalNodeCellSize =
      internalNodeCell (numCells p + 1) := by
    rw [internalNodeCell, internalNodeCell, Nat.add_assoc, ← Nat.add_mul]
    congr 2
    omega
  have hend : internalNodeCell (numCells p + 1) ≤ pageSize := internalNodeCell_le hroom
  have hfrom : internalNodeCell c + (numCells p - c) * internalNodeCellSize ≤ pageSize := by
    rw [internalNodeCell_succ] at hmove
    omega
  have hcell : internalNodeCell c + internalNodeCellSize ≤ pageSize := by
    rw [← internalNodeCell_succ]
    exact internalNodeCell_le (by omega)
  rw [internalNodeCellSize] at hcell
  constructor
  · intro i hi
    have h8 : internalNodeKeySize = 8 := rfl
    simp only [internalNodeInsertCell]
    rw [setNumCells_beyond hi, setInternalNodeValue, Mem.writeNat, write_beyond hi,
      setInternalNodeKey, Mem.writeInt64, write_beyond hi]
    · split
      · rw [setRightChild, Mem.writeNat, write_beyond hi,
          memmove_beyond hi (hmove.trans_le hend)]
        rw [length_toLE]
        decide
      · -- the right child goes into a cell that was there before
        have hnext : internalNodeCell (c + 1) + internalNodeCellSize ≤ pageSize := by
          rw [← internalNodeCell_succ]
          exact internalNodeCell_le (by omega)
        rw [internalNodeCellSize] at hnext
        rw [setInternalNodeValue, Mem.writeNat, write_beyond hi,
          memmove_beyond hi (hmove.trans_le hend)]
        rw [length_toLE]
        omega
    · rw [Mem.length_int64Bytes]
      omega
    · rw [length_toLE]
      omega
  · intro q hq
    simp only [internalNodeInsertCell, hq.numCells]
    refine SameWithin.setNumCells (SameWithin.write (SameWithin.write ?_ _ _) _ _) _
    split
    · exact (hq.memmove hfrom).write _ _
    · exact (hq.memmove hfrom).write _ _

/-! ## The two insertions -/

theorem leafNodeInsert_of_lt {s : Pager} {n c rowSize : ℕ} {key : Int64} {row : Row}
    (h : numCells (s.page n) < leafNodeMaxCells rowSize) :
    leafNodeInsert s n c key row rowSize =
      (.commandSuccess, pagerMarkDirty
        (s.setPage n (leafNodeInsertCell (s.page n) c key row rowSize)) n) :=
  if_neg (not_le.mpr h)

theorem internalNodeInsert_of_lt {s : Pager} {n c left right : ℕ} {key : Int64}
    (h : numCells (s.page n) < internalNodeMaxKeys) :
    internalNodeInsert s n c key left right =
      (.commandSuccess, pagerMarkDirty
        (s.setPage n (internalNodeInsertCell (s.page n) c key left right)) n) :=
  if_neg (not_le.mpr h)

/-- The alternating list after an insertion into an internal page. -/
theorem internalSequence_insertCell {c left right : ℕ} {key : Int64} (hn : Fits (numCells p + 1))
    (hc : c ≤ numCells p) (hleft : childAt p c = left) (hl : Fits left) (hr : Fits right) :
    internalSequence (internalNodeInsertCell p c key left right) =
      (internalSequence p).take (2 * c) ++ .inl left :: .inr key :: .inl right ::
        (internalSequence p).drop (2 * c + 1) := by
  rw [internalSequence, internalKeys_insertCell hn hr hc, internalChildren_insertCell hn hl hr hc]
  refine interleave_splice right key (by rwa [length_internalKeys]) ?_
  rw [childAt_eq hc, hleft]

/-- **Cell insertions are list insertions.**  A leaf page that is not full gets the new cell at the
place that was asked for.  In an internal page that is not full the child at the place becomes two
with the new key between them.  The header keeps its fields but for `NUM_CELLS` (and for the last
child, which an internal page keeps there), no byte past the end of the page is looked at or
changed, and neither is another page. -/
theorem cellInsertions_edit_lists :
    (∀ (types : List ColumnType) (s : Pager) (n c : ℕ) (key : Int64) (row : Row),
      row.values.map Value.columnType = types →
      numCells (s.page n) < leafNodeMaxCells (rowWidth types) → c ≤ numCells (s.page n) →
      ∃ s', leafNodeInsert s n c key row (rowWidth types) = (.commandSuccess, s') ∧
        leafCells (rowWidth types) (s'.page n) =
          (leafCells (rowWidth types) (s.page n)).take c ++ (key, rowBytes row.values) ::
            (leafCells (rowWidth types) (s.page n)).drop c ∧
        header (s'.page n) = { header (s.page n) with cells := numCells (s.page n) + 1 } ∧
        StaysInPage (fun p => leafNodeInsertCell p c key row (rowWidth types)) (s.page n) ∧
        s'.page n = leafNodeInsertCell (s.page n) c key row (rowWidth types) ∧
        ∀ m ≠ n, s'.page m = s.page m) ∧
    (∀ (s : Pager) (n c left right : ℕ) (key : Int64),
      numCells (s.page n) < internalNodeMaxKeys → c ≤ numCells (s.page n) →
      childAt (s.page n) c = left → Fits right →
      ∃ s', internalNodeInsert s n c key left right = (.commandSuccess, s') ∧
        internalSequence (s'.page n) =
          (internalSequence (s.page n)).take (2 * c) ++ .inl left :: .inr key :: .inl right ::
            (internalSequence (s.page n)).drop (2 * c + 1) ∧
        (internalSequence (s.page n))[2 * c]? = some (.inl left) ∧
        header (s'.page n) =
          { header (s.page n) with
            cells := numCells (s.page n) + 1
            link := if c = numCells (s.page n) then right else rightChild (s.page n) } ∧
        StaysInPage (fun p => internalNodeInsertCell p c key left right) (s.page n) ∧
        s'.page n = internalNodeInsertCell (s.page n) c key left right ∧
        ∀ m ≠ n, s'.page m = s.page m) := by
  constructor
  · intro types s n c key row hrow hroom hc
    have hlen : (rowBytes row.values).length = rowWidth types := by rw [length_rowBytes, hrow]
    have hn : Fits (numCells (s.page n) + 1) :=
      fits_of_le (m := leafNodeSpaceForCells) (le_trans hroom (Nat.div_le_self ..))
    refine ⟨_, leafNodeInsert_of_lt hroom, ?_, ?_, ?_, ?_, ?_⟩
    · rw [Pager.page_pagerMarkDirty, Pager.page_setPage, Function.update_self,
        leafCells_insertCell_take hn hlen hc]
    · rw [Pager.page_pagerMarkDirty, Pager.page_setPage, Function.update_self,
        header_leafNodeInsertCell hn]
    · exact staysInPage_leafNodeInsertCell key hrow hroom hc
    · rw [Pager.page_pagerMarkDirty, Pager.page_setPage, Function.update_self]
    · intro m hm
      rw [Pager.page_pagerMarkDirty, Pager.page_setPage, Function.update_of_ne hm]
  · intro s n c left right key hroom hc hleft hr
    have hn : Fits (numCells (s.page n) + 1) := fits_of_le (m := internalNodeMaxKeys) hroom
    have hl : Fits left := by
      rw [← hleft, childAt]
      split <;> exact Mem.readNat_lt ..
    refine ⟨_, internalNodeInsert_of_lt hroom, ?_, ?_, ?_, ?_, ?_, ?_⟩
    · rw [Pager.page_pagerMarkDirty, Pager.page_setPage, Function.update_self,
        internalSequence_insertCell hn hc hleft hl hr]
    · rw [internalSequence, getElem?_interleave (by rwa [length_internalKeys]), childAt_eq hc,
        hleft]
      rfl
    · rw [Pager.page_pagerMarkDirty, Pager.page_setPage, Function.update_self,
        header_internalNodeInsertCell c left key hn hr]
    · exact staysInPage_internalNodeInsertCell key left right hroom hc
    · rw [Pager.page_pagerMarkDirty, Pager.page_setPage, Function.update_self]
    · intro m hm
      rw [Pager.page_pagerMarkDirty, Pager.page_setPage, Function.update_of_ne hm]

/-- A page of zeros with one cell. -/
def oneCellPage : Page := setNumCells (fun _ => 0) 1

/-- A key behind the only one of a leaf, and one behind the only key of an internal page. -/
theorem cellInsertions_edit_lists_behind :
    ∃ s₁ s₂ : Pager,
      leafNodeInsert ((pagerOpen ⟨fun _ => 0, 0⟩).setPage 1 oneCellPage) 1 1 7 ⟨[.integer 5]⟩ 8 =
        (.commandSuccess, s₁) ∧
      leafCells 8 (s₁.page 1) = [(0, Mem.int64Bytes 0), (7, Mem.int64Bytes 5)] ∧
      internalNodeInsert ((pagerOpen ⟨fun _ => 0, 0⟩).setPage 1 oneCellPage) 1 1 7 0 9 =
        (.commandSuccess, s₂) ∧
      internalSequence (s₂.page 1) = [.inl 0, .inr 0, .inl 0, .inr 7, .inl 9] := by
  obtain ⟨s₁, h₁, hcells, -⟩ := cellInsertions_edit_lists.1 [.columnInteger]
    ((pagerOpen ⟨fun _ => 0, 0⟩).setPage 1 oneCellPage) 1 1 7 ⟨[.integer 5]⟩ rfl (by decide)
    (by decide)
  obtain ⟨s₂, h₂, hsequence, -⟩ := cellInsertions_edit_lists.2
    ((pagerOpen ⟨fun _ => 0, 0⟩).setPage 1 oneCellPage) 1 1 0 9 7 (by decide) (by decide)
    (by decide) (by decide)
  exact ⟨s₁, s₂, h₁, hcells.trans (by decide), h₂, hsequence.trans (by decide)⟩

end MiniDB
