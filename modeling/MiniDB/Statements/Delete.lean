import MiniDB.Statements.Walk

/-!
# `DELETE` on a stored table

* `unselected`: the cells of a leaf that stay.
* `deleteCells_eq`: one leaf keeps the cells that are not selected.
* `deleteCommand_spec`: every leaf does.
-/

namespace MiniDB

open BPlusTree Pager

variable {s : Pager} {table : Table} {n : ℕ} {σ : Schema} {t : PageTreeAny} {catalog : Page}
  {where_ : Option Expr}

/-- The rows of a leaf that stay. -/
def unselected (σ : Schema) (catalog : Page) (n : ℕ) (where_ : Option Expr) (cells : List Cell) :
    List Cell :=
  cells.filter fun c => ! selected σ catalog n where_ c

/-- The loop over one leaf, from the cells behind those that were kept. -/
theorem deleteCells_eq (hfind : findTable catalog table.tableName = .ok n)
    (hdesc : Describes catalog n σ) {leaf : ℕ} (hleaf : leaf ≠ 0) :
    {rest : List Cell} → (kept : List Cell) → (dirty : Bool) → {s : Pager} → s.Sound →
    s.page 0 = catalog → leaf < s.numPages → leafCells σ.rowSize (s.page leaf) = kept ++ rest →
    CellsDone σ catalog n where_ leaf Prod.mk kept rest (unselected σ catalog n where_ rest) dirty s
      (deleteCells table n σ.rowSize where_ leaf rest.length kept.length dirty s) := by
  intro rest
  induction rest with
  | nil =>
    intro kept dirty s hs _ _ hcells
    exact .nil hs hcells
  | cons c rest ih =>
    intro kept dirty s hs hcat hlt hcells
    have hreads : Reads s table σ.types := by
      subst hcat
      exact hdesc.reads hfind
    have hi : kept.length < (kept ++ c :: rest).length := by simp
    have hrow := hreads.deserializeCell hcells hi
    have hget : (kept ++ c :: rest)[kept.length] = c := by simp
    rw [hget] at hrow
    have hstep : deleteCells table n σ.rowSize where_ leaf (c :: rest).length kept.length dirty s =
        (do
          if ← testRow σ catalog n where_ c.2 then
            deleteCells table n σ.rowSize where_ leaf rest.length kept.length true
              (s.setPage leaf (setNumCells ((s.page leaf).memmove
                (leafNodeCell kept.length σ.rowSize) (leafNodeCell (kept.length + 1) σ.rowSize)
                  (rest.length * leafNodeCellSize σ.rowSize)) (kept.length + rest.length)))
          else
            deleteCells table n σ.rowSize where_ leaf rest.length (kept.length + 1) dirty s) := by
      rw [List.length_cons, deleteCells, hrow, ← hcat]
      rfl
    rw [hstep]
    rcases testRow_cases σ catalog n where_ c with ⟨f, hf⟩ | ⟨hgood, htest⟩
    · rw [hf]
      exact .fault hf
    rw [htest]
    cases hsel : selected σ catalog n where_ c with
    | true =>
      -- the cell is deleted
      have hnum : numCells (s.page leaf) = kept.length + (rest.length + 1) := by
        rw [← length_leafCells σ.rowSize, hcells]
        simp
      have hbound : numCells (s.page leaf) < 256 ^ 4 := Mem.readNat_lt ..
      have hfits : Fits (kept.length + rest.length) := lt_of_le_of_lt (by omega) hbound
      obtain ⟨hremove, hframe, -⟩ := leafCells_removeCell hnum hfits
      obtain ⟨p, hp⟩ : ∃ p, p = setNumCells ((s.page leaf).memmove
        (leafNodeCell kept.length σ.rowSize) (leafNodeCell (kept.length + 1) σ.rowSize)
          (rest.length * leafNodeCellSize σ.rowSize)) (kept.length + rest.length) := ⟨_, rfl⟩
      rw [← hp] at hremove hframe ⊢
      have hpage : (s.setPage leaf p).page leaf = p := by rw [page_setPage, Function.update_self]
      have hev : Evolves s (s.setPage leaf p) {leaf} {leaf} :=
        (Evolves.refl hs).setPage hlt rfl rfl
      have hcells' : leafCells σ.rowSize ((s.setPage leaf p).page leaf) = kept ++ rest := by
        rw [hpage, hremove, hcells, List.eraseIdx_append_of_length_le le_rfl, Nat.sub_self]
        rfl
      have hcat' : (s.setPage leaf p).page 0 = catalog := by
        rw [page_setPage, Function.update_of_ne hleaf.symm, hcat]
      have hun : unselected σ catalog n where_ (c :: rest) =
          unselected σ catalog n where_ rest := by
        simp [unselected, hsel]
      rw [← hpage] at hframe
      exact .write hgood (numPages_setPage s leaf p) hev hframe
        (ih kept true hev.sound hcat' hlt hcells') (by rw [hun])
    | false =>
      -- the cell stays
      have hcells' : leafCells σ.rowSize (s.page leaf) = (kept ++ [c]) ++ rest := by
        rw [hcells, List.append_assoc, List.singleton_append]
      have hlen : (kept ++ [c]).length = kept.length + 1 := by simp
      have hun : (kept ++ [c]) ++ unselected σ catalog n where_ rest =
          kept ++ unselected σ catalog n where_ (c :: rest) := by
        simp [unselected, hsel]
      have hrest := ih (kept ++ [c]) dirty hs hcat hlt hcells'
      rw [hlen] at hrest
      exact .pass hgood hrest hun

/-- `deleteLeaves` is the walk along the leaves. -/
theorem deleteLeaves_eq (rowSize fuel : ℕ) (s : Pager) (leaf : ℕ) :
    deleteLeaves table n rowSize where_ fuel s leaf =
      walkLeaves (fun s leaf => do
        let (dirty, s) ← deleteCells table n rowSize where_ leaf (numCells (s.page leaf)) 0 false s
        return (true, dirty, s)) fuel s leaf := by
  induction fuel generalizing s leaf with
  | zero => rfl
  | succ fuel ih =>
    simp only [deleteLeaves, walkLeaves, ih]
    cases deleteCells table n rowSize where_ leaf (numCells (s.page leaf)) 0 false s <;> rfl

/-- The body of the loop deletes the selected rows of a leaf. -/
theorem leafOp_delete (hfind : findTable catalog table.tableName = .ok n)
    (hdesc : Describes catalog n σ) :
    LeafOp (fun s leaf => do
        let (dirty, s) ← deleteCells table n σ.rowSize where_ leaf (numCells (s.page leaf)) 0
          false s
        return (true, dirty, s))
      catalog σ.rowSize (unselected σ catalog n where_) (Faulty σ catalog n where_) where
  run {s leaf next cells} hs hcat hleaf hlt hne := by
    have hnum := hleaf.length_cells
    rcases deleteCells_eq hfind hdesc hne [] false hs hcat
      hlt hleaf.cells with ⟨f, hbad, herr⟩ |
      ⟨hgood, dirty, s', hrun, hnum', hev, hdirty, -, hcells, hframe⟩
    · refine Or.inl ⟨f, hbad, ?_⟩
      rw [hnum]
      rw [List.length_nil] at herr
      simp only [herr, bind, Except.bind]
    · refine Or.inr ⟨hgood, dirty, s', if dirty then pagerMarkDirty s' leaf else s', ?_, rfl, ?_,
        ?_, ?_⟩
      · rw [hnum]
        rw [List.length_nil] at hrun
        simp only [hrun, bind, Except.bind]
        rfl
      · cases dirty <;> exact hnum'
      · cases dirty with
        | true =>
          exact hev.settle
        | false =>
          obtain rfl : s' = s := hdirty.resolve_left (by decide)
          exact Evolves.refl hs
      · have hpage : (if dirty then pagerMarkDirty s' leaf else s').page leaf = s'.page leaf := by
          cases dirty <;> rfl
        rw [hpage]
        exact ⟨by rw [hcells, hleaf.cells]; rfl, hframe⟩

theorem unselected_keys (cells : List Cell) :
    ((unselected σ catalog n where_ cells).map Prod.fst).Sublist (cells.map Prod.fst) :=
  (List.filter_sublist ..).map _

/-- **`DELETE` removes the selected rows from every leaf**, unless a row cannot be tested. -/
theorem deleteCommand_spec (h : Holds s table n σ t) (where_ : Option Expr) :
    (∃ f, (∃ c ∈ t.2.contents, Faulty σ (s.page 0) n where_ f c) ∧
        deleteCommand s table table.tableName where_ = .error f) ∨
      ((∀ f, ∀ c ∈ t.2.contents, ¬ Faulty σ (s.page 0) n where_ f c) ∧ ∃ s',
        deleteCommand s table table.tableName where_ = .ok (.commandSuccess, s') ∧
        s'.numPages = s.numPages ∧ Evolves s s' {q | q ∈ t.2.labels} ∅ ∧
        EditedLeaves σ.rowSize (unselected σ (s.page 0) n where_) s s' t ∧
        Represents s' σ.rowSize ⟨t.1, t.2.mapCells (unselected σ (s.page 0) n where_)⟩) := by
  obtain ⟨s₁, s₂, hget, hfirst, hf⟩ := h.firstLeaf
  have h₂ := h.fetched hf
  have hcat : s₂.page 0 = s.page 0 := by rw [hf.page]
  have hrun : deleteCommand s table table.tableName where_ =
      deleteLeaves table n σ.rowSize where_ walkFuel s₂ t.2.entry := by
    simp only [deleteCommand, h.find, bind, Except.bind, hget, hfirst, h.describes.rowSize]
  rw [hrun, deleteLeaves_eq, ← hcat]
  rcases h₂.walk (leafOp_delete h₂.find h₂.describes) unselected_keys with
    hfault | ⟨hgood, s', hrun', hnum, hev, hedit, hrep⟩
  · exact Or.inl hfault
  · exact Or.inr ⟨hgood, s', hrun', hnum.trans hf.numPages, hf.evolves.trans hev, hedit.fetched hf,
      hrep⟩

end MiniDB
