import MiniDB.Storage.Insertion

/-!
# The pages that an insertion marks

`Evolves` bounds the dirty pages from below.  This is the bound from above, for an insertion that
splits no internal page but the root: besides the leaf and the new pages it marks the root alone,
and none of the children that the root hangs on its halves.

* `MarksOnly`: which pages may have become dirty.
* `insertParent_marks`: the separator goes into the root.
* `insertRow_marks`: **the row goes into a full leaf under the root**.
-/

namespace MiniDB

open BPlusTree Pager

/-- Every page that has become dirty is in `D`. -/
def MarksOnly (s s' : Pager) (D : Set ℕ) : Prop :=
  ∀ q, s'.pageDirty q = true → s.pageDirty q = true ∨ q ∈ D

variable {s s' s'' : Pager} {D E : Set ℕ} {n k : ℕ}

theorem MarksOnly.mono (h : MarksOnly s s' D) (hsub : D ⊆ E) : MarksOnly s s' E :=
  fun q hq => (h q hq).imp_right fun hD => hsub hD

theorem MarksOnly.trans (h : MarksOnly s s' D) (h' : MarksOnly s' s'' D) : MarksOnly s s'' D :=
  fun q hq => (h' q hq).elim (h q) Or.inr

theorem MarksOnly.of_eq (h : s'.pageDirty = s.pageDirty) : MarksOnly s s' D :=
  fun _ hq => Or.inl (h ▸ hq)

/-- One more page is marked. -/
theorem MarksOnly.markDirty (h : MarksOnly s s' D) (hn : n ∈ D) :
    MarksOnly s (pagerMarkDirty s' n) D := by
  intro q hq
  rw [pageDirty_pagerMarkDirty] at hq
  by_cases heq : q = n
  · exact Or.inr (heq ▸ hn)
  · rw [Function.update_of_ne heq] at hq
    exact h q hq

/-- A fetch marks nothing and may add a page. -/
theorem marks_pagerGetPage (h : pagerGetPage s k = some s') :
    s'.pageDirty = s.pageDirty ∧ s.numPages ≤ s'.numPages := by
  unfold pagerGetPage at h
  split at h
  · cases h
  split at h
  · cases h
    exact ⟨rfl, le_rfl⟩
  · dsimp only at h
    split at h
    · cases h
    · cases h
      exact ⟨rfl, le_max_left _ _⟩

/-- **The loop over the moved children marks nothing.** -/
theorem marks_setParentPointers {cs : List (ℕ × ℕ)} {b : Bool}
    (h : setParentPointers cs s = (b, s')) : s'.pageDirty = s.pageDirty := by
  induction cs generalizing s with
  | nil =>
    cases h
    rfl
  | cons c cs ih =>
    unfold setParentPointers at h
    split at h
    · cases h
      rfl
    next hget => rw [ih h, pageDirty_setPage, (marks_pagerGetPage hget).1]

/-- Splitting the root marks it and its two new halves. -/
theorem splitInternalRoot_marks (s : Pager) (old : ℕ) (keys : List Int64) (children : List ℕ) :
    MarksOnly s (splitInternalRoot s old keys children).2 {q | q = old ∨ s.numPages ≤ q} := by
  unfold splitInternalRoot
  dsimp only
  split
  · exact MarksOnly.of_eq rfl
  next s₁ hget₁ =>
    obtain ⟨hdirty₁, hnum₁⟩ := marks_pagerGetPage hget₁
    split
    · exact MarksOnly.of_eq hdirty₁
    next s₂ hget₂ =>
      have hdirty₂ := (marks_pagerGetPage hget₂).1.trans hdirty₁
      split
      next heq => exact MarksOnly.of_eq ((marks_setParentPointers heq).trans hdirty₂)
      next s₃ heq =>
        have hset : MarksOnly s s₃ {q | q = old ∨ s.numPages ≤ q} :=
          MarksOnly.of_eq ((marks_setParentPointers heq).trans hdirty₂)
        exact ((MarksOnly.markDirty hset (Or.inr le_rfl)).markDirty (Or.inr hnum₁)).markDirty
          (Or.inl rfl)

/-- **A separator that goes into the root** marks the root and new pages. -/
theorem insertParent_marks {fuel left right : ℕ} {sep : Int64} {r : CommandResult}
    (hroot : isRoot (s.page n) = 1)
    (hrun : insertParent (fuel + 1) s n sep left right = .ok (r, s')) :
    MarksOnly s s' {q | q = n ∨ s.numPages ≤ q} := by
  rcases Nat.lt_or_ge (numCells (s.page n)) internalNodeMaxKeys with hroom | hfull
  · rw [insertParent, promoteInto_of_lt hroom, internalNodeInsert,
      if_neg (not_le.mpr hroom)] at hrun
    cases hrun
    exact MarksOnly.markDirty (MarksOnly.of_eq rfl) (Or.inl rfl)
  · have hmarks := splitInternalRoot_marks s n
      (tempKeys (s.page n) (internalNodeFind (s.page n) sep) sep)
      (tempChildren (s.page n) (internalNodeFind (s.page n) sep) left right)
    rw [insertParent_of_result hfull (splitInternalStep_root hroot)] at hrun
    rwa [Except.ok.inj hrun] at hmarks

/-- **A row that goes into a full leaf under the root** marks the leaf, the root and new pages. -/
theorem insertRow_marks {table : Table} {types : List ColumnType} {key : Int64} {row : Row}
    {leaf root next : ℕ} {cells : List Cell} {r : CommandResult} (hs : s.Sound)
    (hreads : Reads s table types)
    (hleaf : LeafPage (rowWidth types) (s.page leaf) cells next)
    (hchild : ChildOf (s.page leaf) root)
    (hfull : cells.length = leafNodeMaxCells (rowWidth types)) (hsorted : Tree.Sorted cells)
    (hkey : ∀ d ∈ cells, d.1 ≠ key) (hrow : (rowBytes row.values).length = rowWidth types)
    (hroom : s.numPages < tablesMaxPages) (hlt : leaf < s.numPages) (hroot_lt : root < s.numPages)
    (hroot : isRoot (s.page root) = 1)
    (hrun : insertRow s table leaf key row (rowWidth types) = .ok (r, s')) :
    MarksOnly s s' {q | q = leaf ∨ q = root ∨ s.numPages ≤ q} := by
  rcases insertLeaf_cases (leafNodeMaxCells (rowWidth types)) key (rowBytes row.values) s.numPages
    (.leaf leaf cells : PageTree 0) with ⟨hlt', -⟩ | ⟨-, a, c, b, hins, ha, -⟩
  · exact absurd hfull hlt'.ne
  have hne : root ≠ leaf := by
    rintro rfl
    rw [hchild.isRoot] at hroot
    exact absurd hroot (by decide)
  obtain ⟨s₁, hstep, hnum, hev, hdirty, -⟩ := splitLeafNode_child hs hreads hleaf hchild hfull
    hsorted hkey hrow hins ha hroom hlt hroot_lt
  rw [insertRow_full table key row hleaf hfull.ge, splitLeafNode_of_step hstep] at hrun
  have hpage : s₁.page root = s.page root := by
    refine hev.page root ?_
    rintro (heq | heq)
    · exact hne heq
    · exact hroot_lt.ne heq
  have hfirst : MarksOnly s s₁ {q | q = leaf ∨ q = root ∨ s.numPages ≤ q} := by
    intro q hq
    rcases (hdirty q).mp hq with hq | hq | hq
    · exact Or.inl hq
    · exact Or.inr (Or.inl hq)
    · exact Or.inr (Or.inr (Or.inr hq.ge))
  refine hfirst.trans ((insertParent_marks (hpage ▸ hroot) hrun).mono ?_)
  rintro q (hq | hq)
  · exact Or.inr (Or.inl hq)
  · exact Or.inr (Or.inr (by omega))

end MiniDB
