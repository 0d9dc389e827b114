import MiniDB.Storage.InsertRoot

/-!
# Running out of pages half way

The splits of an insertion take one page after the other, and nothing is taken back when there is no
page for the next one.  What the pages hold then is not a tree any more.

* `Lost`: no ordered tree hangs from a page; `Lost.parent`: then none hangs from its parent either.
* `insertRow_subtree_exhausted`: an inner page below the root was wiped.
* `insertRow_exhausted`: **an insertion that runs out of pages after the first one leaves no tree**.
-/

namespace MiniDB

open BPlusTree Pager

variable {s : Pager} {m : ℕ → Page} {rowSize : ℕ}

/-- No ordered tree hangs from the page. -/
def Lost (m : ℕ → Page) (rowSize page : ℕ) : Prop :=
  ∀ (t : PageTreeAny) next lo hi, t.2.page = page → Stored m rowSize t.2 next →
    ¬ t.2.Ordered lo hi

/-- An inner page leads to all of its children. -/
theorem Lost.parent {seps : List Int64} {children : List ℕ} {parent child : ℕ}
    (h : Lost m rowSize child) (hp : InternalPage (m parent) seps children)
    (hc : child ∈ children) : Lost m rowSize parent := by
  rintro ⟨_ | height, n⟩ next lo hi rfl hst hord
  · have htype : nodeType (m n.page) = nodeLeaf := LeafPage.type hst
    exact absurd (htype.symm.trans hp.type) (by decide)
  · have hchildren : internalChildren (m n.page) = n.kids.children.map Tree.page := hst.1.children
    have hp' := hp.children
    rw [show internalChildren (m (Tree.page n)) = _ from hchildren] at hp'
    rw [← hp'] at hc
    obtain ⟨d, hd, rfl⟩ := List.mem_map.mp hc
    obtain ⟨e, hstd, -⟩ := hst.2.exists_of_mem hd
    obtain ⟨lo', hi', hordd⟩ := Kids.Ordered.exists_of_mem hord hd
    exact h ⟨height, d⟩ e lo' hi' rfl hstd hordd

/-- An inner page whose cells were wiped, and whose number of cells was not. -/
theorem lost_wiped {seps : List Int64} {children : List ℕ} {n : ℕ} {p : Page}
    (hp : InternalPage p seps children) (hmany : 2 ≤ seps.length)
    (hwiped : m n = p.zero internalNodeHeaderSize internalNodeSpaceForCells) :
    Lost m rowSize n := by
  have hheader : header (m n) = header p := by
    rw [hwiped]
    exact header_zero le_rfl
  rintro ⟨_ | height, q⟩ next lo hi rfl hst hord
  · have htype : nodeType (m q.page) = nodeLeaf := LeafPage.type hst
    have htype' : nodeType (m q.page) = nodeType p := by
      rw [nodeType_eq, nodeType_eq]
      exact congrArg Header.type hheader
    exact absurd ((htype'.symm.trans htype).symm.trans hp.type) (by decide)
  · have hkeys : internalKeys (m q.page) = q.kids.seps := hst.1.keys
    have hlen : (internalKeys (m q.page)).length = seps.length := by
      rw [length_internalKeys, ← hp.length_seps, numCells_eq, numCells_eq]
      exact congrArg Header.cells hheader
    have hasc : (internalKeys (m q.page)).Pairwise (· < ·) := hkeys ▸ hord.pairwise_seps
    -- the first two keys are the same bytes
    have hlt := List.pairwise_iff_getElem.mp hasc 0 1 (by omega) (by omega) Nat.zero_lt_one
    rw [getElem_internalKeys, getElem_internalKeys] at hlt
    have hsame : internalNodeKey (m q.page) 0 = internalNodeKey (m q.page) 1 := by
      have hwiped' : m q.page = p.zero internalNodeHeaderSize internalNodeSpaceForCells := hwiped
      refine Mem.readInt64_congr ?_
      rw [hwiped', Mem.read_zero_of_sub (by decide) (by decide),
        Mem.read_zero_of_sub (by decide) (by decide)]
    rw [hsame] at hlt
    exact absurd hlt (lt_irrefl _)

/-! ## A subtree -/

section Subtree

variable {table : Table} {types : List ColumnType} {key : Int64} {row : Row} {next parent : ℕ}

/-- There was no page for the split of an inner node of the subtree. -/
structure SubtreeExhausted (s : Pager) (table : Table) (types : List ColumnType) (key : Int64)
    (row : Row) {h : ℕ} (t : PageTree h) (s' : Pager) : Prop where
  run : insertRow s table (t.leafFor key).page key row (rowWidth types) = .ok (.failure, s')
  lost : Lost s'.page (rowWidth types) t.page
  others : ∀ q < s.numPages, q ∉ t.labels → s'.page q = s.page q

/-- **A subtree below the root, when the pages run out in it.** -/
theorem insertRow_subtree_exhausted (hreads : Reads s table types) (hs : s.Sound)
    (hmax : 1 ≤ leafNodeMaxCells (rowWidth types))
    (hrow : (rowBytes row.values).length = rowWidth types) (hfirst : s.numPages < tablesMaxPages) :
    {h : ℕ} → {t : PageTree h} → {next parent : ℕ} → {lo : WithBot Int64} → {hi : WithTop Int64} →
    Stored s.page (rowWidth types) t next → ChildOf (s.page t.page) parent →
    GoodTree s (rowWidth types) t lo hi → lo ≤ key → (key : WithTop Int64) < hi →
    (∀ a ∈ (t.leafFor key).cells, a.1 ≠ key) → parent < s.numPages →
    tablesMaxPages < (rowInserted s types key row t).2 →
    ∃ s', SubtreeExhausted s table types key row t s'
  | 0, l, _, _, _, _, _, _, ht, _, _, _, _, hroom => by
    -- the page for a leaf is there
    rw [rowInserted, next_insert _ _ s.numPages ht.sized] at hroom
    split at hroom <;> simp only [Tree.cuts, List.length_nil] at hroom <;> omega
  | h + 1, n, next, parent, lo, hi, hst, hchild, ht, hlo, hhi, hkey, hparent, hroom => by
    obtain ⟨lo', hi', hlo', hhi', hpick⟩ := ht.pick hlo hhi
    have hmem := Kids.pick_mem_children key n.kids
    obtain ⟨e, hstp, hchildp⟩ := hst.2.exists_of_mem hmem
    obtain ⟨hn, -⟩ := ht.disjoint key
    by_cases hbelow : tablesMaxPages < (rowInserted s types key row (n.kids.pick key)).2
    · -- further down already
      obtain ⟨s', hsub⟩ := insertRow_subtree_exhausted hreads hs hmax hrow hfirst hstp hchildp hpick
        hlo' hhi' hkey ht.page_lt hbelow
      refine ⟨s', hsub.run, ?_, ?_⟩
      · refine hsub.lost.parent (?_ : InternalPage _ n.kids.seps _) (List.mem_map_of_mem hmem)
        rw [hsub.others _ ht.page_lt hn]
        exact hst.1
      · intro q hq hnot
        exact hsub.others q hq fun hq' => hnot (Multiset.mem_of_le (Tree.labels_le_of_mem hmem) hq')
    · -- at this node
      have hheight : h + 1 < s.numPages := Tree.height_lt ht.nodup ht.pages
      obtain ⟨fuel, s₁, hsub⟩ := insertRow_subtree hreads hs hmax hrow hstp hchildp hpick hlo' hhi'
        hkey ht.page_lt (not_lt.mp hbelow)
      obtain ⟨hnpage, -, hev⟩ := hsub.placed hstp hst ht
      have hinsert : rowInserted s types key row n = closeNode internalNodeMaxKeys n.page
          (rowInserted s types key row (n.kids.pick key)).2 (placed s types key row n) := rfl
      rw [hinsert, next_closeNode] at hroom
      have hgt : internalNodeMaxKeys < (placed s types key row n).seps.length := by
        by_contra hle
        rw [if_neg hle] at hroom
        exact hbelow hroom
      rw [if_pos hgt] at hroom
      have hov : n.Overflows (leafNodeMaxCells (rowWidth types)) internalNodeMaxKeys key :=
        (lt_length_seps_place s.numPages ht.sized).mp hgt
      obtain ⟨l, sep, r, hsplit⟩ := hov.1.exists_split (v := rowBytes row.values) s.numPages
        hpick.sized
      obtain ⟨fuel, rfl⟩ := hsub.exists_fuel hs ((Nat.lt_succ_self h).trans hheight)
      obtain ⟨-, -, hrun⟩ := hsub.split hsplit
      have hp₁ : InternalPage (s₁.page n.page) n.kids.seps (n.kids.children.map Tree.page) :=
        hnpage ▸ hst.1
      have hnone : s₁.numPages = tablesMaxPages := by
        rw [hsub.numPages]
        omega
      have hfull : internalNodeMaxKeys ≤ n.kids.seps.length := hov.2
      refine ⟨_, hrun.trans (insertParent_wiped hp₁ hfull
        (by rw [hnpage]; exact hchild.isRoot) hnone), ?_, ?_⟩
      · refine lost_wiped hp₁ (le_trans (by decide) hfull) ?_
        rw [page_setPage, Function.update_self]
      · intro q hq hnot
        have hne : q ≠ n.page := fun heq => hnot (heq ▸ Tree.page_mem_labels n)
        rw [page_setPage, Function.update_of_ne hne]
        exact hev.page q fun h => h.elim hnot fun hge => absurd hq (not_lt.mpr hge)

end Subtree

/-! ## The root -/

section Root

variable {table : Table} {types : List ColumnType} {key : Int64} {row : Row}

/-- The pages of the right half are pages of the child that was split, or new ones. -/
theorem mem_labels_right {h : ℕ} {t l r : PageTree h} {sep : Int64}
    (hsplit : (rowInserted s types key row t).1 = .split l sep r) {q : ℕ} (hq : q ∈ r.labels) :
    q ∈ t.labels ∨ s.numPages ≤ q := by
  have hlabels := (labels_insert (leafNodeMaxCells (rowWidth types)) internalNodeMaxKeys key
    (rowBytes row.values) s.numPages t).2
  rw [rowInserted] at hsplit
  rw [hsplit, Ins.kids, Kids.children_cons, Kids.children_one, List.map_cons, List.map_singleton,
    List.sum_cons, List.sum_singleton] at hlabels
  have hmem : q ∈ l.labels + r.labels := Multiset.mem_add.mpr (Or.inr hq)
  rw [hlabels] at hmem
  exact (Multiset.mem_add.mp hmem).imp_right fun hnew => (mem_newLabels.mp hnew).1

/-- **The child of the root was split, and the root was not**: the leaf links run through a page
that the root does not lead to. -/
theorem SubtreeInserted.not_represents {h e fuel : ℕ} {n : PageTree (h + 1)} {l r : PageTree h}
    {sep : Int64} {s₁ s' : Pager}
    (hsub : SubtreeInserted s table types key row (n.kids.pick key) n.page e fuel s₁)
    (hsplit : (rowInserted s types key row (n.kids.pick key)).1 = .split l sep r)
    (ht : Represents s (rowWidth types) ⟨h + 1, n⟩)
    (hpick : Stored s.page (rowWidth types) (n.kids.pick key) e) (hpages : s'.page = s₁.page) :
    ¬ ∃ t', Represents s' (rowWidth types) t' ∧ t'.2.page = n.page := by
  have hst : Stored s.page (rowWidth types) n 0 := ht.stored
  have hgood : GoodTree s (rowWidth types) n ⊥ ⊤ := ht.good
  obtain ⟨-, hothers⟩ := hgood.disjoint key
  obtain ⟨hnpage, hkids, -⟩ := hsub.placed hpick hst hgood
  obtain ⟨hl, hk, -⟩ := hsub.split hsplit
  have hright : r.entry ∈ r.labels := Tree.entry_mem_labels r
  rintro ⟨⟨_ | h', t'⟩, ht', hpage⟩
  · have htype : nodeType (s'.page t'.page) = nodeLeaf := LeafPage.type ht'.stored
    have hpage' : t'.page = n.page := hpage
    rw [hpage', hpages, hnpage, hst.1.type] at htype
    exact absurd htype (by decide)
  · have hst' : Stored s'.page (rowWidth types) t' 0 := ht'.stored
    have hpage' : t'.page = n.page := hpage
    have hsame : n.kids.children.map Tree.page = t'.kids.children.map Tree.page := by
      rw [← hst.1.children, ← hst'.1.children, hpage', hpages, hnpage]
    have hentry : r.entry = 0 := by
      rw [hk] at hkids
      refine Kids.Linked.entry_of_place hkids hst'.2 hsame hl ?_ ?_
      · intro c _ d e e' hcd hc hd
        rw [hpages] at hd
        exact hc.1.ends hd.1 hcd
      · intro c hc heq
        obtain ⟨hnot, hlt⟩ := hothers c hc _ (Tree.entry_mem_labels c)
        rw [heq] at hright
        exact (mem_labels_right hsplit hright).elim hnot fun hge => absurd hlt (not_lt.mpr hge)
    rw [hentry] at hright
    rcases mem_labels_right hsplit hright with hmem | hge
    · exact ht.zero (Multiset.mem_of_le
        (Tree.labels_le_of_mem (Kids.pick_mem_children key n.kids)) hmem)
    · exact absurd hgood.page_lt (not_lt.mpr (hge.trans (Nat.zero_le _)))

/-- **An insertion that runs out of pages after the first one leaves no tree.** -/
theorem insertRow_exhausted (hreads : Reads s table types) (hs : s.Sound)
    (hmax : 1 ≤ leafNodeMaxCells (rowWidth types))
    (hrow : (rowBytes row.values).length = rowWidth types) (hfirst : s.numPages < tablesMaxPages)
    {t : PageTreeAny} (ht : Represents s (rowWidth types) t)
    (hkey : ∀ a ∈ (t.2.leafFor key).cells, a.1 ≠ key)
    (hleaf : isRoot (s.page (t.2.leafFor key).page) ≠ 1)
    (hroom : tablesMaxPages < (treeInserted s types key row t).2) :
    ∃ s', insertRow s table (t.2.leafFor key).page key row (rowWidth types) = .ok (.failure, s') ∧
      ¬ ∃ t', Represents s' (rowWidth types) t' ∧ t'.2.page = t.2.page := by
  obtain ⟨_ | h, n⟩ := t
  · exact absurd ht.root hleaf
  have hst : Stored s.page (rowWidth types) n 0 := ht.stored
  have hgood : GoodTree s (rowWidth types) n ⊥ ⊤ := ht.good
  have hroot : isRoot (s.page n.page) = 1 := ht.root
  obtain ⟨lo', hi', hlo', hhi', hpick⟩ := hgood.pick bot_le (WithTop.coe_lt_top key)
  have hmem := Kids.pick_mem_children key n.kids
  obtain ⟨e, hstp, hchildp⟩ := hst.2.exists_of_mem hmem
  obtain ⟨hn, hothers⟩ := hgood.disjoint key
  have hlt : n.page < s.numPages := hgood.page_lt
  by_cases hbelow : tablesMaxPages < (rowInserted s types key row (n.kids.pick key)).2
  · -- an inner page below the root was wiped
    obtain ⟨s', hsub⟩ := insertRow_subtree_exhausted hreads hs hmax hrow hfirst hstp hchildp hpick
      hlo' hhi' hkey hlt hbelow
    refine ⟨s', hsub.run, ?_⟩
    have hp : InternalPage (s'.page n.page) n.kids.seps (n.kids.children.map Tree.page) := by
      rw [hsub.others _ hlt hn]
      exact hst.1
    rintro ⟨t', ht', hpage⟩
    exact hsub.lost.parent hp (List.mem_map_of_mem hmem) t' 0 ⊥ ⊤ hpage ht'.stored ht'.good.ordered
  · -- at the root
    have hheight : h + 1 < s.numPages := Tree.height_lt hgood.nodup hgood.pages
    obtain ⟨fuel, s₁, hsub⟩ := insertRow_subtree hreads hs hmax hrow hstp hchildp hpick hlo' hhi'
      hkey hlt (not_lt.mp hbelow)
    obtain ⟨hnpage, -, hev⟩ := hsub.placed hstp hst hgood
    have hnext := next_insert key (rowBytes row.values) s.numPages hpick.sized
    have hov : n.Overflows (leafNodeMaxCells (rowWidth types)) internalNodeMaxKeys key := by
      by_contra hno
      rw [treeInserted, next_insertRoot_node _ _ _ hgood.sized, if_neg hno, add_zero] at hroom
      exact hbelow (hroom.trans_eq hnext.symm)
    rw [treeInserted, next_insertRoot_node _ _ _ hgood.sized, if_pos hov] at hroom
    obtain ⟨l, sep, r, hsplit⟩ := hov.1.exists_split (v := rowBytes row.values) s.numPages
      hpick.sized
    obtain ⟨fuel, rfl⟩ := hsub.exists_fuel hs ((Nat.lt_succ_self h).trans hheight)
    obtain ⟨-, -, hrun⟩ := hsub.split hsplit
    have hp₁ : InternalPage (s₁.page n.page) n.kids.seps (n.kids.children.map Tree.page) :=
      hnpage ▸ hst.1
    have hroot₁ : isRoot (s₁.page n.page) = 1 := hnpage ▸ hroot
    have hnum : tablesMaxPages < s₁.numPages + 2 := by
      rw [hsub.numPages]
      exact hroom.trans_eq (congrArg (· + 2) hnext.symm)
    have hbounded := hsub.evolves.sound.bounded
    obtain ⟨s', hfail, hview⟩ : ∃ s',
        insertParent (fuel + 1) s₁ n.page sep l.page r.page = .ok (.failure, s') ∧
          s'.page = s₁.page := by
      by_cases hnone : s₁.numPages = tablesMaxPages
      · exact ⟨s₁, insertParent_root_full hp₁ hov.2 hroot₁ hnone, rfl⟩
      · obtain ⟨s', hfail, hview⟩ := insertParent_root_one fuel r.page hp₁
          hov.2 hroot₁ hsub.evolves.sound (by omega)
        exact ⟨s', hfail, hview.page⟩
    exact ⟨s', hrun.trans hfail, hsub.not_represents hsplit ht hstp hview⟩

end Root

end MiniDB
