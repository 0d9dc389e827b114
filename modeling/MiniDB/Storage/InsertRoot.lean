import MiniDB.Storage.Insertion

/-!
# Inserting a row into a whole tree

* `Represents`: the pages hold a whole tree that keeps the invariant.
* `insertRow_represents`: **inserting a row into the pages inserts it into the tree**.
-/

namespace MiniDB

open BPlusTree Pager

/-- A tree over keys and row bytes, of any height. -/
abbrev PageTreeAny := AnyTree Int64 (List UInt8)

/-- The pages hold the tree, whose root is marked as such, and the tree keeps the invariant. -/
structure Represents (s : Pager) (rowSize : ℕ) (t : PageTreeAny) : Prop where
  stored : Stored s.page rowSize t.2 0
  root : isRoot (s.page t.2.page) = 1
  good : GoodTree s rowSize t.2 ⊥ ⊤
  zero : 0 ∉ t.2.labels

variable {s : Pager} {rowSize : ℕ} {table : Table} {types : List ColumnType} {key : Int64}
  {row : Row}

/-- Writes to other pages leave a tree alone. -/
theorem Represents.frame {s' : Pager} {t : PageTreeAny} (ht : Represents s rowSize t)
    (hpages : ∀ q ∈ t.2.labels, s'.page q = s.page q) (hnum : s.numPages ≤ s'.numPages) :
    Represents s' rowSize t where
  stored := ht.stored.frame hpages
  root := by
    rw [hpages _ (Tree.page_mem_labels t.2)]
    exact ht.root
  good := ⟨ht.good.ordered, ht.good.sized, ht.good.nodup,
    fun q hq => (ht.good.pages q hq).trans_le hnum⟩
  zero := ht.zero

/-- What inserting the row makes of a whole tree. -/
abbrev treeInserted (s : Pager) (types : List ColumnType) (key : Int64) (row : Row)
    (t : PageTreeAny) : PageTreeAny × ℕ :=
  insertRoot (leafNodeMaxCells (rowWidth types)) internalNodeMaxKeys key (rowBytes row.values)
    s.numPages t

/-- The tree after an insertion keeps what does not depend on the pages. -/
theorem Represents.good_inserted {s' : Pager} {t : PageTreeAny}
    (ht : Represents s (rowWidth types) t) (hmax : 1 ≤ leafNodeMaxCells (rowWidth types))
    (hkey : ∀ a ∈ (t.2.leafFor key).cells, a.1 ≠ key)
    (hnum : s'.numPages = (treeInserted s types key row t).2) :
    GoodTree s' (rowWidth types) (treeInserted s types key row t).1.2 ⊥ ⊤ ∧
      (0 < s.numPages → 0 ∉ (treeInserted s types key row t).1.2.labels) := by
  obtain ⟨hle, hlab⟩ := labels_insertRoot
    (v := rowBytes row.values) s.numPages t
  refine ⟨⟨ordered_insertRoot hmax _ ht.good.ordered hkey,
    sized_insertRoot hmax (by decide) _ ht.good.sized, ?_, fun q hq => ?_⟩, fun hpos hq => ?_⟩
  · rw [hlab]
    refine Multiset.nodup_add.mpr ⟨ht.good.nodup, nodup_newLabels _ _, ?_⟩
    exact Multiset.disjoint_left.mpr fun hq hq' =>
      absurd (ht.good.pages _ hq) (not_lt.mpr (mem_newLabels.mp hq').1)
  · rw [hlab] at hq
    rw [hnum]
    rcases Multiset.mem_add.mp hq with hq | hq
    · exact (ht.good.pages q hq).trans_le hle
    · exact (mem_newLabels.mp hq).2
  · rw [hlab] at hq
    rcases Multiset.mem_add.mp hq with hq | hq
    · exact ht.zero hq
    · have := (mem_newLabels.mp hq).1
      omega

/-- The row is in the tree. -/
structure TreeInserted (s : Pager) (table : Table) (types : List ColumnType) (key : Int64)
    (row : Row) (t : PageTreeAny) (s' : Pager) : Prop where
  run : insertRow s table (t.2.leafFor key).page key row (rowWidth types) =
    .ok (.commandSuccess, s')
  calls : ∃ o, insertRowStep s table (t.2.leafFor key).page key row (rowWidth types) = .ok o ∧
    ∀ c, Calls o c → CallIn s (rowWidth types) key t.2 c
  numPages : s'.numPages = (treeInserted s types key row t).2
  evolves : Evolves s s' {q | q ∈ t.2.labels ∨ s.numPages ≤ q}
    (movedPages s (rowCuts types key t.2))
  represents : Represents s' (rowWidth types) (treeInserted s types key row t).1

/-- What is left to check of the pages: that they hold the new tree, with its root marked. -/
theorem Represents.inserted {s' : Pager} {t : PageTreeAny}
    (ht : Represents s (rowWidth types) t) (hmax : 1 ≤ leafNodeMaxCells (rowWidth types))
    (hkey : ∀ a ∈ (t.2.leafFor key).cells, a.1 ≠ key)
    (hrun : insertRow s table (t.2.leafFor key).page key row (rowWidth types) =
      .ok (.commandSuccess, s'))
    (hcalls : ∃ o, insertRowStep s table (t.2.leafFor key).page key row (rowWidth types) = .ok o ∧
      ∀ c, Calls o c → CallIn s (rowWidth types) key t.2 c)
    (hnum : s'.numPages = (treeInserted s types key row t).2)
    (hev : Evolves s s' {q | q ∈ t.2.labels ∨ s.numPages ≤ q}
      (movedPages s (rowCuts types key t.2)))
    (hstored : Stored s'.page (rowWidth types) (treeInserted s types key row t).1.2 0)
    (hroot : isRoot (s'.page (treeInserted s types key row t).1.2.page) = 1) :
    TreeInserted s table types key row t s' := by
  obtain ⟨hgood, hzero⟩ := ht.good_inserted hmax hkey hnum
  exact ⟨hrun, hcalls, hnum, hev, hstored, hroot, hgood, hzero (Nat.zero_lt_of_lt ht.good.page_lt)⟩

section Root

variable (hreads : Reads s table types) (hs : s.Sound)
  (hmax : 1 ≤ leafNodeMaxCells (rowWidth types))
  (hrow : (rowBytes row.values).length = rowWidth types)

include hreads hs hmax hrow

/-- The root is a leaf. -/
theorem insertRow_rootLeaf {l : PageTree 0} (ht : Represents s (rowWidth types) ⟨0, l⟩)
    (hkey : ∀ a ∈ l.cells, a.1 ≠ key)
    (hroom : (treeInserted s types key row ⟨0, l⟩).2 ≤ tablesMaxPages) :
    ∃ s', TreeInserted s table types key row ⟨0, l⟩ s' := by
  have hlt : l.page < s.numPages := ht.good.page_lt
  rcases insertRoot_leaf_cases
    (v := rowBytes row.values) s.numPages l with
    ⟨hlen, heq⟩ | ⟨hge, a, c, b, hins, ha, heq⟩
  · have hout : treeInserted s types key row ⟨0, l⟩ =
        (⟨0, .leaf l.page (insertCell key (rowBytes row.values) l.cells)⟩, s.numPages) := heq
    obtain ⟨s', hrun, hnum, hev, hpage, hroot, -⟩ := insertRow_room hs ht.stored
      hlt ht.good.ordered.1 hkey hrow hlen
    obtain ⟨o, hstep⟩ := insertRowStep_room table key row ht.stored hlen
    refine ⟨s', ht.inserted hmax hkey hrun ⟨_, hstep, fun c hc => absurd hc (not_calls_result o c)⟩
      ?_ (hev.mono (fun q hq => ?_) (Set.empty_subset _)) ?_ ?_⟩
    · rw [hout, hnum]
    · exact Or.inl (hq ▸ Multiset.mem_singleton_self _)
    · rw [hout]
      exact hpage
    · rw [hout]
      exact hroot.trans ht.root
  · have hout : treeInserted s types key row ⟨0, l⟩ = (⟨1, .node l.page
        (.cons (.leaf (s.numPages + 1) a) c.1 (.one (.leaf s.numPages (c :: b))))⟩,
          s.numPages + 2) := heq
    rw [hout] at hroom
    have hfull : l.cells.length = leafNodeMaxCells (rowWidth types) :=
      le_antisymm ht.good.sized hge
    obtain ⟨s', hstep, hnum, hev, hroot, hleft, hright⟩ := splitLeafNode_root hs hreads ht.stored
      ht.root hfull ht.good.ordered.1 hkey hrow hins ha hroom hlt
    have hrun := (insertRow_full table key row ht.stored hge).trans (splitLeafNode_of_result hstep)
    have hstep' := (insertRowStep_full table key row ht.stored hge).trans hstep
    refine ⟨s', ht.inserted hmax hkey hrun ⟨_, hstep', fun c hc => absurd hc
      (not_calls_result _ c)⟩ ?_ (hev.mono ?_ (Set.empty_subset _)) ?_ ?_⟩
    · rw [hout, hnum]
    · rintro q (hq | hq)
      · exact Or.inl (hq ▸ Multiset.mem_singleton_self _)
      · exact Or.inr hq
    · rw [hout]
      exact ⟨hroot.1, hleft, hright⟩
    · rw [hout]
      exact hroot.2

/-- The root is an internal page. -/
theorem insertRow_rootNode {h : ℕ} {n : PageTree (h + 1)}
    (ht : Represents s (rowWidth types) ⟨h + 1, n⟩)
    (hkey : ∀ a ∈ (n.leafFor key).cells, a.1 ≠ key)
    (hroom : (treeInserted s types key row ⟨h + 1, n⟩).2 ≤ tablesMaxPages) :
    ∃ s', TreeInserted s table types key row ⟨h + 1, n⟩ s' := by
  have hst : Stored s.page (rowWidth types) n 0 := ht.stored
  have hgood : GoodTree s (rowWidth types) n ⊥ ⊤ := ht.good
  have hroot : isRoot (s.page n.page) = 1 := ht.root
  obtain ⟨lo', hi', hlo', hhi', hpick⟩ := hgood.pick bot_le (WithTop.coe_lt_top key)
  obtain ⟨e, hstp, hchildp⟩ := hst.2.exists_of_mem (Kids.pick_mem_children key n.kids)
  have hheight : h + 1 < s.numPages := Tree.height_lt hgood.nodup hgood.pages
  have hlt : n.page < s.numPages := hgood.page_lt
  have hinsert : treeInserted s types key row ⟨h + 1, n⟩ = closeRoot internalNodeMaxKeys n.page
      (rowInserted s types key row (n.kids.pick key)).2 (placed s types key row n) := rfl
  rw [hinsert] at hroom
  obtain ⟨fuel, s₁, hsub⟩ := insertRow_subtree hreads hs hmax hrow hstp hchildp hpick hlo' hhi'
    hkey hlt ((labels_closeRoot ..).1.trans hroom)
  obtain ⟨hnpage, hkids, hev⟩ := hsub.placed hstp hst hgood
  have hasc := hgood.ordered_placed row hmax bot_le (WithTop.coe_lt_top key) hkey
  have hev' : Evolves s s₁ {q | q ∈ n.labels ∨ s.numPages ≤ q}
      (movedPages s (rowCuts types key n)) :=
    hev
  obtain ⟨fuel, rfl⟩ := hsub.exists_fuel hs ((Nat.lt_succ_self h).trans hheight)
  obtain ⟨hndk, hltk⟩ := hgood.nodup_placed
  obtain ⟨s', hrun', hnum, hev₂, hstored, hroot'⟩ := resume_root hsub.evolves.sound
    (hnpage ▸ hst.1) (head_insert ..).1 hkids hasc hgood.sized.2.1 hndk
    (fun q hq => hsub.numPages ▸ (hltk q hq).1) (hnpage ▸ hroot) (hsub.numPages ▸ hroom)
  rw [hsub.numPages, ← hinsert] at hnum hstored
  refine ⟨s', ht.inserted hmax hkey (hsub.run.trans hrun') ?_ hnum
    (hev'.trans ((hev₂.excuse ?_).mono ?_ fun q hq => hq)) hstored ?_⟩
  · obtain ⟨o, hstep, hcalls⟩ := hsub.calls
    refine ⟨o, hstep, fun c hc => ?_⟩
    rcases hcalls c hc with hin | hup
    · exact Or.inl hin
    -- the root makes no call for another page
    cases hout : (rowInserted s types key row (n.kids.pick key)).1 with
    | done t' =>
      rw [hout] at hup
      exact absurd hup (not_calls_result _ c)
    | split l sep r =>
      rw [hout] at hup
      obtain rfl := calls_root (hnpage ▸ hroot) hup
      exact Or.inr ⟨rfl, l, r, e, hsub.handedUp hout⟩
  · rintro q ⟨hgt, hq⟩
    exact hsub.moved hst hgood hasc hgt (Or.inl ⟨hroot, hq⟩)
  · rintro q (hq | hq | hq)
    · exact Or.inl (hq ▸ Tree.page_mem_labels n)
    · exact hgood.mem_placed hq
    · exact Or.inr (hev.numPages.trans hq)
  · rw [hinsert, page_closeRoot]
    exact hroot'

/-- **Inserting a row into the pages inserts it into the tree.** -/
theorem insertRow_represents {t : PageTreeAny} (ht : Represents s (rowWidth types) t)
    (hkey : ∀ a ∈ (t.2.leafFor key).cells, a.1 ≠ key)
    (hroom : (treeInserted s types key row t).2 ≤ tablesMaxPages) :
    ∃ s', TreeInserted s table types key row t s' := by
  obtain ⟨_ | h, t⟩ := t
  · exact insertRow_rootLeaf hreads hs hmax hrow ht hkey hroom
  · exact insertRow_rootNode hreads hs hmax hrow ht hkey hroom

end Root

end MiniDB
