import MiniDB.Storage.Paging
import MiniDB.Storage.Stored

/-!
# Descending in a stored tree

* `leafNodeForKey_eq`: the descent for a key ends at the page of the leaf for the key.
* `firstLeaf_eq`: the descent along the first children ends at the first leaf.
-/

namespace MiniDB

open BPlusTree Pager

variable {rowSize : ℕ}

/-- Where the keys of an internal page are cut for `key`, and which child stands there. -/
theorem InternalPage.child {h : ℕ} {n : PageTree (h + 1)} {p : Page} {key : Int64}
    {lo : WithBot Int64} {hi : WithTop Int64}
    (hp : InternalPage p n.kids.seps (n.kids.children.map Tree.page)) (hord : n.Ordered lo hi)
    (hlo : lo ≤ key) (hhi : (key : WithTop Int64) < hi) :
    scanDown (internalNodeKey p) key (numCells p) = n.kids.index key ∧
      childAt p (n.kids.index key) = (n.kids.pick key).page := by
  obtain ⟨-, g1, g2, g4, g5⟩ := Kids.Ordered.bounds_around hord hlo hhi
  have hidx : n.kids.index key ≤ numCells p := by
    rw [hp.length_seps]
    exact Kids.index_le key n.kids
  have hsorted : (internalKeys p).Pairwise (· < ·) := by
    rw [hp.keys]
    exact Kids.Ordered.pairwise_seps hord
  constructor
  · refine scanDown_internalNodeKey hsorted hidx (fun s hs => ?_) fun s hs => ?_
    · rw [hp.keys] at hs
      exact WithBot.coe_le_coe.mp ((g4 s hs).trans g1)
    · rw [hp.keys] at hs
      exact WithTop.coe_lt_coe.mp (lt_of_lt_of_le g2 (g5 s hs))
  · have hchild := childAt_eq hidx
    rw [hp.children, List.getElem?_map, Kids.getElem?_children_index, Option.map_some] at hchild
    exact (Option.some_inj.mp hchild).symm

/-- **The descent for a key ends at the leaf for the key.** -/
theorem leafNodeForKey_eq {key : Int64} : {h : ℕ} → {t : PageTree h} → {s : Pager} → {next : ℕ} →
    {lo : WithBot Int64} → {hi : WithTop Int64} → (fuel : ℕ) → s.Sound →
    Stored s.page rowSize t next → t.Ordered lo hi → lo ≤ key → (key : WithTop Int64) < hi →
    (∀ p ∈ t.labels, p < s.numPages) → h < fuel →
    ∃ s', leafNodeForKey key fuel s t.page = .ok (some (t.leafFor key).page, s') ∧ Fetched s s'
  | 0, t, s, _, _, _, fuel + 1, hs, hst, _, _, _, _, _ => by
    have htype : nodeType (s.page t.page) = nodeLeaf := LeafPage.type hst
    exact ⟨s, by rw [leafNodeForKey, if_pos htype]; rfl, Fetched.refl hs⟩
  | h + 1, n, s, _, _, _, fuel + 1, hs, hst, hord, hlo, hhi, hpages, hfuel => by
    have htype : nodeType (s.page n.page) ≠ nodeLeaf := by
      rw [hst.1.type]
      decide
    have hmem := Kids.pick_mem_children key n.kids
    have hlab : ∀ p ∈ (n.kids.pick key).labels, p < s.numPages := fun p hp =>
      hpages p (Multiset.mem_of_le (Tree.labels_le_of_mem hmem) hp)
    obtain ⟨hscan, hchild⟩ := InternalPage.child hst.1 hord hlo hhi
    obtain ⟨lo', hi', g1, g2, g3⟩ := Kids.Ordered.pick hord hlo hhi
    obtain ⟨e, hpick, -⟩ := hst.2.exists_of_mem hmem
    obtain ⟨s₁, hget, hfetch⟩ := pagerGetPage_of_lt hs (hlab _ (Tree.page_mem_labels _))
    obtain ⟨s₂, hrun, hfetch'⟩ := leafNodeForKey_eq (s := s₁) fuel hfetch.sound
      (by rw [hfetch.page]; exact hpick) g3 g1 g2 (by rw [hfetch.numPages]; exact hlab) (by omega)
    refine ⟨s₂, ?_, hfetch.trans hfetch'⟩
    rw [leafNodeForKey, if_neg htype]
    simp only [hscan, hchild, hget, hrun]
    rfl

/-- **The descent along the first children ends at the first leaf.** -/
theorem firstLeaf_eq {maxCells maxKeys : ℕ} : {h : ℕ} → {t : PageTree h} → {s : Pager} →
    {next : ℕ} → (fuel : ℕ) → s.Sound → Stored s.page rowSize t next → t.Sized maxCells maxKeys →
    (∀ p ∈ t.labels, p < s.numPages) → h < fuel →
    ∃ s', firstLeaf fuel s t.page = .ok (some t.entry, s') ∧ Fetched s s'
  | 0, t, s, _, fuel + 1, hs, hst, _, _, _ => by
    have htype : nodeType (s.page t.page) ≠ nodeInternal := by
      rw [LeafPage.type hst]
      decide
    exact ⟨s, by rw [firstLeaf, if_neg htype]; rfl, Fetched.refl hs⟩
  | h + 1, n, s, _, fuel + 1, hs, hst, hsz, hpages, hfuel => by
    have hmem : n.kids.head ∈ n.kids.children := by
      rw [n.kids.children_eq_head_cons]
      exact List.mem_cons_self
    have hlab : ∀ p ∈ n.kids.head.labels, p < s.numPages := fun p hp =>
      hpages p (Multiset.mem_of_le (Tree.labels_le_of_mem hmem) hp)
    have hvalue : internalNodeValue (s.page n.page) 0 = n.kids.head.page := by
      have hnum := hst.1.length_seps
      have hone := hsz.1
      have hchild := childAt_eq (Nat.zero_le (numCells (s.page n.page)))
      rw [hst.1.children, n.kids.children_eq_head_cons, childAt, if_neg (by omega)] at hchild
      exact (Option.some_inj.mp hchild).symm
    obtain ⟨e, hhead, -⟩ := hst.2.exists_of_mem hmem
    obtain ⟨s₁, hget, hfetch⟩ := pagerGetPage_of_lt hs (hlab _ (Tree.page_mem_labels _))
    obtain ⟨s₂, hrun, hfetch'⟩ := firstLeaf_eq (s := s₁) fuel hfetch.sound
      (by rw [hfetch.page]; exact hhead) (hsz.2.2 _ hmem) (by rw [hfetch.numPages]; exact hlab)
      (by omega)
    refine ⟨s₂, ?_, hfetch.trans hfetch'⟩
    rw [firstLeaf, if_pos hst.1.type]
    simp only [hvalue, hget, hrun]
    rfl

end MiniDB
