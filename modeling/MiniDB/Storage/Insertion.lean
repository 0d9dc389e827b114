import MiniDB.Storage.InsertParent
import MiniDB.Storage.Descent
import MiniDB.BPlusTree.Overflow

/-!
# Inserting a row into a stored tree

The code inserts a row into the leaf its descent found and, when that is full, splits the leaf and
then one parent after the other.  `Tree.insert` makes the same decisions on the way back from the
leaf; `resume` is what the code still has to do once the insertion into a subtree is through.

* `insertParent_nodeRoom`, `insertParent_node`, `insertParent_rootNode`: one node on the way up;
  `resume_node`, `resume_root`: what it makes of its child, whether that was split or not.
* `GoodTree`: a subtree that keeps the invariant, on pages of its own.
* `insertRow_subtree`: **inserting a row into the pages of a subtree inserts it into the subtree**.
-/

namespace MiniDB

open BPlusTree Pager

/-- What `insert_command` does once it knows the leaf and the row. -/
def insertRow (s : Pager) (table : Table) (leaf : ℕ) (key : Int64) (row : Row) (rowSize : ℕ) :
    Exec (CommandResult × Pager) :=
  match leafNodeInsert s leaf (leafNodeFind (s.page leaf) key rowSize) key row rowSize with
  | (.leafFullError, s) => splitLeafNode s table leaf key row rowSize
  | r => .ok r

/-- The same up to the first call of `split_internal_node`. -/
def insertRowStep (s : Pager) (table : Table) (leaf : ℕ) (key : Int64) (row : Row) (rowSize : ℕ) :
    Exec (SplitCall ⊕ (CommandResult × Pager)) :=
  match leafNodeInsert s leaf (leafNodeFind (s.page leaf) key rowSize) key row rowSize with
  | (.leafFullError, s) => splitLeafStep s table leaf key row rowSize
  | r => .ok (.inr r)

/-- What a subtree hands to its parent when the insertion into it is through. -/
def handUp {h : ℕ} (s : Pager) (parent : ℕ) :
    Ins Int64 (PageTree h) → SplitCall ⊕ (CommandResult × Pager)
  | .done _ => .inr (.commandSuccess, s)
  | .split l sep r => promoteInto s parent sep l.page r.page

/-- What is left to do when the insertion into a subtree is through. -/
def resume {h : ℕ} (fuel : ℕ) (s : Pager) (parent : ℕ) :
    Ins Int64 (PageTree h) → Exec (CommandResult × Pager)
  | .done _ => .ok (.commandSuccess, s)
  | .split l sep r => insertParent fuel s parent sep l.page r.page

/-- Both halves of a subtree that was split are on dirty pages. -/
def HalvesDirty {h : ℕ} (s : Pager) : Ins Int64 (PageTree h) → Prop
  | .done _ => True
  | .split l _ r => s.pageDirty l.page = true ∧ s.pageDirty r.page = true

/-- The children of a full internal page that are hung on another page when it is split over its
`child`; that one is written anyway. -/
def movedChildren (page : Page) (child : ℕ) : List ℕ :=
  let children := tempChildren page ((internalChildren page).idxOf child) child child
  (if isRoot page = 1 then children
    else children.drop (internalNodeMaxKeys / 2 + 1)).filter (· ≠ child)

/-- The pages whose parent pointers are set in the course of some splits. -/
def movedPages (s : Pager) (cuts : List (ℕ × ℕ)) : Set ℕ :=
  {q | ∃ cut ∈ cuts, q ∈ movedChildren (s.page cut.2) cut.1}

variable {s : Pager} {rowSize : ℕ}

/-! ## One node -/

section Node

variable {h : ℕ} {kids k : Kids Int64 (PageTree h)} {l r : PageTree h} {sep key : Int64}
  {n parent next fuel : ℕ}

/-- The separator of a split child fits into its parent. -/
theorem sepFits_place (hl : l.page = (kids.pick key).page)
    (hk : k = kids.place key (.cons l sep (.one r))) (hasc : k.seps.Pairwise (· < ·)) :
    SepFits kids.seps (kids.children.map Tree.page) (kids.index key) sep l.page ∧
      kids.seps.take (kids.index key) ++ sep :: kids.seps.drop (kids.index key) = k.seps ∧
      (kids.children.map Tree.page).take (kids.index key) ++ l.page :: r.page ::
        (kids.children.map Tree.page).drop (kids.index key + 1) = k.children.map Tree.page := by
  obtain ⟨hchildren, hseps⟩ := Kids.lists_place key kids (.cons l sep (.one r))
  rw [← hk, Kids.seps_cons, Kids.seps_one, List.append_assoc, List.singleton_append] at hseps
  rw [← hk, Kids.children_cons, Kids.children_one] at hchildren
  refine ⟨⟨Kids.index_le key kids, ?_, hseps ▸ hasc⟩, hseps.symm, ?_⟩
  · rw [List.getElem?_map, Kids.getElem?_children_index, Option.map_some, hl]
  · rw [hchildren]
    simp [List.map_append, List.map_take, List.map_drop]

/-- The buffers of a full node, cut where `closeNode` cuts. -/
theorem cut_append {lk rk : Kids Int64 (PageTree h)} {p : Int64} (hk : k = lk.append p rk)
    (hlen : k.seps.length = internalNodeMaxKeys + 1)
    (hlk : lk.seps.length = internalNodeMaxKeys / 2) :
    Cut k.seps (k.children.map Tree.page) lk.seps p rk.seps (lk.children.map Tree.page)
      (rk.children.map Tree.page) := by
  subst hk
  rw [Kids.seps_append, List.length_append, List.length_cons] at hlen
  refine ⟨Kids.seps_append .., ?_, hlk, by omega, ?_, ?_⟩
  · rw [Kids.children_append, List.map_append]
  · rw [List.length_map, Kids.length_children]
  · rw [List.length_map, Kids.length_children]

/-- The subtrees under a node are on pages of their own. -/
theorem children_apart {m : ℕ} (hnd : ({n} + (k.children.map Tree.labels).sum).Nodup)
    (hlt : ∀ q ∈ {n} + (k.children.map Tree.labels).sum, q < m) :
    (k.children.map Tree.labels).sum.Nodup ∧
      (∀ c ∈ k.children, ∀ q ∈ c.labels, q ≠ n ∧ q < m) ∧
      ∀ q ∈ k.children.map Tree.page, q ≠ n ∧ q < m := by
  obtain ⟨-, hnd', hdisj⟩ := Multiset.nodup_add.mp hnd
  have hlab : ∀ c ∈ k.children, ∀ q ∈ c.labels, q ≠ n ∧ q < m := by
    intro c hc q hq
    have hmem := Multiset.mem_of_le (Tree.labels_le_sum hc) hq
    refine ⟨?_, hlt q (Multiset.mem_add.mpr (Or.inr hmem))⟩
    rintro rfl
    exact Multiset.disjoint_left.mp hdisj (Multiset.mem_singleton_self _) hmem
  refine ⟨hnd', hlab, fun q hq => ?_⟩
  obtain ⟨c, hc, rfl⟩ := List.mem_map.mp hq
  exact hlab c hc _ (Tree.page_mem_labels c)

/-- A split child adds one separator. -/
theorem length_seps_split (hk : k = kids.place key (.cons l sep (.one r))) :
    k.seps.length = kids.seps.length + 1 := by
  rw [hk, length_seps_place_eq, Kids.seps_cons, Kids.seps_one, List.length_singleton]

/-- Both halves of a split child are children of the node. -/
theorem mem_children_split (hk : k = kids.place key (.cons l sep (.one r))) :
    l ∈ k.children ∧ r ∈ k.children := by
  have hperm := Kids.children_place_perm key kids (.cons l sep (.one r))
  rw [← hk] at hperm
  exact ⟨hperm.mem_iff.mpr (by simp), hperm.mem_iff.mpr (by simp)⟩

section Upward

variable (hs : s.Sound) (hp : InternalPage (s.page n) kids.seps (kids.children.map Tree.page))
  (hl : l.page = (kids.pick key).page) (hk : k = kids.place key (.cons l sep (.one r)))
  (hkids : Hangs s.page rowSize n k next) (hasc : k.seps.Pairwise (· < ·))
  (hmax : kids.seps.length ≤ internalNodeMaxKeys)
  (hnd : ({n} + (k.children.map Tree.labels).sum).Nodup)
  (hlt : ∀ q ∈ {n} + (k.children.map Tree.labels).sum, q < s.numPages)

include hs hp hl hk hkids hasc hnd hlt

/-- **A node with room on the way up**, the root or not. -/
theorem insertParent_nodeRoom (hroom : k.seps.length ≤ internalNodeMaxKeys) :
    ∃ s', insertParent fuel s n sep l.page r.page = .ok (.commandSuccess, s') ∧
      s'.numPages = s.numPages ∧ Evolves s s' {n} ∅ ∧
      Stored s'.page rowSize (.node n k : PageTree (h + 1)) next ∧
      isRoot (s'.page n) = isRoot (s.page n) ∧
      parentPointer (s'.page n) = parentPointer (s.page n) := by
  obtain ⟨hfit, hseps, hchildren⟩ := sepFits_place hl hk hasc
  obtain ⟨-, hlab, hpagelt⟩ := children_apart hnd hlt
  obtain ⟨hmeml, hmemr⟩ := mem_children_split hk
  have hlen := length_seps_split hk
  have hn : n < s.numPages := hlt n (Multiset.mem_add.mpr (Or.inl (Multiset.mem_singleton_self n)))
  obtain ⟨s', hrun, hnum, hev, hpage, hmarks⟩ := insertParent_room hs hfit hp hn (by omega)
    (hpagelt _ (List.mem_map_of_mem hmeml)).2 (hpagelt _ (List.mem_map_of_mem hmemr)).2
  rw [hseps, hchildren] at hpage
  exact ⟨s', hrun, hnum, hev, ⟨hpage, hkids.frame fun c hc q hq => hev.page q (hlab c hc q hq).1⟩,
    hmarks⟩

include hmax

/-- **One node below the root on the way up.** -/
theorem insertParent_node (hchild : ChildOf (s.page n) parent) (hparent : parent < s.numPages)
    (hroom : (closeNode internalNodeMaxKeys n s.numPages k).2 ≤ tablesMaxPages) :
    ∃ s', insertParent (fuel + 1) s n sep l.page r.page =
        resume fuel s' parent (closeNode internalNodeMaxKeys n s.numPages k).1 ∧
      (∀ c, Calls (promoteInto s n sep l.page r.page) c → c = ⟨s, n, sep, l.page, r.page⟩ ∨
        Calls (handUp s' parent (closeNode internalNodeMaxKeys n s.numPages k).1) c) ∧
      s'.numPages = (closeNode internalNodeMaxKeys n s.numPages k).2 ∧
      Evolves s s' {q | q = n ∨ q ∈ k.children.map Tree.page ∨ s.numPages ≤ q}
        {q | internalNodeMaxKeys < k.seps.length ∧
          q ∈ (k.children.map Tree.page).drop (internalNodeMaxKeys / 2 + 1)} ∧
      Hangs s'.page rowSize parent (closeNode internalNodeMaxKeys n s.numPages k).1.kids next ∧
      HalvesDirty s' (closeNode internalNodeMaxKeys n s.numPages k).1 := by
  rcases closeNode_cases internalNodeMaxKeys n s.numPages k with
    ⟨hle, heq⟩ | ⟨hgt, lk, p, rk, -, hcat, hlk, heq⟩
  · -- the node has room
    obtain ⟨s', hrun, hnum, hev, hstored, hroot, hpar⟩ :=
      insertParent_nodeRoom hs hp hl hk hkids hasc hnd hlt hle
    rw [heq]
    refine ⟨s', hrun, fun c hc => ?_, hnum, hev.mono (fun q hq => Or.inl hq) (Set.empty_subset _),
      ⟨hstored, hroot.trans hchild.isRoot, hpar.trans hchild.parent⟩, trivial⟩
    have hfull := (calls_promoteInto hc).1
    have hlen := length_seps_split hk
    rw [hp.length_seps] at hfull
    omega
  · -- the node is cut
    obtain ⟨hfit, hseps, hchildren⟩ := sepFits_place hl hk hasc
    obtain ⟨hnd', hlab, hpagelt⟩ := children_apart hnd hlt
    have hlen := length_seps_split hk
    have hn : n < s.numPages :=
      hlt n (Multiset.mem_add.mpr (Or.inl (Multiset.mem_singleton_self n)))
    have hcut := cut_append hcat (by omega) hlk
    rw [← hseps, ← hchildren] at hcut
    have hsplit : k.children = lk.children ++ rk.children := by rw [hcat, Kids.children_append]
    have hmap : k.children.map Tree.page =
        lk.children.map Tree.page ++ rk.children.map Tree.page := by rw [hsplit, List.map_append]
    have hndpage := Tree.nodup_map_page hnd'
    rw [heq] at hroom
    obtain ⟨s', hstep, hnum, hev, hdirty, hleft, hright, hset⟩ := splitInternalStep_full
      hfit hp hchild.isRoot hcut hs hroom hn
      (fun c hc => (hpagelt c (hmap ▸ hc)).2) (hmap ▸ hndpage).of_append_right
      (fun hc => (hpagelt n (hmap ▸ List.mem_append_right _ hc)).1 rfl)
      (by rw [hchild.parent]; exact hparent)
    rw [hchild.parent] at hstep hleft hright
    have hrun : insertParent (fuel + 1) s n sep l.page r.page =
        insertParent fuel s' parent p n s.numPages :=
      insertParent_of_step (by rw [hp.length_seps]; omega) hstep
    have hdrop : (k.children.map Tree.page).drop (internalNodeMaxKeys / 2 + 1) =
        rk.children.map Tree.page := by
      rw [hmap, ← hlk, ← Kids.length_children, ← List.length_map (f := Tree.page), List.drop_left]
    have hsame : ∀ c ∈ k.children, ∀ q ∈ c.labels, q ∉ rk.children.map Tree.page →
        s'.page q = s.page q := fun c hc q hq hnot => by
      refine hev.page q ?_
      rintro (h | h | h)
      · exact (hlab c hc q hq).1 h
      · exact (hlab c hc q hq).2.ne h
      · exact hnot h
    rw [hcat] at hkids
    obtain ⟨hlink, hlink'⟩ := Kids.linked_append.mp hkids
    rw [heq]
    refine ⟨s', hrun, ?_, hnum, ?_, ⟨⟨⟨hleft.1, ?_⟩, hleft.2⟩, ⟨hright.1, ?_⟩, hright.2⟩, hdirty⟩
    · intro c hc
      refine (calls_promoteInto hc).2.imp_right fun hnext => ?_
      rw [hstep] at hnext
      exact hnext
    · refine hev.mono ?_ fun q hq => ⟨hgt, hdrop ▸ hq⟩
      rintro q (hq | hq | hq)
      · exact Or.inl hq
      · exact Or.inr (Or.inr hq.ge)
      · exact Or.inr (Or.inl (hmap ▸ List.mem_append_right _ hq))
    · refine Hangs.frame hlink fun c hc q hq => hsame c (hsplit ▸ List.mem_append_left _ hc) q hq ?_
      -- the labels of the left children are not the pages of the right ones
      intro hmemr
      rw [hsplit, List.map_append, List.sum_append, Multiset.nodup_add] at hnd'
      obtain ⟨d, hd, rfl⟩ := List.mem_map.mp hmemr
      exact Multiset.disjoint_left.mp hnd'.2.2 (Multiset.mem_of_le (Tree.labels_le_sum hc) hq)
        (Multiset.mem_of_le (Tree.labels_le_sum hd) (Tree.page_mem_labels d))
    · refine Hangs.move hlink' (fits_of_le (m := tablesMaxPages) hs.bounded)
        (fun c hc => hset _ (List.mem_map_of_mem hc)) fun c hc q hq => ?_
      have hc' : c ∈ k.children := hsplit ▸ List.mem_append_right _ hc
      refine hsame c hc' q (Multiset.mem_of_le (Tree.below_le_labels c) hq) fun hmemr => ?_
      exact Tree.page_ne_of_mem_below hnd' hc' hq (hmap ▸ List.mem_append_right _ hmemr)

/-- **The root on the way up**, when it is full: its halves hang under it on new pages. -/
theorem insertParent_rootNode (hroot : isRoot (s.page n) = 1)
    (hroom : s.numPages + 2 ≤ tablesMaxPages) {lk rk : Kids Int64 (PageTree h)} {p : Int64}
    (hgt : internalNodeMaxKeys < k.seps.length) (hcat : k = lk.append p rk)
    (hlk : lk.seps.length = internalNodeMaxKeys / 2) :
    ∃ s', insertParent (fuel + 1) s n sep l.page r.page = .ok (.commandSuccess, s') ∧
      s'.numPages = s.numPages + 2 ∧
      Evolves s s' {q | q = n ∨ s.numPages ≤ q ∨ q ∈ k.children.map Tree.page}
        {q | q ∈ k.children.map Tree.page} ∧
      Stored s'.page rowSize (.node n (.cons (.node s.numPages lk) p
        (.one (.node (s.numPages + 1) rk))) : PageTree (h + 2)) next ∧
      isRoot (s'.page n) = 1 := by
  obtain ⟨hfit, hseps, hchildren⟩ := sepFits_place hl hk hasc
  obtain ⟨hnd', hlab, hpagelt⟩ := children_apart hnd hlt
  have hlen := length_seps_split hk
  have hn : n < s.numPages := hlt n (Multiset.mem_add.mpr (Or.inl (Multiset.mem_singleton_self n)))
  have hcut := cut_append hcat (by omega) hlk
  rw [← hseps, ← hchildren] at hcut
  have hsplit : k.children = lk.children ++ rk.children := by rw [hcat, Kids.children_append]
  have hmap : k.children.map Tree.page =
      lk.children.map Tree.page ++ rk.children.map Tree.page := by rw [hsplit, List.map_append]
  obtain ⟨s', hrun, hnum, hev, hroot', hleft, hright, hsetl, hsetr⟩ := insertParent_root hfit hp
    (by omega) hroot hcut hs hroom hn (fun c hc => (hpagelt c (hmap ▸ hc)).2)
    (hmap ▸ Tree.nodup_map_page hnd') (fun hc => (hpagelt _ (hmap ▸ hc)).1 rfl)
  rw [← hmap] at hev
  -- what is below the children is not written
  have hbelow : ∀ c ∈ k.children, ∀ q ∈ c.below, s'.page q = s.page q := by
    intro c hc q hq
    have hq' := Multiset.mem_of_le (Tree.below_le_labels c) hq
    refine hev.page q ?_
    rintro (h | h | h)
    · exact (hlab c hc q hq').1 h
    · exact absurd (hlab c hc q hq').2 (not_lt.mpr h)
    · exact Tree.page_ne_of_mem_below hnd' hc hq h
  have hfits : ∀ q ≤ s.numPages + 1, Fits q := fun q hq =>
    fits_of_le (m := tablesMaxPages) (by omega)
  rw [hcat] at hkids
  obtain ⟨hlink, hlink'⟩ := Kids.linked_append.mp hkids
  refine ⟨s', hrun, hnum, hev, ⟨hroot'.1, ⟨⟨hleft.1, ?_⟩, hleft.2⟩, ⟨hright.1, ?_⟩, hright.2⟩,
    hroot'.2⟩
  · exact Hangs.move hlink (hfits _ (Nat.le_succ _))
      (fun c hc => hsetl _ (List.mem_map_of_mem hc)) fun c hc =>
        hbelow c (hsplit ▸ List.mem_append_left _ hc)
  · exact Hangs.move hlink' (hfits _ le_rfl)
      (fun c hc => hsetr _ (List.mem_map_of_mem hc)) fun c hc =>
        hbelow c (hsplit ▸ List.mem_append_right _ hc)

end Upward

section Resume

variable {out : Ins Int64 (PageTree h)} (hs : s.Sound)
  (hp : InternalPage (s.page n) kids.seps (kids.children.map Tree.page))
  (hhead : out.kids.head.page = (kids.pick key).page)
  (hkids : Hangs s.page rowSize n (kids.place key out.kids) next)
  (hasc : (kids.place key out.kids).seps.Pairwise (· < ·))
  (hmax : kids.seps.length ≤ internalNodeMaxKeys)
  (hnd : ({n} + ((kids.place key out.kids).children.map Tree.labels).sum).Nodup)
  (hlt : ∀ q ∈ {n} + ((kids.place key out.kids).children.map Tree.labels).sum, q < s.numPages)

include hs hp hhead hkids hasc hmax hnd hlt

/-- **What a node below the root makes of its child**, whether that was split or not. -/
theorem resume_node (hchild : ChildOf (s.page n) parent) (hparent : parent < s.numPages)
    (hroom : (closeNode internalNodeMaxKeys n s.numPages (kids.place key out.kids)).2 ≤
      tablesMaxPages) :
    ∃ s', resume (fuel + 1) s n out = resume fuel s' parent
        (closeNode internalNodeMaxKeys n s.numPages (kids.place key out.kids)).1 ∧
      (∀ c, Calls (handUp s n out) c →
        (∃ l sep r, out = .split l sep r ∧ c = ⟨s, n, sep, l.page, r.page⟩) ∨
        Calls (handUp s' parent
          (closeNode internalNodeMaxKeys n s.numPages (kids.place key out.kids)).1) c) ∧
      s'.numPages = (closeNode internalNodeMaxKeys n s.numPages (kids.place key out.kids)).2 ∧
      Evolves s s' {q | q = n ∨ q ∈ (kids.place key out.kids).children.map Tree.page ∨
          s.numPages ≤ q}
        {q | internalNodeMaxKeys < (kids.place key out.kids).seps.length ∧
          q ∈ ((kids.place key out.kids).children.map Tree.page).drop
            (internalNodeMaxKeys / 2 + 1)} ∧
      Hangs s'.page rowSize parent
        (closeNode internalNodeMaxKeys n s.numPages (kids.place key out.kids)).1.kids next ∧
      HalvesDirty s' (closeNode internalNodeMaxKeys n s.numPages (kids.place key out.kids)).1 := by
  cases out with
  | split l sep r =>
    obtain ⟨s', hrun, hcalls, hrest⟩ :=
      insertParent_node hs hp hhead rfl hkids hasc hmax hnd hlt hchild hparent hroom
    exact ⟨s', hrun, fun c hc => (hcalls c hc).imp_left fun heq => ⟨l, sep, r, rfl, heq⟩, hrest⟩
  | done t' =>
    -- the child is one subtree again, and the page of the node stays as it is
    have hhead' : t'.page = (kids.pick key).page := hhead
    obtain ⟨hchildren, hseps⟩ := Kids.lists_place_one hhead'
    rcases closeNode_cases internalNodeMaxKeys n s.numPages
      (kids.place key (Ins.done t').kids) with ⟨-, heq⟩ | ⟨hgt, -⟩
    · rw [heq]
      refine ⟨s, rfl, fun c hc => absurd hc (not_calls_result _ c), rfl, Evolves.refl hs,
        ⟨⟨?_, hkids⟩, hchild⟩, trivial⟩
      rw [Tree.page_node, Tree.kids_node, Ins.kids, hseps, hchildren]
      exact hp
    · rw [Ins.kids, hseps] at hgt
      exact absurd hmax (not_le.mpr hgt)

/-- **What the root makes of its child.** -/
theorem resume_root (hroot : isRoot (s.page n) = 1)
    (hroom : (closeRoot internalNodeMaxKeys n s.numPages (kids.place key out.kids)).2 ≤
      tablesMaxPages) :
    ∃ s', resume (fuel + 1) s n out = .ok (.commandSuccess, s') ∧
      s'.numPages = (closeRoot internalNodeMaxKeys n s.numPages (kids.place key out.kids)).2 ∧
      Evolves s s' {q | q = n ∨ q ∈ (kids.place key out.kids).children.map Tree.page ∨
          s.numPages ≤ q}
        {q | internalNodeMaxKeys < (kids.place key out.kids).seps.length ∧
          q ∈ (kids.place key out.kids).children.map Tree.page} ∧
      Stored s'.page rowSize
        (closeRoot internalNodeMaxKeys n s.numPages (kids.place key out.kids)).1.2 next ∧
      isRoot (s'.page n) = 1 := by
  cases out with
  | split l sep r =>
    rcases closeRoot_cases internalNodeMaxKeys n s.numPages
      (kids.place key (Ins.split l sep r).kids) with ⟨hle, heq⟩ | ⟨hgt, lk, p, rk, hcat, hlk, heq⟩
    · obtain ⟨s', hrun, hnum, hev, hstored, hroot', -⟩ :=
        insertParent_nodeRoom hs hp hhead rfl hkids hasc hnd hlt hle
      rw [heq]
      exact ⟨s', hrun, hnum, hev.mono (fun q hq => Or.inl hq) (Set.empty_subset _), hstored,
        hroot'.trans hroot⟩
    · rw [heq] at hroom
      obtain ⟨s', hrun, hnum, hev, hstored, hroot'⟩ := insertParent_rootNode hs hp hhead rfl hkids
        hasc hmax hnd hlt hroot hroom hgt hcat hlk
      rw [heq]
      refine ⟨s', hrun, hnum, hev.mono ?_ fun q hq => ⟨hgt, hq⟩, hstored, hroot'⟩
      rintro q (hq | hq | hq)
      · exact Or.inl hq
      · exact Or.inr (Or.inr hq)
      · exact Or.inr (Or.inl hq)
  | done t' =>
    have hhead' : t'.page = (kids.pick key).page := hhead
    obtain ⟨hchildren, hseps⟩ := Kids.lists_place_one hhead'
    rcases closeRoot_cases internalNodeMaxKeys n s.numPages
      (kids.place key (Ins.done t').kids) with ⟨-, heq⟩ | ⟨hgt, -⟩
    · rw [heq]
      refine ⟨s, rfl, rfl, Evolves.refl hs, ⟨?_, hkids⟩, hroot⟩
      rw [Tree.page_node, Tree.kids_node, Ins.kids, hseps, hchildren]
      exact hp
    · rw [Ins.kids, hseps] at hgt
      exact absurd hmax (not_le.mpr hgt)

end Resume

/-- Membership in a tail of a list does not depend on the other entries. -/
theorem mem_drop_of_ne {A B : List ℕ} {q x : ℕ} (y : ℕ) {m : ℕ} (hq : q ∈ (A ++ x :: B).drop m)
    (hne : q ≠ x) : q ∈ (A ++ y :: B).drop m := by
  rw [List.drop_append] at hq ⊢
  rcases List.mem_append.mp hq with hq | hq
  · exact List.mem_append_left _ hq
  · refine List.mem_append_right _ ?_
    cases hm : m - A.length with
    | zero =>
      rw [hm] at hq
      exact List.mem_cons_of_mem _ ((List.mem_cons.mp hq).resolve_left hne)
    | succ m' =>
      rw [hm] at hq
      exact hq

/-- The children that move are known before the split. -/
theorem mem_movedChildren {page : Page} (hl : l.page = (kids.pick key).page)
    (hp : InternalPage page kids.seps (kids.children.map Tree.page))
    (hnd : (kids.children.map Tree.page).Nodup)
    (hk : k = kids.place key (.cons l sep (.one r))) (hasc : k.seps.Pairwise (· < ·)) {q : ℕ}
    (hleft : q ≠ l.page) (hright : q ≠ r.page) :
    (isRoot page = 1 → q ∈ k.children.map Tree.page → q ∈ movedChildren page l.page) ∧
      (isRoot page = 0 → q ∈ (k.children.map Tree.page).drop (internalNodeMaxKeys / 2 + 1) →
        q ∈ movedChildren page l.page) := by
  obtain ⟨hfit, -, hchildren⟩ := sepFits_place hl hk hasc
  obtain ⟨hlt, hget⟩ := List.getElem?_eq_some_iff.mp hfit.child
  have hidx : (internalChildren page).idxOf l.page = kids.index key := by
    rw [hp.children, ← hget, hnd.idxOf_getElem]
  have htemp : tempChildren page (kids.index key) l.page l.page =
      (kids.children.map Tree.page).take (kids.index key) ++ [l.page] ++ l.page ::
        (kids.children.map Tree.page).drop (kids.index key + 1) := by
    rw [tempChildren_eq, hp.children, List.append_assoc, List.singleton_append]
  have hk' : k.children.map Tree.page =
      (kids.children.map Tree.page).take (kids.index key) ++ [l.page] ++ r.page ::
        (kids.children.map Tree.page).drop (kids.index key + 1) := by
    rw [← hchildren, List.append_assoc, List.singleton_append]
  rw [movedChildren, hidx, htemp, hk']
  refine ⟨fun hroot hq => ?_, fun hroot hq => ?_⟩
  · rw [if_pos hroot]
    have hq' := mem_drop_of_ne (m := 0) l.page hq hright
    exact List.mem_filter.mpr ⟨hq', by simpa using hleft⟩
  · have hnot : ¬ isRoot page = 1 := by
      rw [hroot]
      decide
    rw [if_neg hnot]
    exact List.mem_filter.mpr ⟨mem_drop_of_ne l.page hq hright, by simpa using hleft⟩

end Node

/-! ## A leaf -/

section Subtree

variable {table : Table} {types : List ColumnType} {key : Int64} {row : Row} {next parent : ℕ}

/-- **A leaf with room** takes the row. -/
theorem insertRow_room {leaf : ℕ} {cells : List Cell} (hs : s.Sound)
    (hleaf : LeafPage rowSize (s.page leaf) cells next) (hlt : leaf < s.numPages)
    (hsorted : Tree.Sorted cells) (hkey : ∀ c ∈ cells, c.1 ≠ key)
    (hrow : (rowBytes row.values).length = rowSize)
    (hroom : cells.length < leafNodeMaxCells rowSize) :
    ∃ s', insertRow s table leaf key row rowSize = .ok (.commandSuccess, s') ∧
      s'.numPages = s.numPages ∧ Evolves s s' {leaf} ∅ ∧
      LeafPage rowSize (s'.page leaf) (insertCell key (rowBytes row.values) cells) next ∧
      isRoot (s'.page leaf) = isRoot (s.page leaf) ∧
      parentPointer (s'.page leaf) = parentPointer (s.page leaf) := by
  have hnum := hleaf.length_cells
  have hcells : Fits (numCells (s.page leaf) + 1) := by
    have hmax := leafNodeMaxCells_le rowSize
    exact fits_of_le (m := 510) (by omega)
  obtain ⟨p, hp⟩ : ∃ p,
    p = leafNodeInsertCell (s.page leaf) (leafNodeFind (s.page leaf) key rowSize)
    key row rowSize := ⟨_, rfl⟩
  have hheader : header p = { header (s.page leaf) with cells := numCells (s.page leaf) + 1 } := by
    rw [hp, header_leafNodeInsertCell hcells]
  have hinsert : insertRow s table leaf key row rowSize =
      .ok (.commandSuccess, pagerMarkDirty (s.setPage leaf p) leaf) := by
    rw [insertRow, leafNodeInsert, hnum, if_neg (not_le.mpr hroom), ← hp]
  have hpage : (pagerMarkDirty (s.setPage leaf p) leaf).page leaf = p := by
    rw [page_pagerMarkDirty, page_setPage, Function.update_self]
  refine ⟨pagerMarkDirty (s.setPage leaf p) leaf, hinsert, rfl, ?_, ?_, ?_, ?_⟩
  · have hev : Evolves s s {leaf} {leaf} := Evolves.refl hs
    exact hev.write hlt rfl
  · rw [hpage]
    refine ⟨?_, ?_, ?_⟩
    · rw [nodeType_eq, hheader]
      exact hleaf.type
    · rw [hp, leafCells_insertCell (by rw [hleaf.cells]; exact hsorted)
        (by rw [hleaf.cells]; exact hkey) hcells hrow, hleaf.cells]
    · rw [nextLeaf_eq, hheader]
      exact hleaf.next
  · rw [hpage, isRoot_eq, hheader]
    rfl
  · rw [hpage, parentPointer_eq, hheader]
    rfl

variable (table key row) in
/-- A full leaf is split. -/
theorem insertRow_full {leaf : ℕ} {cells : List Cell}
    (hleaf : LeafPage rowSize (s.page leaf) cells next)
    (hfull : leafNodeMaxCells rowSize ≤ cells.length) :
    insertRow s table leaf key row rowSize = splitLeafNode s table leaf key row rowSize := by
  have hnum := hleaf.length_cells
  rw [insertRow, leafNodeInsert, hnum, if_pos hfull]

variable (table key row) in
/-- A leaf with room calls for no split. -/
theorem insertRowStep_room {leaf : ℕ} {cells : List Cell}
    (hleaf : LeafPage rowSize (s.page leaf) cells next)
    (hroom : cells.length < leafNodeMaxCells rowSize) :
    ∃ o, insertRowStep s table leaf key row rowSize = .ok (.inr o) := by
  have hnum := hleaf.length_cells
  rw [insertRowStep, leafNodeInsert, hnum, if_neg (not_le.mpr hroom)]
  exact ⟨_, rfl⟩

variable (table key row) in
theorem insertRowStep_full {leaf : ℕ} {cells : List Cell}
    (hleaf : LeafPage rowSize (s.page leaf) cells next)
    (hfull : leafNodeMaxCells rowSize ≤ cells.length) :
    insertRowStep s table leaf key row rowSize = splitLeafStep s table leaf key row rowSize := by
  have hnum := hleaf.length_cells
  rw [insertRowStep, leafNodeInsert, hnum, if_pos hfull]

/-! ## A subtree -/

/-- A subtree in the range `[lo, hi)` that keeps the invariant and lives on its own existing
pages. -/
structure GoodTree (s : Pager) (rowSize : ℕ) {h : ℕ} (t : PageTree h) (lo : WithBot Int64)
    (hi : WithTop Int64) : Prop where
  ordered : t.Ordered lo hi
  sized : t.Sized (leafNodeMaxCells rowSize) internalNodeMaxKeys
  nodup : t.labels.Nodup
  pages : ∀ q ∈ t.labels, q < s.numPages

theorem GoodTree.page_lt {h : ℕ} {t : PageTree h} {lo : WithBot Int64} {hi : WithTop Int64}
    (ht : GoodTree s rowSize t lo hi) : t.page < s.numPages :=
  ht.pages _ (Tree.page_mem_labels t)

/-- A child is good in the range it is ordered in. -/
theorem GoodTree.child {h : ℕ} {n : PageTree (h + 1)} {c : PageTree h} {lo lo' : WithBot Int64}
    {hi hi' : WithTop Int64} (ht : GoodTree s rowSize n lo hi) (hc : c ∈ n.kids.children)
    (hord : c.Ordered lo' hi') : GoodTree s rowSize c lo' hi' :=
  have hle := Tree.labels_le_of_mem hc
  ⟨hord, ht.sized.2.2 c hc, Multiset.nodup_of_le hle ht.nodup,
    fun q hq => ht.pages q (Multiset.mem_of_le hle hq)⟩

/-- So is the child that the descent picks. -/
theorem GoodTree.pick {h : ℕ} {n : PageTree (h + 1)} {lo : WithBot Int64} {hi : WithTop Int64}
    (ht : GoodTree s rowSize n lo hi) (hlo : lo ≤ key) (hhi : (key : WithTop Int64) < hi) :
    ∃ lo' hi', lo' ≤ (key : WithBot Int64) ∧ (key : WithTop Int64) < hi' ∧
      GoodTree s rowSize (n.kids.pick key) lo' hi' := by
  obtain ⟨lo', hi', g1, g2, g3⟩ := Kids.Ordered.pick ht.ordered hlo hhi
  exact ⟨lo', hi', g1, g2, ht.child (Kids.pick_mem_children key n.kids) g3⟩

/-- The labels of a node: its own, those of the picked child, and the others. -/
theorem GoodTree.disjoint {h : ℕ} {n : PageTree (h + 1)} {lo : WithBot Int64}
    {hi : WithTop Int64} (ht : GoodTree s rowSize n lo hi) (key : Int64) :
    n.page ∉ (n.kids.pick key).labels ∧
      ∀ c ∈ n.kids.others key, ∀ q ∈ c.labels, q ∉ (n.kids.pick key).labels ∧ q < s.numPages := by
  have hnd := ht.nodup
  have hperm := Tree.labels_perm (Kids.children_perm key n.kids)
  rw [hperm, Multiset.nodup_add, Multiset.nodup_add] at hnd
  obtain ⟨-, ⟨-, -, hdisj⟩, hdisj'⟩ := hnd
  refine ⟨fun hmem => ?_, fun c hc q hq => ⟨fun hmem => ?_, ?_⟩⟩
  · exact Multiset.disjoint_left.mp hdisj' (Multiset.mem_singleton_self _)
      (Multiset.mem_add.mpr (Or.inl hmem))
  · exact Multiset.disjoint_left.mp hdisj hmem (Multiset.mem_of_le (Tree.labels_le_sum hc) hq)
  · refine ht.pages q ?_
    rw [hperm]
    exact Multiset.mem_add.mpr (Or.inr (Multiset.mem_add.mpr
      (Or.inr (Multiset.mem_of_le (Tree.labels_le_sum hc) hq))))

/-- What came of one child takes its place among the others. -/
theorem hangs_place {m m' : ℕ → Page} {h n : ℕ} {kids new : Kids Int64 (PageTree h)}
    (hk : Hangs m rowSize n kids next)
    (hother : ∀ c ∈ kids.others key, ∀ q ∈ c.labels, m' q = m q)
    (hentry : new.head.entry = (kids.pick key).entry)
    (hnew : ∀ e, Stored m rowSize (kids.pick key) e → Hangs m' rowSize n new e) :
    Hangs m' rowSize n (kids.place key new) next :=
  Kids.Linked.place hk (fun c hc _ hce =>
    ⟨hce.1.frame (hother c hc), by rw [hother c hc _ (Tree.page_mem_labels c)]; exact hce.2⟩)
    hentry fun e he => hnew e he.1

/-- What inserting the row makes of a subtree. -/
abbrev rowInserted (s : Pager) (types : List ColumnType) (key : Int64) (row : Row) {h : ℕ}
    (t : PageTree h) : Ins Int64 (PageTree h) × ℕ :=
  t.insert (leafNodeMaxCells (rowWidth types)) internalNodeMaxKeys key (rowBytes row.values)
    s.numPages

/-- The inner nodes of a subtree that inserting the row splits. -/
abbrev rowCuts (types : List ColumnType) (key : Int64) {h : ℕ} (t : PageTree h) : List (ℕ × ℕ) :=
  t.cuts (leafNodeMaxCells (rowWidth types)) internalNodeMaxKeys key

/-- In a call of `split_internal_node`, a child of the page has been cut into `l` and `r`, which
hang under the page in its place; what was outside of the child is as it was. -/
structure HandedUp (s : Pager) (rowSize : ℕ) {h : ℕ} (old l r : PageTree h) (next : ℕ)
    (c : SplitCall) : Prop where
  page : l.page = old.page
  left : c.left = l.page
  right : c.right = r.page
  hangs : Hangs c.pager.page rowSize c.page (.cons l c.key (.one r)) next
  kept : ∀ q < s.numPages, q ∉ old.labels → c.pager.page q = s.page q
  labels : ∀ q ∈ l.labels + r.labels, q ∈ old.labels ∨ s.numPages ≤ q

/-- The call is for a node on the way to the leaf for the key. -/
def CallIn (s : Pager) (rowSize : ℕ) (key : Int64) : {h : ℕ} → PageTree h → SplitCall → Prop
  | 0, _, _ => False
  | _ + 1, n, c => CallIn s rowSize key (n.kids.pick key) c ∨
      c.page = n.page ∧ ∃ l r next, HandedUp s rowSize (n.kids.pick key) l r next c

/-- The row is in the subtree: the pages of the subtree, together with the new ones, hold what
`Tree.insert` makes of it, and the code goes on with the parent. -/
structure SubtreeInserted (s : Pager) (table : Table) (types : List ColumnType) (key : Int64)
    (row : Row) {h : ℕ} (t : PageTree h) (parent next fuel : ℕ) (s' : Pager) : Prop where
  enough : walkFuel ≤ fuel + h
  run : insertRow s table (t.leafFor key).page key row (rowWidth types) =
    resume fuel s' parent (rowInserted s types key row t).1
  calls : ∃ o, insertRowStep s table (t.leafFor key).page key row (rowWidth types) = .ok o ∧
    ∀ c, Calls o c → CallIn s (rowWidth types) key t c ∨
      Calls (handUp s' parent (rowInserted s types key row t).1) c
  numPages : s'.numPages = (rowInserted s types key row t).2
  evolves : Evolves s s' {q | q ∈ t.labels ∨ s.numPages ≤ q} (movedPages s (rowCuts types key t))
  hangs : Hangs s'.page (rowWidth types) parent (rowInserted s types key row t).1.kids next
  dirty : HalvesDirty s' (rowInserted s types key row t).1

/-- There is fuel left for the node above. -/
theorem SubtreeInserted.exists_fuel {h fuel : ℕ} {t : PageTree h} {s' : Pager}
    (hsub : SubtreeInserted s table types key row t parent next fuel s') (hs : s.Sound)
    (hheight : h < s.numPages) : ∃ f, fuel = f + 1 := by
  have hwalk : walkFuel = tablesMaxPages + 1 := rfl
  have hmaxpages := hs.bounded
  have hfuel := hsub.enough
  exact ⟨fuel - 1, by omega⟩

/-- A leaf below the root. -/
theorem insertRow_leaf {l : PageTree 0} {lo : WithBot Int64} {hi : WithTop Int64}
    (hreads : Reads s table types) (hs : s.Sound)
    (hrow : (rowBytes row.values).length = rowWidth types)
    (hst : Stored s.page (rowWidth types) l next) (hchild : ChildOf (s.page l.page) parent)
    (ht : GoodTree s (rowWidth types) l lo hi) (hkey : ∀ a ∈ l.cells, a.1 ≠ key)
    (hparent : parent < s.numPages) (hroom : (rowInserted s types key row l).2 ≤ tablesMaxPages) :
    ∃ s', SubtreeInserted s table types key row l parent next walkFuel s' := by
  have hlt := ht.page_lt
  rw [rowInserted, Tree.insert] at hroom
  rcases insertLeaf_cases _ _ (rowBytes row.values) s.numPages l with
    ⟨hlen, heq⟩ | ⟨hge, a, c, b, hins, ha, heq⟩
  · have hout : rowInserted s types key row l =
        (.done (.leaf l.page (insertCell key (rowBytes row.values) l.cells)), s.numPages) := heq
    obtain ⟨s', hrun, hnum, hev, hpage, hroot, hpar⟩ := insertRow_room hs hst hlt
      ht.ordered.1 hkey hrow hlen
    obtain ⟨o, hstep⟩ := insertRowStep_room table key row hst hlen
    refine ⟨s', le_rfl, ?_, ⟨_, hstep, fun c hc => absurd hc (not_calls_result o c)⟩, ?_,
      hev.mono (fun q hq => ?_) (Set.empty_subset _), ?_, ?_⟩
    · rw [hout]
      exact hrun
    · rw [hout]
      exact hnum
    · exact Or.inl (hq ▸ Multiset.mem_singleton_self _)
    · rw [hout]
      exact ⟨hpage, hroot.trans hchild.isRoot, hpar.trans hchild.parent⟩
    · rw [hout]
      trivial
  · rw [heq] at hroom
    have hout : rowInserted s types key row l =
        (.split (.leaf l.page a) c.1 (.leaf s.numPages (c :: b)), s.numPages + 1) := heq
    have hfull : l.cells.length = leafNodeMaxCells (rowWidth types) := le_antisymm ht.sized hge
    obtain ⟨s', hstep, hnum, hev, hdirty, hleft, hright⟩ := splitLeafNode_child hs hreads hst hchild
      hfull ht.ordered.1 hkey hrow hins ha hroom hlt hparent
    refine ⟨s', le_rfl, ?_, ⟨_, (insertRowStep_full table key row hst hge).trans hstep, ?_⟩, ?_,
      hev.mono ?_ (Set.empty_subset _), ?_, ?_⟩
    · rw [hout]
      exact (insertRow_full table key row hst hge).trans (splitLeafNode_of_step hstep)
    · rw [hout]
      exact fun c hc => Or.inr hc
    · rw [hout]
      exact hnum
    · rintro q (hq | hq)
      · exact Or.inl (hq ▸ Multiset.mem_singleton_self _)
      · exact Or.inr hq.ge
    · rw [hout]
      exact ⟨hleft, hright⟩
    · rw [hout]
      exact ⟨(hdirty _).mpr (Or.inr (Or.inl rfl)), (hdirty _).mpr (Or.inr (Or.inr rfl))⟩

/-- The children of a node after an insertion below it. -/
abbrev placed (s : Pager) (types : List ColumnType) (key : Int64) (row : Row) {h : ℕ}
    (n : PageTree (h + 1)) : Kids Int64 (PageTree h) :=
  n.kids.place key (rowInserted s types key row (n.kids.pick key)).1.kids

section Placed

variable {h : ℕ} {n : PageTree (h + 1)} {lo : WithBot Int64} {hi : WithTop Int64}

/-- The labels after an insertion below a node are used once and belong to existing pages. -/
theorem GoodTree.nodup_placed (ht : GoodTree s (rowWidth types) n lo hi) :
    ({n.page} + ((placed s types key row n).children.map Tree.labels).sum).Nodup ∧
      ∀ q ∈ {n.page} + ((placed s types key row n).children.map Tree.labels).sum,
        q < (rowInserted s types key row (n.kids.pick key)).2 ∧
          (q ∈ n.labels ∨ s.numPages ≤ q) := by
  have hle := (labels_insert (leafNodeMaxCells (rowWidth types)) internalNodeMaxKeys key
    (rowBytes row.values) s.numPages
    (n.kids.pick key)).1
  rw [placed, labels_place]
  refine ⟨Multiset.nodup_add.mpr ⟨ht.nodup, nodup_newLabels _ _, ?_⟩, fun q hq => ?_⟩
  · exact Multiset.disjoint_left.mpr fun hq hq' =>
      absurd (ht.pages _ hq) (not_lt.mpr (mem_newLabels.mp hq').1)
  · rcases Multiset.mem_add.mp hq with hq | hq
    · exact ⟨(ht.pages q hq).trans_le hle, Or.inl hq⟩
    · exact ⟨(mem_newLabels.mp hq).2, Or.inr (mem_newLabels.mp hq).1⟩

variable (row) in
/-- The children after an insertion below a node are ordered. -/
theorem GoodTree.ordered_placed (ht : GoodTree s (rowWidth types) n lo hi)
    (hmax : 1 ≤ leafNodeMaxCells (rowWidth types)) (hlo : lo ≤ key)
    (hhi : (key : WithTop Int64) < hi) (hkey : ∀ a ∈ (n.leafFor key).cells, a.1 ≠ key) :
    (placed s types key row n).seps.Pairwise (· < ·) :=
  (Kids.Ordered.place ht.ordered hlo hhi fun _ _ hp hlo' hhi' =>
    ordered_insert hmax s.numPages hp hlo' hhi' hkey).pairwise_seps

/-- The state of a node whose picked child has taken the row: the page of the node is the old one,
and the children hang under it. -/
theorem SubtreeInserted.placed {e fuel : ℕ} {s₁ : Pager}
    (hsub : SubtreeInserted s table types key row (n.kids.pick key) n.page e fuel s₁)
    (hpick : Stored s.page (rowWidth types) (n.kids.pick key) e)
    (hst : Stored s.page (rowWidth types) n next) (ht : GoodTree s (rowWidth types) n lo hi) :
    s₁.page n.page = s.page n.page ∧
      Hangs s₁.page (rowWidth types) n.page (MiniDB.placed s types key row n) next ∧
      Evolves s s₁ {q | q ∈ n.labels ∨ s.numPages ≤ q} (movedPages s (rowCuts types key n)) := by
  obtain ⟨hn, hothers⟩ := ht.disjoint key
  refine ⟨hsub.evolves.page _ ?_, ?_, hsub.evolves.mono ?_ ?_⟩
  · rintro (hmem | hge)
    · exact hn hmem
    · exact absurd ht.page_lt (not_lt.mpr hge)
  · refine hangs_place hst.2 (fun c hc q hq => hsub.evolves.page q ?_) (head_insert ..).2
      fun e' he' => ?_
    · rintro (hmem | hge)
      · exact (hothers c hc q hq).1 hmem
      · exact absurd (hothers c hc q hq).2 (not_lt.mpr hge)
    · exact Stored.next_unique hpick he' ▸ hsub.hangs
  · rintro q (hq | hq)
    · exact Or.inl (Multiset.mem_of_le
        (Tree.labels_le_of_mem (Kids.pick_mem_children key n.kids)) hq)
    · exact Or.inr hq
  · rintro q ⟨cut, hcut, hq⟩
    exact ⟨cut, List.mem_append_left _ hcut, hq⟩

/-- The pages that the split of a node writes outside of the node and its new half: its children,
which are in the tree or new. -/
theorem GoodTree.mem_placed (ht : GoodTree s (rowWidth types) n lo hi) {q : ℕ}
    (hq : q ∈ (placed s types key row n).children.map Tree.page) :
    q ∈ n.labels ∨ s.numPages ≤ q := by
  obtain ⟨c, hc, rfl⟩ := List.mem_map.mp hq
  exact ((ht.nodup_placed).2 _ (Multiset.mem_add.mpr (Or.inr
    (Multiset.mem_of_le (Tree.labels_le_sum hc) (Tree.page_mem_labels c))))).2

/-- A child that was split: both halves take its place, and the code goes on with the node. -/
theorem SubtreeInserted.split {e fuel : ℕ} {s₁ : Pager} {l r : PageTree h} {sep : Int64}
    (hsub : SubtreeInserted s table types key row (n.kids.pick key) n.page e fuel s₁)
    (hsplit : (rowInserted s types key row (n.kids.pick key)).1 = .split l sep r) :
    l.page = (n.kids.pick key).page ∧
      MiniDB.placed s types key row n = n.kids.place key (.cons l sep (.one r)) ∧
      insertRow s table (n.leafFor key).page key row (rowWidth types) =
        insertParent fuel s₁ n.page sep l.page r.page := by
  have hhead := (head_insert (leafNodeMaxCells (rowWidth types)) internalNodeMaxKeys key
    (rowBytes row.values) s.numPages (n.kids.pick key)).1
  have hrun := hsub.run
  rw [rowInserted] at hsplit
  rw [hsplit] at hhead hrun
  refine ⟨hhead, ?_, hrun⟩
  rw [MiniDB.placed, rowInserted, hsplit]
  rfl

/-- The call for a node whose child was split. -/
theorem SubtreeInserted.handedUp {e fuel : ℕ} {s₁ : Pager} {old l r : PageTree h} {sep : Int64}
    {p : ℕ} (hsub : SubtreeInserted s table types key row old p e fuel s₁)
    (hsplit : (rowInserted s types key row old).1 = .split l sep r) :
    HandedUp s (rowWidth types) old l r e ⟨s₁, p, sep, l.page, r.page⟩ := by
  have hhead := (head_insert (leafNodeMaxCells (rowWidth types)) internalNodeMaxKeys key
    (rowBytes row.values) s.numPages old).1
  have hlabels := (labels_insert (leafNodeMaxCells (rowWidth types)) internalNodeMaxKeys key
    (rowBytes row.values) s.numPages old).2
  have hhangs := hsub.hangs
  rw [rowInserted] at hsplit
  rw [hsplit] at hhead hlabels hhangs
  refine ⟨hhead, rfl, rfl, hhangs, fun q hq hnot => ?_, fun q hq => ?_⟩
  · refine hsub.evolves.page q ?_
    rintro (hmem | hge)
    · exact hnot hmem
    · exact absurd hq (not_lt.mpr hge)
  · have hsum : l.labels + r.labels = old.labels + newLabels s.numPages (rowInserted s types key row
        old).2 := by
      rw [← hlabels]
      simp [Ins.kids]
    rw [hsum] at hq
    exact (Multiset.mem_add.mp hq).imp_right fun hnew => (mem_newLabels.mp hnew).1

/-- A child that is moved in the split of a node is dirty, or was to be moved from the start. -/
theorem SubtreeInserted.moved {e fuel : ℕ} {s₁ : Pager}
    (hsub : SubtreeInserted s table types key row (n.kids.pick key) n.page e fuel s₁)
    (hst : Stored s.page (rowWidth types) n next) (ht : GoodTree s (rowWidth types) n lo hi)
    (hasc : (MiniDB.placed s types key row n).seps.Pairwise (· < ·))
    (hgt : internalNodeMaxKeys < (MiniDB.placed s types key row n).seps.length) {q : ℕ}
    (hq : (isRoot (s.page n.page) = 1 ∧
        q ∈ (MiniDB.placed s types key row n).children.map Tree.page) ∨
      (isRoot (s.page n.page) = 0 ∧ q ∈ ((MiniDB.placed s types key row n).children.map
        Tree.page).drop (internalNodeMaxKeys / 2 + 1))) :
    q ∈ movedPages s (rowCuts types key n) ∨ s₁.pageDirty q = true := by
  have hov : n.Overflows (leafNodeMaxCells (rowWidth types)) internalNodeMaxKeys key :=
    (lt_length_seps_place s.numPages ht.sized).mp hgt
  obtain ⟨l, sep, r, hsplit⟩ : ∃ l sep r,
      (rowInserted s types key row (n.kids.pick key)).1 = .split l sep r :=
    hov.1.exists_split s.numPages (ht.sized.2.2 _ (Kids.pick_mem_children key n.kids))
  have hdirty := hsub.dirty
  rw [hsplit] at hdirty
  by_cases hql : q = l.page
  · exact Or.inr (hql ▸ hdirty.1)
  by_cases hqr : q = r.page
  · exact Or.inr (hqr ▸ hdirty.2)
  obtain ⟨hl, hk, -⟩ := hsub.split hsplit
  have hnd : (n.kids.children.map Tree.page).Nodup := Tree.nodup_map_page
    (Multiset.nodup_of_le (le_add_self.trans (Tree.labels_succ n).ge) ht.nodup)
  obtain ⟨hroot, hnode⟩ := mem_movedChildren hl hst.1 hnd hk hasc hql hqr
  refine Or.inl ⟨(l.page, n.page), ?_, ?_⟩
  · rw [rowCuts, Tree.cuts_succ, if_pos hov, hl]
    exact List.mem_append_right _ (List.mem_singleton_self _)
  · rcases hq with ⟨h1, hq⟩ | ⟨h0, hq⟩
    · exact hroot h1 hq
    · exact hnode h0 hq

end Placed

/-- **Inserting a row into a subtree below the root.** -/
theorem insertRow_subtree (hreads : Reads s table types) (hs : s.Sound)
    (hmax : 1 ≤ leafNodeMaxCells (rowWidth types))
    (hrow : (rowBytes row.values).length = rowWidth types) : {h : ℕ} → {t : PageTree h} →
    {next parent : ℕ} → {lo : WithBot Int64} → {hi : WithTop Int64} →
    Stored s.page (rowWidth types) t next → ChildOf (s.page t.page) parent →
    GoodTree s (rowWidth types) t lo hi → lo ≤ key → (key : WithTop Int64) < hi →
    (∀ a ∈ (t.leafFor key).cells, a.1 ≠ key) → parent < s.numPages →
    (rowInserted s types key row t).2 ≤ tablesMaxPages →
    ∃ fuel s', SubtreeInserted s table types key row t parent next fuel s'
  | 0, l, next, parent, lo, hi, hst, hchild, ht, _, _, hkey, hparent, hroom =>
    ⟨walkFuel, insertRow_leaf hreads hs hrow hst hchild ht hkey hparent hroom⟩
  | h + 1, n, next, parent, lo, hi, hst, hchild, ht, hlo, hhi, hkey, hparent, hroom => by
    obtain ⟨lo', hi', hlo', hhi', hpick⟩ := ht.pick hlo hhi
    obtain ⟨e, hstp, hchildp⟩ := hst.2.exists_of_mem (Kids.pick_mem_children key n.kids)
    have hheight : h + 1 < s.numPages := Tree.height_lt ht.nodup ht.pages
    have hinsert : rowInserted s types key row n = closeNode internalNodeMaxKeys n.page
        (rowInserted s types key row (n.kids.pick key)).2 (placed s types key row n) := rfl
    rw [hinsert] at hroom
    obtain ⟨fuel, s₁, hsub⟩ := insertRow_subtree hreads hs hmax hrow hstp hchildp hpick hlo' hhi'
      hkey ht.page_lt ((labels_closeNode ..).1.trans hroom)
    obtain ⟨hnpage, hkids, hev⟩ := hsub.placed hstp hst ht
    have hfuel := hsub.enough
    have hasc := ht.ordered_placed row hmax hlo hhi hkey
    have hchild₁ : ChildOf (s₁.page n.page) parent := hnpage ▸ hchild
    obtain ⟨fuel, rfl⟩ := hsub.exists_fuel hs ((Nat.lt_succ_self h).trans hheight)
    obtain ⟨hndk, hltk⟩ := ht.nodup_placed
    obtain ⟨s₂, hrun₂, hcalls₂, hnum₂, hev₂, hhangs₂, hdirty₂⟩ := resume_node hsub.evolves.sound
      (hnpage ▸ hst.1) (head_insert ..).1 hkids hasc ht.sized.2.1 hndk
      (fun q hq => hsub.numPages ▸ (hltk q hq).1) hchild₁ (hparent.trans_le hev.numPages)
      (hsub.numPages ▸ hroom)
    rw [hsub.numPages, ← hinsert] at hrun₂ hcalls₂ hnum₂ hhangs₂ hdirty₂
    refine ⟨fuel, s₂, by omega, hsub.run.trans hrun₂, ?_, hnum₂, hev.trans ((hev₂.excuse ?_).mono ?_
      fun q hq => hq), hhangs₂, hdirty₂⟩
    · obtain ⟨o, hstep, hcalls⟩ := hsub.calls
      refine ⟨o, hstep, fun c hc => ?_⟩
      rcases hcalls c hc with hin | hup
      · exact Or.inl (Or.inl hin)
      rcases hcalls₂ c hup with ⟨l, sep, r, hout, rfl⟩ | hup
      · exact Or.inl (Or.inr ⟨rfl, l, r, e, hsub.handedUp hout⟩)
      · exact Or.inr hup
    · rintro q ⟨hgt, hq⟩
      exact hsub.moved hst ht hasc hgt (Or.inr ⟨hchild.isRoot, hq⟩)
    · rintro q (hq | hq | hq)
      · exact Or.inl (hq ▸ Tree.page_mem_labels n)
      · exact ht.mem_placed hq
      · exact Or.inr (hev.numPages.trans hq)

end Subtree

end MiniDB
